import Netpoll.Lifecycle

/-!
# A closed connection

After `handleClose` a connection is `Disconnected` and its channel listens
to nothing. What is still to come are handlers of the same dispatch,
callbacks, calls of the user, sends that other threads had queued, and at
last `connectDestroyed`. None of these wakes the channel up again or
writes to the socket, except one: `sendFile` and `sendStream` do not look
at `m_status`, and if the write list is empty they write at once and
enable writing. `sendInLoop`, which does look, is the model for them.

The kernel's answers are part of a step's label, so a step that would use
one up, whatever the answers are, is one that writes (`Conn.Issues`).
-/

namespace Netpoll

open Conn

/-! ## The statement -/

/-- Down, and listening to nothing. -/
structure Conn.Down (c : Conn) : Prop where
  status : c.status = .disconnected
  events : c.channel.events = Channel.kNoneEvent

/-- The step calls `write` or `sendfile`: there are answers of which it
uses one. -/
def Conn.Issues (c : Conn) (l : Label) : Prop :=
  ∃ io c', ({ c with env := { l.env with io } } : Conn).exec l.act = .ok c' ∧ c'.env.io ≠ io

/-- No handler of the channel is running or still to be called. -/
def Conn.Unattended (c : Conn) : Prop := ∀ f ∈ c.frames, f = .dispatch []

/-- A connection whose `handleClose` has run; `removed` once
`connectDestroyed` has taken its channel out of the poller. -/
structure ClosedConn where
  conn : Conn
  removed : Bool

def ClosedStep (s : ClosedConn) (l : Label) (s' : ClosedConn) : Prop :=
  ConnStep s.conn l s'.conn ∧ s'.removed = (s.removed || l.act == .connectDestroyed)

/-- A step of a closed connection is silent: the mask stays empty, so
`Channel::remove` may be called, and nothing is written. Once the channel
is removed no handler is left that could register it again. -/
structure Silenced (s : ClosedConn) (l : Label) (s' : ClosedConn) : Prop where
  down : s'.conn.Down
  remove : s'.conn.channel.remove = .ok s'.conn.channel
  quiet : ¬ s.conn.Issues l
  unattended : s'.removed = true → s'.conn.Unattended

/-- The call does not start a file or a stream: it only joins the queue. -/
def Conn.Delays (c : Conn) : Call → Prop
  | .sendFile (some _) _ _ | .sendStream _ => c.writeBufferList ≠ []
  | _ => True

/-- Calls of `sendFile` and `sendStream` find a non-empty write list. -/
def DelaysFiles (s : ClosedConn) (l : Label) : Prop := ∀ k, l.act = .call k → s.conn.Delays k

/-! ## What a connection that is down does -/

namespace Conn

variable {c c' : Conn}

/-- Still down, and no answer of the kernel was used. -/
structure Rests (c c' : Conn) : Prop where
  down : c'.Down
  env : c'.env = c.env

theorem Rests.of_env {c₁ : Conn} (h : Rests c₁ c') (henv : c₁.env = c.env) : Rests c c' :=
  ⟨h.down, h.env.trans henv⟩

theorem Down.rests (h : c.Down) : Rests c c := ⟨h, rfl⟩

theorem Down.invoke (h : c.Down) (isSet : Bool) (e : Event) : Rests c (c.invoke isSet e) := by
  unfold Conn.invoke
  split
  · exact ⟨⟨h.status, h.events⟩, rfl⟩
  · exact h.rests

theorem Down.extendLife (h : c.Down) : Rests c c.extendLife := by
  obtain ⟨t, evs, heq, -⟩ := c.extendLife_eq
  rw [heq]
  exact ⟨⟨h.status, h.events⟩, rfl⟩

theorem rests_handleClose (c : Conn) : Rests c c.handleClose := by
  have hset : Down ({ c.setStatus .disconnected with channel := c.channel.disableAll }.push
      .handleCloseRest) := ⟨rfl, rfl⟩
  exact (hset.invoke _ _).of_env rfl

theorem Down.isWriting (h : c.Down) : c.channel.isWriting = false := by
  rw [Channel.isWriting, h.events]
  rfl

theorem Down.remove (h : c.Down) : c.channel.remove = .ok c.channel := by
  rw [Channel.remove, if_pos h.events]

theorem Down.handleWrite (h : c.Down) (hex : c.handleWrite = .ok c') : Rests c c' := by
  have hx := h.extendLife
  unfold Conn.handleWrite at hex
  simp only [hx.down.isWriting] at hex
  cases hex
  exact hx

theorem Down.handleRead (h : c.Down) (hex : c.handleRead = .ok c') : Rests c c' := by
  cases handleRead_cases hex with
  | eof b => exact (rests_handleClose _).of_env rfl
  | failed b => exact (rests_handleClose _).of_env rfl
  | message b n total time evs =>
      have hrecv : Down { c with
        readBuffer := b, bytesReceived := total, lastTimingWheelUpdateTime := time,
        trace := c.trace ++ evs } := ⟨h.status, h.events⟩
      exact (hrecv.invoke _ _).of_env rfl
  | retry b => exact ⟨⟨h.status, h.events⟩, rfl⟩

theorem Down.handle (h : c.Down) {hd : Handler} (hex : c.handle hd = .ok c') : Rests c c' := by
  cases hd with
  | close =>
      cases hex
      exact rests_handleClose c
  | error =>
      cases hex
      exact h.rests
  | read => exact h.handleRead hex
  | write => exact h.handleWrite hex

theorem Down.resume (h : c.Down) {f : Frame} (hex : c.resume f = .ok c') : Rests c c' := by
  cases f with
  | callback =>
      cases hex
      exact h.rests
  | dispatch todo =>
      cases todo with
      | nil =>
          cases hex
          exact h.rests
      | cons hd todo =>
          have hpush : (c.push (.dispatch todo)).Down := ⟨h.status, h.events⟩
          exact (hpush.handle hex).of_env rfl
  | handleWriteRest =>
      simp only [Conn.resume, Conn.handleWriteRest, h.status] at hex
      cases hex
      exact ⟨⟨h.status, h.events⟩, rfl⟩
  | handleCloseRest =>
      cases hex
      exact h.invoke _ _
  | extendLife =>
      cases hex
      exact h.extendLife
  | channelRemove =>
      obtain rfl := channelRemove_eq hex
      exact h.rests

theorem Down.call (h : c.Down) {k : Call} (hk : c.Delays k) (hex : c.call k = .ok c') :
    Rests c c' ∧ c'.frames = c.frames := by
  have hsame : Rests c c ∧ c.frames = c.frames := ⟨h.rests, rfl⟩
  cases k with
  | send msg =>
      simp only [Conn.call, Conn.sendInLoop, h.status] at hex
      cases hex
      exact ⟨⟨⟨h.status, h.events⟩, rfl⟩, rfl⟩
  | sendFile file offset length =>
      cases file with
      | none =>
          cases hex
          exact hsame
      | some file =>
          simp only [Conn.call, Conn.sendFile] at hex
          unfold Conn.sendFileFd at hex
          split at hex
          · rw [pushNode_of_ne_nil (c := c.log _) hk] at hex
            cases hex
            exact ⟨⟨⟨h.status, h.events⟩, rfl⟩, rfl⟩
          · cases hex
  | sendStream callback =>
      simp only [Conn.call, Conn.sendStream] at hex
      rw [pushNode_of_ne_nil (c := c.log _) hk] at hex
      cases hex
      exact ⟨⟨⟨h.status, h.events⟩, rfl⟩, rfl⟩
  | shutdown =>
      simp only [Conn.call, Conn.shutdown, h.status] at hex
      cases hex
      exact ⟨⟨⟨h.status, h.events⟩, rfl⟩, rfl⟩
  | forceClose =>
      simp only [Conn.call, Conn.forceClose, h.status] at hex
      cases hex
      exact ⟨⟨⟨h.status, h.events⟩, rfl⟩, rfl⟩

/-- The step lemma: what a connection that is down may still do. -/
theorem Down.exec (h : c.Down) {a : Act} (hk : ∀ k, a = .call k → c.Delays k)
    (hex : c.exec a = .ok c') : Rests c c' := by
  cases a with
  | connectEstablished =>
      simp only [Conn.exec, Conn.connectEstablished, h.status] at hex
      cases hex
  | event revents =>
      cases hex
      exact ⟨⟨h.status, h.events⟩, rfl⟩
  | call k => exact (h.call (hk k rfl) hex).1
  | resume =>
      simp only [Conn.exec] at hex
      split at hex
      · cases hex
        exact h.rests
      · have hpop : ∀ fs, ({ c with frames := fs } : Conn).Down := fun _ => ⟨h.status, h.events⟩
        exact ((hpop _).resume hex).of_env rfl
  | connectDestroyed =>
      rcases connectDestroyed_cases hex with ⟨hup, -⟩ | ⟨-, rfl⟩
      · cases h.status.symm.trans hup
      · exact h.rests

theorem Down.not_issues (h : c.Down) {l : Label} (hk : ∀ k, l.act = .call k → c.Delays k) :
    ¬ c.Issues l := by
  rintro ⟨io, c', hex, hne⟩
  have hdown : ({ c with env := { l.env with io } } : Conn).Down := ⟨h.status, h.events⟩
  exact hne (congrArg Env.io (hdown.exec hk hex).env)

theorem Down.unattended (h : c.Down) (hf : c.Unattended) {a : Act}
    (hk : ∀ k, a = .call k → c.Delays k) (hex : c.exec a = .ok c') : c'.Unattended := by
  cases a with
  | connectEstablished =>
      simp only [Conn.exec, Conn.connectEstablished, h.status] at hex
      cases hex
  | event revents =>
      have hnone : (c.channel.setRevents revents).handleEvent = [] := by
        simp [Channel.handleEvent, Channel.isNoneEvent, Channel.setRevents, h.events]
      simp only [Conn.exec, hnone] at hex
      cases hex
      intro f hmem
      rcases List.mem_cons.mp hmem with rfl | hmem
      · rfl
      · exact hf f hmem
  | call k =>
      intro f hmem
      rw [(h.call (hk k rfl) hex).2] at hmem
      exact hf f hmem
  | resume =>
      simp only [Conn.exec] at hex
      split at hex
      · cases hex
        exact hf
      · rename_i f fs hfs
        obtain rfl : f = .dispatch [] := hf f (by rw [hfs]; exact List.mem_cons_self)
        cases hex
        exact fun g hg => hf g (by rw [hfs]; exact List.mem_cons_of_mem _ hg)
  | connectDestroyed =>
      rcases connectDestroyed_cases hex with ⟨hup, -⟩ | ⟨-, rfl⟩
      · cases h.status.symm.trans hup
      · exact hf

/-! ## Files and streams that are started -/

/-- `sendFileInLoop` uses up the one answer there is. -/
def Uses (c : Conn) (filePtr : BufferNode) : Prop :=
  ∃ c' filePtr', c.sendFileInLoop filePtr = .ok (c', filePtr') ∧ c'.env.io = []

theorem uses_file {filePtr : BufferNode} {file : List Byte} (hio : c.env.io = [.failed .other])
    (hs : filePtr.streamCallback = none) (hfd : filePtr.sendFd = some file) :
    c.Uses filePtr := by
  have hsend : c.sendfile file filePtr
      = (.failed .other, { c with env := { c.env with io := [] } }, filePtr) := by
    simp only [Conn.sendfile, Conn.nextIo, hio]
  unfold Uses Conn.sendFileInLoop
  simp only [hs, hfd, hsend]
  split
  · exact ⟨_, _, rfl, rfl⟩
  · exact ⟨_, _, rfl, rfl⟩

/-- What a stream has to write next: what is staged, or its next chunk. -/
def staged (c : Conn) (filePtr : BufferNode) : Conn × BufferNode :=
  if c.fileBuffer = [] then c.fetch filePtr else (c, filePtr)

theorem staged_env (c : Conn) (filePtr : BufferNode) : (c.staged filePtr).1.env = c.env := by
  unfold staged Conn.fetch
  split
  · split <;> rfl
  · rfl

theorem staged_congr {c₁ : Conn} (filePtr : BufferNode) (h : c₁.fileBuffer = c.fileBuffer) :
    (c₁.staged filePtr).1.fileBuffer = (c.staged filePtr).1.fileBuffer := by
  unfold staged Conn.fetch
  rw [h]
  split
  · split <;> rfl
  · exact h

theorem streamLoop_succ {fuel : Nat} {filePtr : BufferNode} (hpos : 0 < filePtr.fileBytesToSend) :
    Conn.streamLoop (fuel + 1) c filePtr =
      if (c.staged filePtr).1.fileBuffer = [] then
        .ok ((c.staged filePtr).1.startWriting, (c.staged filePtr).2)
      else (c.staged filePtr).1.streamWrite (c.staged filePtr).2 (Conn.streamLoop fuel) := by
  rw [Conn.streamLoop, if_pos (Or.inl hpos)]
  rfl

theorem uses_stream {filePtr : BufferNode} {chunks : List Chunk}
    (hio : c.env.io = [.failed .other]) (hs : filePtr.streamCallback = some chunks)
    (hpos : 0 < filePtr.fileBytesToSend) (hnext : (c.staged filePtr).1.fileBuffer ≠ []) :
    c.Uses filePtr := by
  have hio' : (c.staged filePtr).1.env.io = [.failed .other] := by rw [staged_env, hio]
  unfold Uses Conn.sendFileInLoop
  simp only [hs]
  rw [show streamFuel filePtr = chunks.length + 1 + 1 by simp [streamFuel, hs],
    streamLoop_succ hpos, if_neg hnext]
  generalize c.staged filePtr = next at hio'
  simp only [Conn.streamWrite, Conn.writeInLoop, Conn.nextIo, hio', writeSocketError, if_true]
  exact ⟨_, _, rfl, rfl⟩

theorem sendFileInLoop_startWriting {filePtr : BufferNode} {chunks : List Chunk}
    (hs : filePtr.streamCallback = some chunks) (hpos : 0 < filePtr.fileBytesToSend)
    (hnext : (c.staged filePtr).1.fileBuffer = []) :
    c.sendFileInLoop filePtr = .ok ((c.staged filePtr).1.startWriting, (c.staged filePtr).2) := by
  unfold Conn.sendFileInLoop
  simp only [hs]
  rw [show streamFuel filePtr = chunks.length + 1 + 1 by simp [streamFuel, hs],
    streamLoop_succ hpos, if_pos hnext]

theorem Uses.pushNode {node : BufferNode}
    (h : ({ c with writeBufferList := [node] } : Conn).Uses node) (hnil : c.writeBufferList = []) :
    ∃ c', c.pushNode node = .ok c' ∧ c'.env.io = [] := by
  obtain ⟨c', node', hex, hio⟩ := h
  refine ⟨{ c' with writeBufferList := [node'] }, ?_, hio⟩
  rw [pushNode_nil hnil, Conn.sendFileFront, hex]
  rfl

theorem pushNode_startWriting {node : BufferNode} {chunks : List Chunk}
    (hs : node.streamCallback = some chunks) (hpos : 0 < node.fileBytesToSend)
    (hnext : (c.staged node).1.fileBuffer = []) (hnil : c.writeBufferList = [])
    (hex : c.pushNode node = .ok c') : c'.channel.isWriting = true := by
  have hnext' : (({ c with writeBufferList := [node] } : Conn).staged node).1.fileBuffer = [] :=
    (staged_congr node (by rfl)).trans hnext
  rw [pushNode_nil hnil, Conn.sendFileFront, sendFileInLoop_startWriting hs hpos hnext'] at hex
  cases hex
  exact isWriting_startWriting _

theorem issues_sendFile {file : List Byte} {offset length : Nat} {env : Env}
    (hnil : c.writeBufferList = []) (hpos : fileLength file length > 0) :
    c.Issues ⟨.call (.sendFile (some file) offset length), env⟩ := by
  let node : BufferNode := ⟨some file, offset, fileLength file length, none, none⟩
  let c₂ : Conn := ({ c with env := { env with io := [.failed .other] } } : Conn).log
    (.accept (slice file offset (offset + fileLength file length)))
  have huses : ({ c₂ with writeBufferList := [node] } : Conn).Uses node := uses_file rfl rfl rfl
  obtain ⟨c', hex, hio⟩ := huses.pushNode hnil
  refine ⟨[.failed .other], c', ?_, by rw [hio]; simp⟩
  simp only [Conn.exec, Conn.call, Conn.sendFile, Conn.sendFileFd, if_pos hpos]
  exact hex

/-- A stream that is started on an empty list is written at once, or
makes the channel listen. -/
theorem sendStream_wakes {callback : Option (List Chunk)} {env : Env}
    (hnil : c.writeBufferList = [])
    (hex : ({ c with env } : Conn).sendStream callback = .ok c') :
    c.Issues ⟨.call (.sendStream callback), env⟩ ∨ c'.channel.isWriting = true := by
  have hlist : ∀ env', (({ c with env := env' } : Conn).log
      (.accept (streamPayload (callback.getD [])))).writeBufferList = [] := fun _ => hnil
  cases callback with
  | none =>
      simp only [Conn.sendStream] at hex
      rw [pushNode_nil (hlist env)] at hex
      cases hex
  | some chunks =>
      let node : BufferNode := ⟨none, 0, 1, some chunks, none⟩
      by_cases hnext : (c.staged node).1.fileBuffer = []
      · refine Or.inr (pushNode_startWriting rfl Nat.one_pos ?_ (hlist env) hex)
        exact (staged_congr node (by rfl)).trans hnext
      · refine Or.inl ?_
        let c₂ : Conn := ({ c with env := { env with io := [.failed .other] } } : Conn).log
          (.accept (streamPayload chunks))
        have huses : ({ c₂ with writeBufferList := [node] } : Conn).Uses node :=
          uses_stream rfl rfl Nat.one_pos fun h =>
            hnext ((staged_congr node (by rfl)).symm.trans h)
        obtain ⟨c₁, hex₁, hio⟩ := huses.pushNode (hlist _)
        exact ⟨[.failed .other], c₁, hex₁, by rw [hio]; simp⟩

end Conn

/-! ## Runs -/

/-- The invariant: down, and once removed, without a handler. -/
structure ClosedConn.Quiet (s : ClosedConn) : Prop where
  down : s.conn.Down
  unattended : s.removed = true → s.conn.Unattended

namespace ClosedConn

variable {s s' : ClosedConn} {l : Label}

theorem Quiet.step (h : s.Quiet) (hg : DelaysFiles s l) (hs : ClosedStep s l s') :
    s'.Quiet ∧ Silenced s l s' := by
  obtain ⟨⟨hen, hex⟩, hrem⟩ := hs
  have hdown : ({ s.conn with env := l.env } : Conn).Down := ⟨h.down.status, h.down.events⟩
  have hdown' := (hdown.exec hg hex).down
  have hun : s'.removed = true → s'.conn.Unattended := by
    intro hr
    rw [hrem, Bool.or_eq_true, beq_iff_eq] at hr
    refine hdown.unattended (fun f hf => ?_) hg hex
    rcases hr with hr | hact
    · exact h.unattended hr f hf
    · -- connectDestroyed starts with an empty stack
      rw [hact] at hen
      have hnil : s.conn.frames = [] := hen
      simp [hnil] at hf
  exact ⟨⟨hdown', hun⟩, ⟨hdown', hdown'.remove, h.down.not_issues hg, hun⟩⟩

theorem not_silenced (hg : ¬ DelaysFiles s l) (hs : ClosedStep s l s') : ¬ Silenced s l s' := by
  obtain ⟨⟨-, hex⟩, -⟩ := hs
  simp only [DelaysFiles, not_forall] at hg
  obtain ⟨k, hact, hk⟩ := hg
  intro hsil
  obtain ⟨act, env⟩ := l
  obtain rfl : act = .call k := hact
  cases k with
  | sendFile file offset length =>
      cases file with
      | none => exact hk trivial
      | some file =>
          have hnil : s.conn.writeBufferList = [] := not_not.mp hk
          by_cases hpos : fileLength file length > 0
          · exact hsil.quiet (issues_sendFile hnil hpos)
          · simp only [Conn.exec, Conn.call, Conn.sendFile, Conn.sendFileFd, if_neg hpos] at hex
            cases hex
  | sendStream callback =>
      have hnil : s.conn.writeBufferList = [] := not_not.mp hk
      rcases sendStream_wakes hnil hex with hiss | hw
      · exact hsil.quiet hiss
      · rw [hsil.down.isWriting] at hw
        cases hw
  | _ => exact hk trivial

/-- What `handleClose` leaves of a connection. -/
def ofHandleClose (c : Conn) : ClosedConn := ⟨c.handleClose, false⟩

theorem Quiet.ofHandleClose (c : Conn) : (ClosedConn.ofHandleClose c).Quiet :=
  ⟨(rests_handleClose c).down, fun h => by cases h⟩

/-- **A closed connection stays quiet**, whatever the connection was and
whatever comes after `handleClose`, exactly if every file and stream that
is still sent finds a non-empty write list. -/
theorem silenced_iff (c : Conn) (ls : List Label) :
    EveryStep ClosedStep (fun s l => ∀ s', ClosedStep s l s' → Silenced s l s') (ofHandleClose c) ls
      ↔ EveryStep ClosedStep DelaysFiles (ofHandleClose c) ls := by
  refine everyStep_iff_everyStep (I := Quiet) (Quiet.ofHandleClose c) ?_ ?_
  · exact fun s l s' h hg hs => h.step hg hs
  · exact fun s l s' _ hg hs => not_silenced hg hs

/-- The down callback of an established connection sends a file of three
bytes, of which the socket takes two. -/
def farewell : Label := ⟨.call (.sendFile (some [1, 2, 3]) 0 0), answering [.count 2]⟩

/-- The connection after that call. -/
def saidFarewell (rb : MessageBuffer) : ClosedConn where
  conn := { (Conn.established rb lifeCallbacks (answering [])).handleClose with
    channel := ⟨POLLOUT, 0#32⟩
    writeBufferList := [⟨some [1, 2, 3], 2, 1, none, none⟩]
    trace := [.status .connected, .connection true, .status .disconnected, .connection false,
      .accept [1, 2, 3], .sent [1, 2]] }
  removed := false

theorem step_farewell (rb : MessageBuffer) :
    ClosedStep (ofHandleClose (Conn.established rb lifeCallbacks (answering []))) farewell
      (saidFarewell rb) :=
  ⟨⟨Or.inr rfl, by with_unfolding_all rfl⟩, rfl⟩

/-- The file is written after `handleClose`, and `connectDestroyed` will
find a channel that listens. -/
theorem not_silenced_farewell :
    ∃ rb, MessageBuffer.new kBufferDefaultLength = .ok rb ∧
      ¬ EveryStep ClosedStep (fun s l => ∀ s', ClosedStep s l s' → Silenced s l s')
        (ofHandleClose (Conn.established rb lifeCallbacks (answering []))) [farewell] := by
  obtain ⟨rb, hnew, -⟩ := new_default
  refine ⟨rb, hnew, fun h => ?_⟩
  have hs := step_farewell rb
  have hsil := h [] farewell _ _ (List.prefix_refl _) (.nil _) hs _ hs
  have hevents : POLLOUT = Channel.kNoneEvent := hsil.down.events
  cases hevents

end ClosedConn

end Netpoll
