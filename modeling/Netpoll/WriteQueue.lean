import Netpoll.Lifecycle
import Netpoll.Shutdown

/-!
# The write list over whole lifetimes

Every step of a connection either leaves the output side alone
(`NoOutput`: at most write interest is lost) or runs one of `sendInLoop`,
`sendFile`, `sendStream` and `handleWrite`; `ConnStep.output` says so once
for the whole machine.

With it the write list is well formed in every state of every run, from
the constructor on, in any status, with any answers of the kernel and
file ranges that may go past the end of the file: write interest implies
a node, and a node that is not a file or stream has its buffer. The
assertions of `handleWrite`, `sendNext` and `sendFileInLoop` therefore
hold, and no missing buffer is dereferenced.
-/

namespace Netpoll

open Conn

/-! ## Steps without output -/

/-- The output side is left alone; write interest may go. -/
structure NoOutput (c c' : Conn) : Prop where
  list : c'.writeBufferList = c.writeBufferList
  fileBuffer : c'.fileBuffer = c.fileBuffer
  bytesSent : c'.bytesSent = c.bytesSent
  sent : c'.sent = c.sent
  writing : c'.channel.isWriting = true → c.channel.isWriting = true

namespace NoOutput

variable {c c₁ c₂ c₃ : Conn}

theorem refl (c : Conn) : NoOutput c c := ⟨rfl, rfl, rfl, rfl, id⟩

theorem trans (h₁ : NoOutput c₁ c₂) (h₂ : NoOutput c₂ c₃) : NoOutput c₁ c₃ :=
  ⟨h₂.list.trans h₁.list, h₂.fileBuffer.trans h₁.fileBuffer, h₂.bytesSent.trans h₁.bytesSent,
    h₂.sent.trans h₁.sent, fun hw => h₁.writing (h₂.writing hw)⟩

theorem log (c : Conn) {e : Event} (he : ∀ xs, e ≠ .sent xs) : NoOutput c (c.log e) := by
  refine ⟨rfl, rfl, rfl, ?_, id⟩
  have hnil : sentOf [e] = [] := sentOf_eq_nil fun e' he' xs => by
    rw [List.mem_singleton.mp he']
    exact he xs
  rw [Conn.sent, Conn.log, sentOf_append, hnil, List.append_nil, Conn.sent]

theorem invoke (c : Conn) (isSet : Bool) {e : Event} (he : ∀ xs, e ≠ .sent xs) :
    NoOutput c (c.invoke isSet e) := by
  unfold Conn.invoke
  split
  · exact (log c he).trans ⟨rfl, rfl, rfl, rfl, id⟩
  · exact refl c

theorem setStatus (c : Conn) (s : ConnStatus) : NoOutput c (c.setStatus s) :=
  (show NoOutput c { c with status := s } from ⟨rfl, rfl, rfl, rfl, id⟩).trans (log _ nofun)

theorem extendLife (c : Conn) : NoOutput c c.extendLife := by
  obtain ⟨t, evs, heq, hevs⟩ := c.extendLife_eq
  have hnil : sentOf evs = [] := sentOf_eq_nil fun e he xs => by
    rw [hevs e he]
    exact Event.noConfusion
  rw [heq]
  refine ⟨rfl, rfl, rfl, ?_, id⟩
  simp only [Conn.sent, sentOf_append, hnil, List.append_nil]

theorem down (c : Conn) (rest : Frame) : NoOutput c (c.down rest) := by
  have hch : NoOutput (c.setStatus .disconnected)
      ({ c.setStatus .disconnected with channel := c.channel.disableAll }.push rest) :=
    ⟨rfl, rfl, rfl, rfl, fun hw => absurd hw (by simp [push])⟩
  exact ((setStatus c _).trans hch).trans (invoke _ _ fun _ => Event.noConfusion)

theorem handleRead {c' : Conn} (hex : c.handleRead = .ok c') : NoOutput c c' := by
  cases handleRead_cases hex with
  | eof b =>
      exact (show NoOutput c ({ c with readBuffer := b }.push .extendLife) from
        ⟨rfl, rfl, rfl, rfl, id⟩).trans (down _ _)
  | failed b =>
      exact (show NoOutput c { c with readBuffer := b } from ⟨rfl, rfl, rfl, rfl, id⟩).trans
        (down _ _)
  | message b n total time evs hevs =>
      refine trans ?_ (invoke _ _ nofun)
      refine ⟨rfl, rfl, rfl, ?_, id⟩
      have hnil : sentOf evs = [] := sentOf_eq_nil fun e he xs => by
        rw [hevs e he]
        exact Event.noConfusion
      simp only [Conn.sent, sentOf_append, hnil, List.append_nil]
  | retry b => exact ⟨rfl, rfl, rfl, rfl, id⟩

theorem connectEstablished {c' : Conn} (hex : c.connectEstablished = .ok c') : NoOutput c c' := by
  unfold Conn.connectEstablished at hex
  split at hex
  · cases hex
    have hch : NoOutput c { c with channel := c.channel.enableReading } :=
      ⟨rfl, rfl, rfl, rfl, fun hw => by simpa using hw⟩
    exact (hch.trans (setStatus _ _)).trans (invoke _ _ nofun)
  · cases hex

theorem connectDestroyed {c' : Conn} (hex : c.connectDestroyed = .ok c') : NoOutput c c' := by
  rcases connectDestroyed_cases hex with ⟨-, rfl⟩ | ⟨-, rfl⟩
  · exact down c _
  · exact refl c'

theorem shutdown (c : Conn) : NoOutput c c.shutdown := by
  unfold Conn.shutdown
  split
  · simp only
    split
    · exact (setStatus c _).trans (log _ nofun)
    · exact setStatus c _
  · exact refl c

theorem forceClose (c : Conn) : NoOutput c c.forceClose := by
  unfold Conn.forceClose
  split
  · exact (setStatus c _).trans (down _ _)
  · exact refl c

theorem resume {c' : Conn} {f : Frame} (hf : ∀ tl, f ≠ .dispatch (.write :: tl))
    (hex : c.resume f = .ok c') : NoOutput c c' := by
  cases f with
  | callback =>
      cases hex
      exact refl c
  | dispatch todo =>
      cases todo with
      | nil =>
          cases hex
          exact refl c
      | cons hd tl =>
          have hpush : NoOutput c (c.push (.dispatch tl)) := ⟨rfl, rfl, rfl, rfl, id⟩
          cases hd with
          | close =>
              cases hex
              exact hpush.trans (down _ _)
          | error =>
              cases hex
              exact hpush
          | read => exact hpush.trans (handleRead hex)
          | write => exact absurd rfl (hf tl)
  | handleWriteRest =>
      cases hex
      unfold Conn.handleWriteRest
      split
      · exact log c nofun
      · exact refl c
  | handleCloseRest =>
      cases hex
      exact invoke c _ nofun
  | extendLife =>
      cases hex
      exact extendLife c
  | channelRemove =>
      obtain rfl := channelRemove_eq hex
      exact refl c'

end NoOutput

/-- The step runs a function of the output side. -/
def Conn.RunsOutput (c : Conn) : Act → Prop
  | .call (.send _) | .call (.sendFile (some _) _ _) | .call (.sendStream _) => True
  | .resume => ∃ tl fs, c.frames = .dispatch (.write :: tl) :: fs
  | _ => False

/-- What a step can do to the output side. -/
inductive OutputStep (c : Conn) (l : Label) (c' : Conn) : Prop
  | none (hn : ¬ c.RunsOutput l.act) (h : NoOutput c c')
  | send (msg : View) (hl : l.act = .call (.send msg))
      (h : { c with env := l.env }.sendInLoop msg.bytes = .ok c')
  | sendFile (file : List Byte) (offset length : Nat)
      (hl : l.act = .call (.sendFile (some file) offset length))
      (h : { c with env := l.env }.sendFileFd file offset (fileLength file length) = .ok c')
  | sendStream (callback : Option (List Chunk)) (hl : l.act = .call (.sendStream callback))
      (h : { c with env := l.env }.sendStream callback = .ok c')
  | handleWrite (tl : List Handler) (fs : List Frame) (hl : l.act = .resume)
      (hf : c.frames = .dispatch (.write :: tl) :: fs)
      (h : ({ c with env := l.env, frames := fs }.push (.dispatch tl)).handleWrite = .ok c')

theorem ConnStep.output {c c' : Conn} {l : Label} (h : ConnStep c l c') : OutputStep c l c' := by
  obtain ⟨-, hex⟩ := h
  have henv : NoOutput c { c with env := l.env } := ⟨rfl, rfl, rfl, rfl, id⟩
  have hnone : ∀ {a : Act}, l.act = a → ¬ c.RunsOutput a → NoOutput c c' → OutputStep c l c' :=
    fun ha hn ho => .none (ha ▸ hn) ho
  cases hact : l.act with
  | connectEstablished =>
      rw [hact] at hex
      exact hnone hact id (henv.trans (.connectEstablished hex))
  | connectDestroyed =>
      rw [hact] at hex
      exact hnone hact id (henv.trans (.connectDestroyed hex))
  | event revents =>
      rw [hact] at hex
      cases hex
      exact hnone hact id ⟨rfl, rfl, rfl, rfl, id⟩
  | call k =>
      rw [hact] at hex
      cases k with
      | send msg => exact .send msg hact hex
      | sendFile file offset length =>
          cases file with
          | none =>
              cases hex
              exact hnone hact id henv
          | some file => exact .sendFile file offset length hact hex
      | sendStream callback => exact .sendStream callback hact hex
      | shutdown =>
          cases hex
          exact hnone hact id (henv.trans (.shutdown _))
      | forceClose =>
          cases hex
          exact hnone hact id (henv.trans (.forceClose _))
  | resume =>
      rw [hact] at hex
      simp only [Conn.exec] at hex
      by_cases hw : ∃ tl fs, c.frames = .dispatch (.write :: tl) :: fs
      · obtain ⟨tl, fs, hf⟩ := hw
        simp only [hf] at hex
        exact .handleWrite tl fs hact hf hex
      · refine hnone hact hw ?_
        split at hex
        · cases hex
          exact henv
        · rename_i f fs hf
          have hpop : NoOutput c { c with env := l.env, frames := fs } := ⟨rfl, rfl, rfl, rfl, id⟩
          refine hpop.trans (.resume (fun tl htl => hw ⟨tl, fs, ?_⟩) hex)
          rw [← htl]
          exact hf

/-! ## The write list -/

/-- No stream is sent without a callback. -/
def Act.HasCallback : Act → Prop
  | .call (.sendStream callback) => callback.isSome
  | _ => True

/-- A step of a connection with any answers of the kernel. -/
def AnyStep : Conn → Label → Conn → Prop := Guarded ConnStep fun _ l => l.act.HasCallback

variable {inside : Prop} {c c' : Conn} {P : List Byte}

theorem Flow.noOutput (h : Flow inside c P) (ho : NoOutput c c') : Flow inside c' P where
  nodes := by rw [ho.list]; exact h.nodes
  staged := by rw [ho.fileBuffer, ho.list]; exact h.staged
  writing hw := by
    rw [ho.list]
    exact h.writing (ho.writing hw)
  conserved := by
    unfold Conn.pending
    rw [ho.sent, ho.fileBuffer, ho.list]
    exact h.conserved

theorem Flow.env (h : Flow inside c P) (env : Env) : Flow inside { c with env := env } P :=
  h.congr rfl rfl rfl rfl

theorem Flow.sendInLoop_any (h : Flow inside c P) (msg : View) :
    Post (· = .badAlloc) (fun c' => ∃ P', Flow inside c' P') (c.sendInLoop msg.bytes) := by
  by_cases hst : c.status = .connected
  · exact (h.sendInLoop msg.fits hst).mono (fun _ he => he) fun _ hc => hc.2.1
  · rw [Conn.sendInLoop, if_pos hst]
    exact ⟨P, h⟩

theorem Flow.sendFileFd (h : Flow False c P) (file : List Byte) (offset : Nat) {length : Nat}
    (hpos : 0 < length) :
    Post (fun _ => False) (fun c' => ∃ P', Flow False c' P')
      (c.sendFileFd file offset length) := by
  rw [Conn.sendFileFd, if_pos hpos]
  exact ((h.log _).pushNode (ok_file rfl rfl nofun) rfl).mono (fun _ hf => hf)
    fun _ hc => ⟨_, hc.1⟩

theorem Flow.sendStream (h : Flow inside c P) (chunks : List Chunk) :
    Post (fun _ => False) (fun c' => ∃ P', Flow inside c' P') (c.sendStream (some chunks)) :=
  ((h.log _).pushNode (ok_stream rfl) rfl).mono (fun _ hf => hf)
    fun _ hc => ⟨_, hc.1⟩

theorem Flow.anyStep {l : Label} (h : Flow False c P) (hs : AnyStep c l c') :
    ∃ P', Flow False c' P' := by
  obtain ⟨hstep, hcb⟩ := hs
  cases hstep.output with
  | none _ ho => exact ⟨P, h.noOutput ho⟩
  | send msg hl hex => exact ((h.env l.env).sendInLoop_any msg).of_ok hex
  | sendFile file offset length hl hex =>
      by_cases hpos : 0 < fileLength file length
      · exact ((h.env l.env).sendFileFd file offset hpos).of_ok hex
      · rw [Conn.sendFileFd, if_neg hpos] at hex
        cases hex
  | sendStream callback hl hex =>
      rw [hl] at hcb
      obtain ⟨chunks, rfl⟩ := Option.isSome_iff_exists.mp hcb
      exact ((h.env l.env).sendStream chunks).of_ok hex
  | handleWrite tl fs hl hf hex =>
      have hpush : Flow False ({ c with env := l.env, frames := fs }.push (.dispatch tl)) P :=
        h.congr rfl rfl rfl rfl
      exact ⟨P, (hpush.handleWrite.of_ok hex).1⟩

theorem flow_new (rb : MessageBuffer) (cbs : Callbacks) (env : Env) :
    Flow inside (Conn.new rb cbs env) [] :=
  ⟨fun _ hn => absurd hn List.not_mem_nil, fun hne => absurd rfl hne,
    fun hw => absurd hw (by simp [Conn.new]), rfl⟩

theorem Run.flow {rb : MessageBuffer} {cbs : Callbacks} {env : Env} {ls : List Label}
    (hrun : Run AnyStep (Conn.new rb cbs env) ls c) : ∃ P, Flow False c P :=
  Run.invariant (I := fun c => ∃ P, Flow False c P)
    (fun _ _ _ ⟨_, h⟩ hs => h.anyStep hs) hrun ⟨[], flow_new rb cbs env⟩

/-- In every state of every run the write list is well formed, and the
assertions and dereferences of the write path are safe in it, whatever
the kernel answers: `handleWrite` returns, `sendInLoop` fails for want of
memory only, and a file or stream is put behind the list or started on it. -/
theorem write_list_wellFormed (rb : MessageBuffer) (cbs : Callbacks) (env : Env)
    {ls : List Label} {c : Conn} (hrun : Run AnyStep (Conn.new rb cbs env) ls c) :
    (c.channel.isWriting = true → c.writeBufferList ≠ []) ∧
      (∀ node ∈ c.writeBufferList, node.isFile = false → ∃ b, node.msgBuffer = some b) ∧
      ∀ env : Env,
        (∃ c', { c with env := env }.handleWrite = .ok c') ∧
        (∀ (msg : View) (f : Fault), { c with env := env }.sendInLoop msg.bytes = .error f →
          f = .badAlloc) ∧
        (∀ (file : List Byte) (offset length : Nat), 0 < length →
          ∃ c', { c with env := env }.sendFileFd file offset length = .ok c') ∧
        ∀ chunks : List Chunk, ∃ c', { c with env := env }.sendStream (some chunks) = .ok c' := by
  obtain ⟨P, h⟩ := hrun.flow
  refine ⟨h.writing, fun node hn hf => ?_, fun env => ?_⟩
  · obtain ⟨b, -, -, hb, -⟩ := (h.nodes node hn).msg hf
    exact ⟨b, hb⟩
  · have henv := h.env env
    refine ⟨?_, fun msg f hf => ?_, fun file offset length hpos => ?_, fun chunks => ?_⟩
    · exact henv.handleWrite.exists_ok.imp fun _ h => h.1
    · exact (henv.sendInLoop_any msg).of_error hf
    · exact (henv.sendFileFd file offset hpos).exists_ok.imp fun _ h => h.1
    · exact (henv.sendStream chunks).exists_ok.imp fun _ h => h.1

/-- A stream is drained, and the write-complete callback sends another one. -/
def sendsAgain : List Label :=
  [⟨.connectEstablished, answering []⟩,
    ⟨.call (.sendStream (some [⟨[1], by decide⟩])), answering []⟩,
    ⟨.event POLLOUT, answering []⟩, ⟨.resume, answering [.count 1]⟩, ⟨.resume, answering []⟩,
    ⟨.event POLLOUT, answering []⟩, ⟨.resume, answering []⟩,
    ⟨.call (.sendStream (some [⟨[2], by decide⟩])), answering []⟩]

theorem write_list_sendsAgain : ∃ c,
    Run AnyStep (Conn.new .blank writeCallbacks (answering [])) sendsAgain c ∧
      .writeComplete ∈ c.trace ∧ c.channel.isWriting = true ∧ c.writeBufferList ≠ [] := by
  have hrun : Run AnyStep (Conn.new .blank writeCallbacks (answering [])) sendsAgain _ :=
    .cons ⟨⟨rfl, rfl⟩, trivial⟩ <| .cons ⟨⟨Or.inl rfl, rfl⟩, rfl⟩ <|
      .cons ⟨⟨rfl, rfl⟩, trivial⟩ <| .cons ⟨⟨List.cons_ne_nil _ _, rfl⟩, trivial⟩ <|
      .cons ⟨⟨List.cons_ne_nil _ _, rfl⟩, trivial⟩ <| .cons ⟨⟨rfl, rfl⟩, trivial⟩ <|
      .cons ⟨⟨List.cons_ne_nil _ _, rfl⟩, trivial⟩ <| .cons ⟨⟨Or.inr rfl, rfl⟩, rfl⟩ <| .nil _
  exact ⟨_, hrun, by decide, rfl, (write_list_wellFormed _ _ _ hrun).1 rfl⟩

end Netpoll
