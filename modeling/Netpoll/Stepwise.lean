import Netpoll.SendPath

/-!
# Relations that every step of a connection keeps

The functions of a connection are made of a few moves: fields are
assigned, `m_status` is assigned, a callback is invoked, something is
observed by the outside, a frame is pushed or popped. A relation between
two states that is transitive and holds over each of these moves
(`Stepwise`) holds over every function, and so over every step of the
machine (`Stepwise.step`), whatever the kernel answers and whatever the
user calls.
-/

namespace Netpoll

open Conn

/-- The moves of `m_status` that the code makes. -/
inductive ConnStatus.Moves : ConnStatus → ConnStatus → Prop
  | establish : Moves .connecting .connected
  | leave {s : ConnStatus} : s = .connected ∨ s = .disconnecting → Moves s .disconnecting
  | drop (s : ConnStatus) : Moves s .disconnected

/-- What may be observed outside of `handleClose` and of an assignment of
the status; `extendLife` inserts with the connection's own timeout. -/
def Event.IsPlain (idleTimeout : Nat) : Event → Prop
  | .status _ | .close => False
  | .insertEntry timeout => timeout = idleTimeout
  | _ => True

/-- A relation that the moves of a connection keep. -/
structure Stepwise (R : Conn → Conn → Prop) : Prop where
  trans : ∀ {c₁ c₂ c₃ : Conn}, R c₁ c₂ → R c₂ c₃ → R c₁ c₃
  still : ∀ {c c' : Conn}, c'.status = c.status → c'.idleTimeout = c.idleTimeout →
    c'.frames = c.frames → c'.trace = c.trace → R c c'
  log : ∀ (c : Conn) {e : Event}, e.IsPlain c.idleTimeout → R c (c.log e)
  push : ∀ (c : Conn) {f : Frame}, f ≠ .handleCloseRest → R c (c.push f)
  pop : ∀ {c : Conn} {f : Frame} {fs : List Frame}, c.frames = f :: fs → R c { c with frames := fs }
  setStatus : ∀ (c : Conn) {s : ConnStatus}, c.status.Moves s → R c (c.setStatus s)
  closing : ∀ {c : Conn}, c.status = .disconnected → R c (c.push .handleCloseRest)
  close : ∀ {c : Conn} {fs : List Frame}, c.frames = .handleCloseRest :: fs →
    R c ({ c with frames := fs }.log .close)

namespace Stepwise

variable {R : Conn → Conn → Prop} (h : Stepwise R)
include h

theorem refl (c : Conn) : R c c := h.still rfl rfl rfl rfl

theorem post {c c₁ : Conn} {x : Except Fault Conn} (hx : Post (fun _ => True) (R c₁) x)
    (hc : R c c₁) : Post (fun _ => True) (R c) x :=
  hx.mono (fun _ _ => trivial) fun _ hc' => h.trans hc hc'

theorem invoke (c : Conn) (isSet : Bool) {e : Event} (he : e.IsPlain c.idleTimeout) :
    R c (c.invoke isSet e) := by
  unfold Conn.invoke
  split
  · exact h.trans (h.log c he) (h.push _ (by simp))
  · exact h.refl c

theorem startWriting (c : Conn) : R c c.startWriting := by
  obtain ⟨ch, heq⟩ := c.startWriting_eq
  rw [heq]
  exact h.still rfl rfl rfl rfl

theorem logs {c c' : Conn} {evs : List Event} (hs : c'.status = c.status)
    (hi : c'.idleTimeout = c.idleTimeout) (hf : c'.frames = c.frames)
    (ht : c'.trace = c.trace ++ evs) (hevs : ∀ e ∈ evs, e.IsPlain c.idleTimeout) : R c c' := by
  induction evs generalizing c with
  | nil => exact h.still hs hi hf (by rw [ht, List.append_nil])
  | cons e evs ih =>
      refine h.trans (h.log c (hevs e List.mem_cons_self)) ?_
      refine ih hs hi hf ?_ fun e' he' => hevs e' (List.mem_cons_of_mem _ he')
      rw [ht, Conn.log, List.append_assoc]
      rfl

theorem extendLife (c : Conn) : R c c.extendLife := by
  obtain ⟨t, evs, heq, hevs⟩ := c.extendLife_eq
  rw [heq]
  refine h.logs rfl rfl rfl rfl fun e he => ?_
  rw [hevs e he]
  rfl

theorem writeInLoop (c : Conn) (buffer : List Byte) : R c (c.writeInLoop buffer).2 := by
  obtain ⟨env, -, ⟨n, total, -, heq⟩ | ⟨e, heq, -⟩⟩ := c.writeInLoop_cases buffer
  · rw [heq]
    exact h.logs rfl rfl rfl rfl (by simp [Event.IsPlain])
  · rw [heq]
    exact h.still rfl rfl rfl rfl

/-! ## Writing -/

theorem streamWrite (c : Conn) (filePtr : BufferNode)
    {loop : Conn → BufferNode → Except Fault (Conn × BufferNode)}
    (hloop : ∀ c node, Post (fun _ => True) (fun r => R c r.1) (loop c node)) :
    Post (fun _ => True) (fun r => R c r.1) (c.streamWrite filePtr loop) := by
  have hw := h.writeInLoop c c.fileBuffer
  unfold Conn.streamWrite
  cases hres : c.writeInLoop c.fileBuffer with
  | mk res c₁ =>
      rw [hres] at hw
      have hstaged : ∀ xs, R c { c₁ with fileBuffer := xs } := fun xs =>
        h.trans hw (h.still rfl rfl rfl rfl)
      cases res with
      | count n =>
          dsimp only
          split
          · exact h.trans (hstaged _) (h.startWriting _)
          · exact (hloop _ filePtr).mono (fun _ _ => trivial)
              fun r hr => h.trans (hstaged _) hr
      | failed e =>
          dsimp only
          split
          · exact hw
          · exact h.trans hw (h.startWriting _)

theorem fetch (c : Conn) (filePtr : BufferNode) : R c (c.fetch filePtr).1 := by
  unfold Conn.fetch
  split
  · exact h.still rfl rfl rfl rfl
  · exact h.still rfl rfl rfl rfl

theorem streamLoop (fuel : Nat) (c : Conn) (filePtr : BufferNode) :
    Post (fun _ => True) (fun r => R c r.1) (Conn.streamLoop fuel c filePtr) := by
  induction fuel generalizing c filePtr with
  | zero => trivial
  | succ fuel ih =>
      unfold Conn.streamLoop
      split
      · have hnext : R c (if c.fileBuffer = [] then c.fetch filePtr else (c, filePtr)).1 := by
          split
          · exact h.fetch c filePtr
          · exact h.refl c
        generalize (if c.fileBuffer = [] then c.fetch filePtr else (c, filePtr)) = next at hnext
        dsimp only
        split
        · exact h.trans hnext (h.startWriting _)
        · exact (h.streamWrite next.1 next.2 ih).mono (fun _ _ => trivial)
            fun r hr => h.trans hnext hr
      · exact h.startWriting c

theorem sendfile (c : Conn) (file : List Byte) (filePtr : BufferNode) :
    R c (c.sendfile file filePtr).2.1 := by
  obtain ⟨r, env, heq, -⟩ := c.nextIo_cases
  unfold Conn.sendfile
  rw [heq]
  cases r with
  | count n => exact h.logs rfl rfl rfl (by rfl) (by simp [Event.IsPlain])
  | failed e => exact h.still rfl rfl rfl rfl

theorem sendFileInLoop (c : Conn) (filePtr : BufferNode) :
    Post (fun _ => True) (fun r => R c r.1) (c.sendFileInLoop filePtr) := by
  unfold Conn.sendFileInLoop
  split
  · rename_i file _ _
    have hs := h.sendfile c file filePtr
    rcases hres : c.sendfile file filePtr with ⟨res, c₁, node⟩
    rw [hres] at hs
    cases res with
    | failed e =>
        dsimp only
        split
        · exact h.trans hs (h.still rfl rfl rfl rfl)
        · exact hs
    | count n =>
        dsimp only
        split
        · exact hs
        · exact h.trans hs (h.startWriting _)
  · exact h.streamLoop _ c filePtr
  · trivial

theorem sendFileFront (c : Conn) (filePtr : BufferNode) (rest : List BufferNode) :
    Post (fun _ => True) (R c) (c.sendFileFront filePtr rest) := by
  refine Post.bind (h.sendFileInLoop c filePtr) fun r hr => ?_
  exact h.trans hr (h.still rfl rfl rfl rfl)

theorem writeFront (c : Conn) (node : BufferNode) (rest : List BufferNode) :
    Post (fun _ => True) (R c) (c.writeFront node rest) := by
  unfold Conn.writeFront
  split
  · trivial
  · refine Post.bind (Post.true _) fun data _ => ?_
    have hw := h.writeInLoop c data
    rcases hres : c.writeInLoop data with ⟨res, c₁⟩
    rw [hres] at hw
    cases res with
    | count n => exact h.trans hw (h.still rfl rfl rfl rfl)
    | failed e => exact hw

theorem sendNext (c : Conn) : Post (fun _ => True) (R c) c.sendNext := by
  unfold Conn.sendNext
  split
  · trivial
  · split
    · exact h.sendFileFront c _ _
    · exact h.writeFront c _ _

theorem popFront (c : Conn) (rest : List BufferNode) :
    Post (fun _ => True) (R c) (c.popFront rest) := by
  unfold Conn.popFront
  dsimp only
  split
  · have hpop : R c { c with writeBufferList := rest, channel := c.channel.disableWriting } :=
      h.still rfl rfl rfl rfl
    have hpush := h.trans hpop (h.push _ (f := .handleWriteRest) (by simp))
    exact h.trans hpush (h.invoke _ _ (e := .writeComplete) trivial)
  · exact h.post (h.sendNext _) (h.still rfl rfl rfl rfl)

theorem handleWrite (c : Conn) : Post (fun _ => True) (R c) c.handleWrite := by
  have hx := h.extendLife c
  unfold Conn.handleWrite
  generalize c.extendLife = c₁ at hx
  dsimp only
  split
  · exact hx
  · split
    · trivial
    · split
      · split
        · exact h.post (h.popFront c₁ _) hx
        · exact h.post (h.sendFileFront c₁ _ _) hx
      · split
        · trivial
        · split
          · exact h.post (h.popFront c₁ _) hx
          · exact h.post (h.writeFront c₁ _ _) hx

theorem handleWriteRest (c : Conn) : R c c.handleWriteRest := by
  unfold Conn.handleWriteRest
  split
  · exact h.log c trivial
  · exact h.refl c

/-! ## Sending -/

theorem withMsgBack (c : Conn) : Post (fun _ => True) (R c) c.withMsgBack := by
  unfold Conn.withMsgBack
  split
  · exact Post.bind (Post.true _) fun b _ => h.still rfl rfl rfl rfl
  · exact h.refl c

theorem pushRest (c : Conn) (buffer : List Byte) :
    Post (fun _ => True) (R c) (c.pushRest buffer) := by
  unfold Conn.pushRest
  split
  · trivial
  · rename_i back _
    split
    · trivial
    · refine Post.bind (Post.true _) fun b' _ => ?_
      have hback : R c { c with
          writeBufferList := c.writeBufferList.dropLast ++ [{ back with msgBuffer := some b' }] } :=
        h.still rfl rfl rfl rfl
      have hwriting := h.trans hback (h.startWriting _)
      dsimp only
      split
      · exact h.trans hwriting (h.invoke _ _ (e := .highWaterMark _) trivial)
      · exact hwriting

theorem queueRest (c : Conn) (buffer : List Byte) (sendLen : Nat) :
    Post (fun _ => True) (R c) (c.queueRest buffer sendLen) := by
  unfold Conn.queueRest
  split
  · exact Post.bind (h.withMsgBack c) fun c₁ h₁ => h.post (h.pushRest c₁ _) h₁
  · exact h.refl c

theorem sendInLoop (c : Conn) (buffer : List Byte) :
    Post (fun _ => True) (R c) (c.sendInLoop buffer) := by
  unfold Conn.sendInLoop
  split
  · exact h.refl c
  · have hx : R c (c.log (.accept buffer)).extendLife :=
      h.trans (h.log c (e := .accept buffer) trivial) (h.extendLife _)
    generalize (c.log (.accept buffer)).extendLife = c₁ at hx
    have hdirect : R c₁ (if !c₁.channel.isWriting && c₁.writeBufferList.isEmpty then
        c₁.writeInLoop buffer else (.count 0, c₁)).2 := by
      split
      · exact h.writeInLoop c₁ buffer
      · exact h.refl c₁
    have hqueue : ∀ (c₂ : Conn) n, R c₁ c₂ →
        Post (fun _ => True) (R c) (c₂.queueRest buffer n) :=
      fun c₂ n h₂ => h.post (h.queueRest c₂ buffer n) (h.trans hx h₂)
    dsimp only
    rcases hres : (if !c₁.channel.isWriting && c₁.writeBufferList.isEmpty then
        c₁.writeInLoop buffer else (.count 0, c₁)) with ⟨res, c₂⟩
    rw [hres] at hdirect
    cases res with
    | failed e =>
        dsimp only
        split
        · exact h.trans hx hdirect
        · exact hqueue c₂ 0 hdirect
    | count n => exact hqueue c₂ n hdirect

theorem pushNode (c : Conn) (node : BufferNode) :
    Post (fun _ => True) (R c) (c.pushNode node) := by
  unfold Conn.pushNode
  dsimp only
  split
  · exact h.post (h.sendFileFront _ _ _) (h.still rfl rfl rfl rfl)
  · exact h.still rfl rfl rfl rfl

theorem sendFile (c : Conn) (file : Option (List Byte)) (offset length : Nat) :
    Post (fun _ => True) (R c) (c.sendFile file offset length) := by
  unfold Conn.sendFile
  split
  · exact h.refl c
  · unfold Conn.sendFileFd
    split
    · exact h.post (h.pushNode _ _) (h.log c trivial)
    · trivial

theorem sendStream (c : Conn) (callback : Option (List Chunk)) :
    Post (fun _ => True) (R c) (c.sendStream callback) :=
  h.post (h.pushNode _ _) (h.log c trivial)

/-! ## Reading and closing -/

theorem setDisconnected (c : Conn) :
    R c { c.setStatus .disconnected with channel := c.channel.disableAll } :=
  h.trans (h.setStatus c (.drop _)) (h.still rfl rfl rfl rfl)

theorem handleClose (c : Conn) : R c c.handleClose := by
  have hclosing := h.trans (h.setDisconnected c) (h.closing rfl)
  exact h.trans hclosing (h.invoke _ _ (e := .connection _) trivial)

theorem handleRead (c : Conn) : Post (fun _ => True) (R c) c.handleRead := by
  have hread : ∀ b, R c { c with readBuffer := b } := fun b => h.still rfl rfl rfl rfl
  unfold Conn.handleRead
  dsimp only
  split
  · trivial
  · rename_i data b _ _
    split
    · have hpush := h.trans (hread b) (h.push _ (f := .extendLife) (by simp))
      exact h.trans hpush (h.handleClose _)
    · have hx := h.trans (hread b) (h.extendLife _)
      generalize ({ c with readBuffer := b } : Conn).extendLife = c₁ at hx
      have hbytes : R c { c₁ with bytesReceived := addSz c₁.bytesReceived data.length } :=
        h.trans hx (h.still rfl rfl rfl rfl)
      exact h.trans hbytes (h.invoke _ _ (e := .message _) trivial)
  · split
    · exact hread _
    · exact hread _
    · exact hread _
    · exact h.trans (hread _) (h.handleClose _)

theorem connectEstablished (c : Conn) : Post (fun _ => True) (R c) c.connectEstablished := by
  unfold Conn.connectEstablished
  split
  · rename_i hst
    have hread : R c { c with channel := c.channel.enableReading } := h.still rfl rfl rfl rfl
    have hup := h.trans hread (h.setStatus _ (s := .connected) (by simp only [hst]; exact .establish))
    exact h.trans hup (h.invoke _ _ (e := .connection _) trivial)
  · trivial

theorem channelRemove (c : Conn) : Post (fun _ => True) (R c) c.channelRemove :=
  Post.bind (Post.true _) fun _ _ => h.still rfl rfl rfl rfl

theorem connectDestroyed (c : Conn) : Post (fun _ => True) (R c) c.connectDestroyed := by
  unfold Conn.connectDestroyed
  split
  · dsimp only
    split
    · have hpush := h.trans (h.setDisconnected c) (h.push _ (f := .channelRemove) (by simp))
      exact h.trans hpush (h.invoke _ _ (e := .connection _) trivial)
    · trivial
  · exact h.channelRemove c

theorem shutdown (c : Conn) : R c c.shutdown := by
  unfold Conn.shutdown
  split
  · rename_i hst
    have hset : R c (c.setStatus .disconnecting) := h.setStatus c (.leave (Or.inl hst))
    dsimp only
    split
    · exact h.trans hset (h.log _ trivial)
    · exact hset
  · exact h.refl c

theorem forceClose (c : Conn) : R c c.forceClose := by
  unfold Conn.forceClose
  split
  · rename_i hst
    exact h.trans (h.setStatus c (.leave hst)) (h.handleClose _)
  · exact h.refl c

/-! ## The machine -/

theorem call (c : Conn) (k : Call) : Post (fun _ => True) (R c) (c.call k) := by
  cases k with
  | send msg => exact h.sendInLoop c msg.bytes
  | sendFile file offset length => exact h.sendFile c file offset length
  | sendStream callback => exact h.sendStream c callback
  | shutdown => exact h.shutdown c
  | forceClose => exact h.forceClose c

theorem handle (c : Conn) (hd : Handler) : Post (fun _ => True) (R c) (c.handle hd) := by
  cases hd with
  | close => exact h.handleClose c
  | error => exact h.refl c
  | read => exact h.handleRead c
  | write => exact h.handleWrite c

theorem resume {c : Conn} {f : Frame} {fs : List Frame} (hf : c.frames = f :: fs) :
    Post (fun _ => True) (R c) (({ c with frames := fs } : Conn).resume f) := by
  have hpop := h.pop hf
  cases f with
  | callback => exact hpop
  | dispatch todo =>
      cases todo with
      | nil => exact hpop
      | cons hd todo =>
          exact h.post (h.handle _ hd) (h.trans hpop (h.push _ (f := .dispatch todo) (by simp)))
  | handleWriteRest => exact h.trans hpop (h.handleWriteRest _)
  | handleCloseRest =>
      simp only [Conn.resume, Conn.handleCloseRest, Conn.invoke]
      split
      · exact h.trans (h.close hf) (h.push _ (f := .callback) (by simp))
      · exact hpop
  | extendLife => exact h.trans hpop (h.extendLife _)
  | channelRemove => exact h.post (h.channelRemove _) hpop

theorem exec (c : Conn) (a : Act) : Post (fun _ => True) (R c) (c.exec a) := by
  cases a with
  | connectEstablished => exact h.connectEstablished c
  | event revents =>
      have hset : R c { c with channel := c.channel.setRevents revents } := h.still rfl rfl rfl rfl
      exact h.trans hset (h.push _ (f := .dispatch _) (by simp))
  | call k => exact h.call c k
  | resume =>
      simp only [Conn.exec]
      split
      · exact h.refl c
      · rename_i hf
        exact h.resume hf
  | connectDestroyed => exact h.connectDestroyed c

theorem step {c c' : Conn} {l : Label} (hs : ConnStep c l c') : R c c' := by
  have henv : R c { c with env := l.env } := h.still rfl rfl rfl rfl
  exact h.trans henv ((h.exec _ l.act).of_ok hs.2)

end Stepwise

end Netpoll
