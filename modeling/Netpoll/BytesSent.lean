import Netpoll.WriteQueue

/-!
# What `bytesSent()` counts

`m_bytesSent` is kept by `writeInLoop` alone. The messages and the chunks
of streams leave through it; the bytes of files leave through
`sendfile(2)`, which `sendFileInLoop` calls itself.

`Counts f c c'` accounts for what a function sends: all of it but `f`
bytes has been added to the counter. Over every step `f` is the count
that `sendfile` returns in it (`Conn.fileBytes`), which can be read off
the state and the answers of the kernel. So the counter is exact
throughout a run exactly when `sendfile` takes nothing, in all of it, and
the total stays below the range of `size_t`.
-/

namespace Netpoll

/-- What has been sent from `c` to `c'` has been counted, `f` bytes
excepted. -/
structure Counts (f : Nat) (c c' : Conn) : Prop where
  range : c.bytesSent < sizeMod → c'.bytesSent < sizeMod
  sum : ∃ k, c'.sent.length = c.sent.length + k + f ∧
    c'.bytesSent % sizeMod = (c.bytesSent + k) % sizeMod

namespace Counts

open Conn

variable {f : Nat} {c c₁ c₂ c₃ : Conn}

theorem refl (c : Conn) : Counts 0 c c := ⟨id, 0, rfl, rfl⟩

theorem same (h : Counts f c c₁) (hs : c₂.sent = c₁.sent) (hb : c₂.bytesSent = c₁.bytesSent) :
    Counts f c c₂ := by
  obtain ⟨hrange, hsum⟩ := h
  rw [← hs, ← hb] at hsum
  rw [← hb] at hrange
  exact ⟨hrange, hsum⟩

theorem of_eq (hs : c₂.sent = c₁.sent) (hb : c₂.bytesSent = c₁.bytesSent) : Counts 0 c₁ c₂ :=
  (refl c₁).same hs hb

theorem of_noOutput (h : NoOutput c₁ c₂) : Counts 0 c₁ c₂ := of_eq h.sent h.bytesSent

theorem trans {g : Nat} (h₁ : Counts f c₁ c₂) (h₂ : Counts g c₂ c₃) : Counts (f + g) c₁ c₃ := by
  obtain ⟨k₁, hs₁, hb₁⟩ := h₁.sum
  obtain ⟨k₂, hs₂, hb₂⟩ := h₂.sum
  refine ⟨fun h => h₂.range (h₁.range h), k₁ + k₂, by omega, ?_⟩
  rw [hb₂, Nat.add_mod, hb₁, ← Nat.add_mod, Nat.add_assoc]

theorem after (h₁ : Counts 0 c₁ c₂) (h₂ : Counts f c₂ c₃) : Counts f c₁ c₃ :=
  Nat.zero_add f ▸ h₁.trans h₂

theorem before (h₁ : Counts f c₁ c₂) (h₂ : Counts 0 c₂ c₃) : Counts f c₁ c₃ := h₁.trans h₂

theorem post {α : Type} {g : α → Conn} {x : Except Fault α} (h : Counts 0 c c₁)
    (hx : Post (fun _ => True) (fun r => Counts f c₁ (g r)) x) :
    Post (fun _ => True) (fun r => Counts f c (g r)) x :=
  hx.mono (fun _ _ => trivial) fun _ hr => h.after hr

theorem startWriting (h : Counts f c c₁) : Counts f c c₁.startWriting := by
  obtain ⟨ch, hch⟩ := c₁.startWriting_eq
  rw [hch]
  exact h.same rfl rfl

theorem invoke (h : Counts f c c₁) (isSet : Bool) {e : Event} (he : ∀ xs, e ≠ .sent xs) :
    Counts f c (c₁.invoke isSet e) :=
  h.before (of_noOutput (.invoke c₁ isSet he))

/-! ## Writing -/

theorem writeInLoop (c : Conn) (buffer : List Byte) : Counts 0 c (c.writeInLoop buffer).2 := by
  obtain ⟨r, env, hr, -, -⟩ := c.nextIo_cases
  unfold Conn.writeInLoop
  rw [hr]
  cases r with
  | failed e => exact of_eq rfl rfl
  | count n =>
      refine ⟨fun _ => Nat.mod_lt _ (Nat.two_pow_pos 64), min n buffer.length, ?_, ?_⟩
      · show (sentOf (c.trace ++ [.sent _])).length = _
        rw [sentOf_sent, List.length_append, List.length_take, Nat.min_assoc, Nat.min_self]
        rfl
      · exact Nat.mod_mod _ _

theorem streamWrite (c : Conn) (filePtr : BufferNode)
    {loop : Conn → BufferNode → Except Fault (Conn × BufferNode)}
    (hloop : ∀ c' filePtr', Post (fun _ => True) (fun r => Counts 0 c' r.1) (loop c' filePtr')) :
    Post (fun _ => True) (fun r => Counts 0 c r.1) (c.streamWrite filePtr loop) := by
  have hw := writeInLoop c c.fileBuffer
  unfold Conn.streamWrite
  split
  · rename_i n c₁ heq
    rw [heq] at hw
    split
    · have hpart : Counts 0 c { c₁ with fileBuffer := c₁.fileBuffer.drop n } := hw.same rfl rfl
      exact hpart.startWriting
    · have hall : Counts 0 c { c₁ with fileBuffer := [] } := hw.same rfl rfl
      exact hall.post (hloop _ _)
  · rename_i e c₁ heq
    rw [heq] at hw
    split
    · exact hw
    · exact hw.startWriting

theorem fetch (c : Conn) (filePtr : BufferNode) : Counts 0 c (c.fetch filePtr).1 := by
  unfold Conn.fetch
  split <;> exact of_eq rfl rfl

theorem streamLoop (fuel : Nat) (c : Conn) (filePtr : BufferNode) :
    Post (fun _ => True) (fun r => Counts 0 c r.1) (Conn.streamLoop fuel c filePtr) := by
  induction fuel generalizing c filePtr with
  | zero => trivial
  | succ fuel ih =>
      unfold Conn.streamLoop
      by_cases hgo : filePtr.fileBytesToSend > 0 ∨ c.fileBuffer ≠ []
      · rw [if_pos hgo]
        have hnext : Counts 0 c
            (if c.fileBuffer = [] then c.fetch filePtr else (c, filePtr)).1 := by
          split
          · exact fetch c filePtr
          · exact refl c
        generalize (if c.fileBuffer = [] then c.fetch filePtr else (c, filePtr)) = next at hnext
        simp only
        split
        · exact hnext.startWriting
        · exact hnext.post (streamWrite _ _ ih)
      · rw [if_neg hgo]
        exact (refl c).startWriting

end Counts

/-! ## Files -/

namespace Conn

/-- What `sendfile` takes of a node in this step, if it is called. -/
def fileTaken (c : Conn) (node : BufferNode) : Nat :=
  match node.streamCallback, node.sendFd, c.env.io with
  | none, some file, .count n :: _ =>
      (slice file node.offset (node.offset + min n node.fileBytesToSend)).length
  | _, _, _ => 0

theorem fileTaken_msg {node : BufferNode} (hf : node.isFile = false) (c : Conn) :
    c.fileTaken node = 0 := by
  have hfd : node.sendFd = none := by
    cases h : node.sendFd with
    | none => rfl
    | some file => simp [BufferNode.isFile, h] at hf
  unfold fileTaken
  split
  · rename_i hsome _
    rw [hfd] at hsome
    cases hsome
  · rfl

/-- What `sendfile` takes in a `handleWrite`: of the front node, or of the
one behind it if the front node is finished. -/
def writeTaken (c : Conn) : Nat :=
  if c.channel.isWriting then
    match c.writeBufferList with
    | [] => 0
    | node :: rest =>
        if node.finished then (rest.head?.map c.fileTaken).getD 0 else c.fileTaken node
  else 0

/-- The node of a `sendFile`. -/
def fileNode (file : List Byte) (offset length : Nat) : BufferNode :=
  { sendFd := some file, offset, fileBytesToSend := length, streamCallback := none,
    msgBuffer := none }

/-- The bytes that `sendfile` takes in a step: a `sendFile` calls it on an
empty list, and so does `handleWrite`. -/
def fileBytes (c : Conn) (l : Label) : Nat :=
  match l.act with
  | .call (.sendFile (some file) offset length) =>
      if c.writeBufferList = [] then
        { c with env := l.env }.fileTaken (fileNode file offset (fileLength file length))
      else 0
  | .resume =>
      match c.frames with
      | .dispatch (.write :: _) :: _ => { c with env := l.env }.writeTaken
      | _ => 0
  | _ => 0

end Conn

namespace Counts

open Conn

variable {f : Nat} {c c' : Conn} {node : BufferNode} {rest : List BufferNode}

theorem sendfile (c : Conn) {file : List Byte} (hs : node.streamCallback = none)
    (hf : node.sendFd = some file) : Counts (c.fileTaken node) c (c.sendfile file node).2.1 := by
  unfold Conn.fileTaken Conn.sendfile Conn.nextIo
  simp only [hs, hf]
  cases c.env.io with
  | nil => exact refl c
  | cons r rs =>
      cases r with
      | failed e => exact of_eq rfl rfl
      | count n =>
          refine ⟨id, 0, ?_, rfl⟩
          show (sentOf (c.trace ++ [.sent _])).length = _
          rw [sentOf_sent, List.length_append]
          rfl

theorem sendFileInLoop (c : Conn) (node : BufferNode) :
    Post (fun _ => True) (fun r => Counts (c.fileTaken node) c r.1) (c.sendFileInLoop node) := by
  unfold Conn.sendFileInLoop
  split
  · rename_i file hs hf
    have h := sendfile c hs hf
    split
    · rename_i e c₁ node₁ heq
      rw [heq] at h
      split
      · exact h.same rfl rfl
      · exact h
    · rename_i n c₁ node₁ heq
      rw [heq] at h
      split
      · exact h
      · exact h.startWriting
  · rename_i chunks hs
    have h0 : c.fileTaken node = 0 := by
      unfold Conn.fileTaken
      rw [hs]
    rw [h0]
    exact streamLoop _ c node
  · trivial

theorem sendFileFront (c : Conn) (node : BufferNode) (rest : List BufferNode) :
    Post (fun _ => True) (Counts (c.fileTaken node) c) (c.sendFileFront node rest) :=
  (sendFileInLoop c node).bind fun _ hr => hr.same rfl rfl

theorem writeFront (c : Conn) (node : BufferNode) (rest : List BufferNode) :
    Post (fun _ => True) (Counts 0 c) (c.writeFront node rest) := by
  unfold Conn.writeFront
  split
  · trivial
  · rename_i b hb
    refine Post.bind (Post.true _) fun data _ => ?_
    have h := writeInLoop c data
    split
    · rename_i n c₁ heq
      rw [heq] at h
      exact h.same rfl rfl
    · rename_i e c₁ heq
      rw [heq] at h
      exact h

theorem sendNext (hl : c.writeBufferList = node :: rest) :
    Post (fun _ => True) (Counts (c.fileTaken node) c) c.sendNext := by
  unfold Conn.sendNext
  simp only [hl]
  by_cases hf : node.isFile = true
  · rw [if_pos hf]
    exact sendFileFront c node rest
  · rw [if_neg hf, fileTaken_msg (by simpa using hf)]
    exact writeFront c node rest

theorem popFront (c : Conn) (rest : List BufferNode) :
    Post (fun _ => True) (Counts ((rest.head?.map c.fileTaken).getD 0) c) (c.popFront rest) := by
  unfold Conn.popFront
  cases rest with
  | nil =>
      have hdone : Counts 0 c ({ c with
          writeBufferList := [], channel := c.channel.disableWriting }.push .handleWriteRest) :=
        of_eq rfl rfl
      exact hdone.invoke _ nofun
  | cons next rest =>
      have hpop : Counts 0 c { c with writeBufferList := next :: rest } := of_eq rfl rfl
      simp only [reduceCtorEq, if_false]
      exact hpop.post (sendNext rfl)

theorem handleWrite (c : Conn) :
    Post (fun _ => True) (Counts c.writeTaken c) c.handleWrite := by
  obtain ⟨t, evs, heq, -⟩ := c.extendLife_eq
  have htaken : c.extendLife.writeTaken = c.writeTaken := by
    rw [heq]
    rfl
  rw [← htaken]
  refine post (of_noOutput (.extendLife c)) ?_
  rw [handleWrite_eq]
  generalize c.extendLife = c
  unfold writeTaken
  cases hw : c.channel.isWriting with
  | false => exact refl c
  | true =>
      simp only [Bool.not_true, Bool.false_eq_true, if_false, if_true]
      cases hl : c.writeBufferList with
      | nil => trivial
      | cons node rest =>
          simp only
          by_cases hdone : node.finished = true
          · rw [if_pos hdone, if_pos hdone]
            exact popFront c rest
          · rw [if_neg hdone, if_neg hdone]
            exact sendNext hl

/-! ## Sending -/

theorem pushRest (c : Conn) (buffer : List Byte) :
    Post (fun _ => True) (Counts 0 c) (c.pushRest buffer) := by
  unfold Conn.pushRest
  split
  · trivial
  · split
    · trivial
    · refine Post.bind (Post.true _) fun b _ => ?_
      have hst : ∀ list, Counts 0 c ({ c with writeBufferList := list }.startWriting) :=
        fun list => startWriting (of_eq rfl rfl)
      simp only
      split
      · exact (hst _).invoke _ nofun
      · exact hst _

theorem queueRest (c : Conn) (buffer : List Byte) (sendLen : Nat) :
    Post (fun _ => True) (Counts 0 c) (c.queueRest buffer sendLen) := by
  have hback : Post (fun _ => True) (Counts 0 c) c.withMsgBack := by
    unfold Conn.withMsgBack
    split
    · exact Post.bind (Post.true _) fun b _ => of_eq rfl rfl
    · exact refl c
  unfold Conn.queueRest
  split
  · exact hback.bind fun c₁ h => post h (pushRest c₁ _)
  · exact refl c

theorem sendInLoop (c : Conn) (buffer : List Byte) :
    Post (fun _ => True) (Counts 0 c) (c.sendInLoop buffer) := by
  unfold Conn.sendInLoop
  split
  · exact refl c
  · have hlog : Counts 0 c (c.log (.accept buffer)).extendLife :=
      (of_noOutput (.log c (e := .accept buffer) nofun)).before (of_noOutput (.extendLife _))
    refine post hlog ?_
    generalize (c.log (.accept buffer)).extendLife = c
    have hdirect : Counts 0 c (if !c.channel.isWriting && c.writeBufferList.isEmpty then
        c.writeInLoop buffer else (.count 0, c)).2 := by
      split
      · exact writeInLoop c buffer
      · exact refl c
    simp only
    split
    · rename_i e c₁ heq
      rw [heq] at hdirect
      split
      · exact hdirect
      · exact hdirect.post (queueRest _ _ _)
    · rename_i n c₁ heq
      rw [heq] at hdirect
      exact hdirect.post (queueRest _ _ _)

theorem pushNode (c : Conn) (node : BufferNode) :
    Post (fun _ => True) (Counts (if c.writeBufferList = [] then c.fileTaken node else 0) c)
      (c.pushNode node) := by
  by_cases hl : c.writeBufferList = []
  · have hpush : Counts 0 c { c with writeBufferList := [node] } := of_eq rfl rfl
    rw [if_pos hl, pushNode_nil hl]
    exact hpush.post (sendFileFront _ node [])
  · rw [if_neg hl, pushNode_of_ne_nil hl]
    exact of_eq rfl rfl

theorem fileBytes_of_not {l : Label} (hn : ¬ c.RunsOutput l.act) : c.fileBytes l = 0 := by
  unfold Conn.fileBytes
  split
  · rename_i hl
    rw [hl] at hn
    exact absurd trivial hn
  · rename_i hl
    rw [hl] at hn
    split
    · rename_i tl fs hf
      exact absurd ⟨tl, fs, hf⟩ hn
    · rfl
  · rfl

theorem step {l : Label} (hs : ConnStep c l c') : Counts (c.fileBytes l) c c' := by
  have henv : Counts 0 c { c with env := l.env } := of_eq rfl rfl
  cases hs.output with
  | none hn ho =>
      rw [fileBytes_of_not hn]
      exact of_noOutput ho
  | send msg hl hex =>
      simp only [fileBytes, hl]
      exact (henv.post (sendInLoop _ msg.bytes)).of_ok hex
  | sendFile file offset length hl hex =>
      simp only [fileBytes, hl]
      unfold Conn.sendFileFd at hex
      split at hex
      · have hlog : Counts 0 c ({ c with env := l.env }.log
            (.accept (slice file offset (offset + fileLength file length)))) :=
          henv.before (of_noOutput (.log _ nofun))
        exact (hlog.post (pushNode _ _)).of_ok hex
      · cases hex
  | sendStream callback hl hex =>
      simp only [fileBytes, hl]
      have hlog : Counts 0 c ({ c with env := l.env }.log
          (.accept (streamPayload (callback.getD [])))) :=
        henv.before (of_noOutput (.log _ nofun))
      have h := (hlog.post (pushNode _ _)).of_ok hex
      -- a stream is no file
      have h0 : ∀ c₁ : Conn, c₁.fileTaken ⟨none, 0, 1, callback, none⟩ = 0 := by
        intro c₁
        cases callback <;> rfl
      rwa [h0, ite_self] at h
  | handleWrite tl fs hl hf hex =>
      simp only [fileBytes, hl, hf]
      have hpush : Counts 0 c ({ c with env := l.env, frames := fs }.push (.dispatch tl)) :=
        of_eq rfl rfl
      exact (hpush.post (handleWrite _)).of_ok hex

theorem exact_iff (h : Counts f c c') (hc : c.bytesSent = c.sent.length)
    (hfit : c.bytesSent < sizeMod) :
    c'.bytesSent = c'.sent.length ↔ f = 0 ∧ c'.sent.length < sizeMod := by
  obtain ⟨k, hs, hb⟩ := h.sum
  rw [Nat.mod_eq_of_lt (h.range hfit)] at hb
  constructor
  · intro heq
    have hle : c'.bytesSent ≤ c.bytesSent + k := by
      rw [hb]
      exact Nat.mod_le _ _
    exact ⟨by omega, heq ▸ h.range hfit⟩
  · rintro ⟨rfl, hlt⟩
    rw [hb, Nat.mod_eq_of_lt (by omega)]
    omega

end Counts

/-! ## Runs -/

/-- `bytesSent()` is the number of bytes that the kernel has accepted. -/
def Conn.BytesSentExact (c : Conn) : Prop := c.bytesSent = c.sent.length

instance (c : Conn) : Decidable c.BytesSentExact := by
  unfold Conn.BytesSentExact; infer_instance

/-- `sendfile` takes nothing, and the total fits a `size_t`. -/
def CountsAll (c : Conn) (l : Label) : Prop :=
  c.fileBytes l = 0 ∧ ∀ c', ConnStep c l c' → c'.sent.length < sizeMod

theorem connStep_det {c c₁ c₂ : Conn} {l : Label} (h₁ : ConnStep c l c₁) (h₂ : ConnStep c l c₂) :
    c₁ = c₂ :=
  Except.ok.inj (h₁.2.symm.trans h₂.2)

/-- In every run of a connection, with any answers of the kernel,
`bytesSent()` is exact in every state exactly when no step's `sendfile`
takes any bytes and the total stays within `size_t`. -/
theorem bytesSent_exact_iff (rb : MessageBuffer) (cbs : Callbacks) (env : Env) (ls : List Label) :
    Throughout ConnStep Conn.BytesSentExact (Conn.new rb cbs env) ls ↔
      EveryStep ConnStep CountsAll (Conn.new rb cbs env) ls := by
  have h0 : (Conn.new rb cbs env).BytesSentExact ∧ (Conn.new rb cbs env).bytesSent < sizeMod :=
    ⟨rfl, Nat.two_pow_pos 64⟩
  refine throughout_iff_everyStep (I := fun c : Conn => c.BytesSentExact ∧ c.bytesSent < sizeMod)
    h0 ?_ (fun c h => h.1) ?_
  · intro c l c' ⟨hc, hlt⟩ ⟨hz, hall⟩ hs
    have h := Counts.step hs
    exact ⟨(h.exact_iff hc hlt).mpr ⟨hz, hall c' hs⟩, h.range hlt⟩
  · intro c l c' ⟨hc, hlt⟩ hg hs hc'
    obtain ⟨hz, hlt'⟩ := ((Counts.step hs).exact_iff hc hlt).mp hc'
    refine hg ⟨hz, fun c₁ hs₁ => ?_⟩
    rw [connStep_det hs₁ hs]
    exact hlt'

/-- A file of three bytes that the kernel takes at once. -/
theorem bytesSent_misses_file :
    ¬ Throughout ConnStep Conn.BytesSentExact (Conn.new .blank plainCallbacks (answering []))
      [⟨.connectEstablished, answering []⟩,
        ⟨.call (.sendFile (some [1, 2, 3]) 0 0), answering [.count 3]⟩] := by
  intro h
  have hcounts := h _ _ (List.prefix_refl _)
    (.cons ⟨rfl, rfl⟩ (.cons ⟨Or.inl rfl, rfl⟩ (.nil _)))
  exact absurd hcounts (by decide)

end Netpoll
