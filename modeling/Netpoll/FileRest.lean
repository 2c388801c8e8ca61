import Netpoll.Portable
import Netpoll.WriteQueue

/-!
# `sendFile` with length 0

Length 0 is the default of `sendFile`, and its header does not say what it
stands for. What can be sent is the file from the offset to its end. The
code takes the size of the whole file as the length, whatever the offset.

A connected connection sends messages, streams and files, the files
inside their range or with length 0 from an offset before their end. What
the rest of a file is for is `Conn.Drains`: if the loop goes on, and the
socket takes at least one byte often enough, every node is finished and
popped and everything accepted is at the socket. That holds in every state
exactly when length 0 is only used with offset 0, and every file that is
started on an empty list has its first `sendfile` answered by a positive
count. Otherwise a node asks for bytes past the end of its file
(`BufferNode.Overlong`) and blocks the list for good, or nobody waits for
the socket.
-/

namespace Netpoll

open Conn

/-! ## The loop goes on -/

/-- The kernel's first answer is a positive count. -/
def Env.takes (env : Env) : Bool :=
  match env.io with
  | .count (_ + 1) :: _ => true
  | _ => false

theorem Env.takes_iff {env : Env} : env.takes = true ↔ ∃ m rs, env.io = .count (m + 1) :: rs := by
  unfold Env.takes
  split
  · rename_i m rs h
    exact iff_of_true rfl ⟨m, rs, h⟩
  · rename_i h
    exact iff_of_false Bool.false_ne_true fun ⟨m, rs, heq⟩ => h m rs heq

/-- No answer is a fatal error. -/
def Env.NonFatal (env : Env) : Prop := ∀ e, .failed e ∈ env.io → e = .wouldBlock

namespace Conn

/-- What is left to do is done, and then the socket is writable again. -/
def turn (c : Conn) (env : Env) : Except Fault Conn :=
  if c.frames = [] then { c with env := env }.handleWrite else { c with env := env }.exec .resume

/-- The loop goes on without further calls. -/
def drive (c : Conn) (envs : List Env) : Except Fault Conn := envs.foldlM turn c

/-- With enough positive answers, in any pattern with others, every node is
popped and every accepted byte is sent. -/
def Drains (c : Conn) : Prop :=
  ∃ k, ∀ envs : List Env, (∀ env ∈ envs, env.NonFatal) → k ≤ envs.countP Env.takes →
    ∃ t, c.drive envs = .ok t ∧ t.writeBufferList = [] ∧ t.sent = c.accepted

/-- No node asks for bytes past the end of its file. -/
def WithinFiles (c : Conn) : Prop :=
  ∀ node ∈ c.writeBufferList, ∀ file, node.streamCallback = none → node.sendFd = some file →
    node.offset + node.fileBytesToSend ≤ file.length

end Conn

/-- Calls that send; a length of 0 may come with any offset before the end
of the file. -/
def Call.SendsRest : Call → Prop
  | .sendFile (some file) offset length =>
      length = 0 ∧ offset < file.length ∨ 0 < length ∧ offset + length ≤ file.length
  | k => k.Sends

def Act.SendsRest : Act → Prop
  | .call k => k.SendsRest
  | a => a.Sends

def RestStep : Conn → Label → Conn → Prop :=
  Guarded ConnStep fun _ l => l.act.SendsRest ∧ l.env.NonFatal

/-- Length 0 comes with offset 0, and a file that is started on an empty
list is answered by a positive count. -/
def RestGuard (c : Conn) (l : Label) : Prop :=
  ∀ file offset length, l.act = .call (.sendFile (some file) offset length) →
    (length = 0 → offset = 0) ∧ (c.writeBufferList = [] → ∃ m rs, l.env.io = .count (m + 1) :: rs)

/-! ## Work left -/

/-- The handlers that a frame will still call. -/
def Frame.todo : Frame → Nat
  | .dispatch hs => hs.length
  | _ => 0

/-- What is left to do, with the handlers that wait in frames. -/
def restLeft (P : List Byte) (c : Conn) : Nat := workLeft P c + (c.frames.map Frame.todo).sum

variable {c c' : Conn} {P : List Byte} {node : BufferNode} {rest : List BufferNode}

theorem Flow.sent_le (h : Flow True c P) : c.sent.length ≤ P.length := by
  rw [← h.conserved, List.length_append]
  exact Nat.le_add_right _ _

theorem restLeft_congr (hl : c'.writeBufferList = c.writeBufferList) (hf : c'.frames = c.frames)
    (hs : c'.sent = c.sent) : restLeft P c' = restLeft P c := by
  simp only [restLeft, workLeft, hl, hf, hs]

theorem restLeft_frames {fs fs' : List Frame} (hf : c.frames = fs)
    (hlt : fs'.length + (fs'.map Frame.todo).sum < fs.length + (fs.map Frame.todo).sum) :
    restLeft P { c with frames := fs' } < restLeft P c := by
  have hsent : ({ c with frames := fs' } : Conn).sent = c.sent := rfl
  simp only [restLeft, workLeft, hf, hsent]
  omega

/-- A node has been sent from; with a positive answer the work gets less,
unless the node was finished. -/
structure SentFrom (c : Conn) (node : BufferNode) (rest : List BufferNode) (c' : Conn) : Prop where
  frames : c'.frames = c.frames
  sent : c.sent.length ≤ c'.sent.length
  list : ∃ node', c'.writeBufferList = node' :: rest ∧
    node'.fileBytesToSend ≤ node.fileBytesToSend ∧
    (c.TakesSome → node.finished = false →
      c.sent.length < c'.sent.length ∨ 0 < node.fileBytesToSend ∧ node'.fileBytesToSend = 0)

namespace SentFrom

theorem restLeft_le (h : SentFrom c node rest c') (hl : c.writeBufferList = node :: rest) :
    restLeft P c' ≤ restLeft P c := by
  obtain ⟨node', hl', hle, -⟩ := h.list
  unfold restLeft
  rw [h.frames]
  exact Nat.add_le_add_right (workLeft_front hl hl' h.frames h.sent hle) _

theorem restLeft_lt (h : SentFrom c node rest c') (hl : c.writeBufferList = node :: rest)
    (hP : c'.sent.length ≤ P.length) (ht : c.TakesSome) (hf : node.finished = false) :
    restLeft P c' < restLeft P c := by
  obtain ⟨node', hl', hle, hmoves⟩ := h.list
  unfold restLeft
  rw [h.frames]
  exact Nat.add_lt_add_right
    (workLeft_front_lt hl hl' h.frames h.sent hle hP (hmoves ht hf)) _

end SentFrom

namespace Conn

theorem sendFileInLoop_counts {file : List Byte} (hs : node.streamCallback = none)
    (hf : node.sendFd = some file) :
    Post (fun _ => False) (fun r => r.2.streamCallback = none ∧ r.2.sendFd = some file ∧
        ∃ n, r.2.offset = node.offset + n ∧ n ≤ node.fileBytesToSend ∧
          n ≤ file.length - node.offset ∧ r.2.fileBytesToSend = node.fileBytesToSend - n ∧
          r.1.sent = c.sent ++ slice file node.offset (node.offset + n) ∧
          (c.TakesSome → 0 < node.fileBytesToSend → node.offset < file.length → 0 < n))
      (c.sendFileInLoop node) := by
  unfold sendFileInLoop
  simp only [hs, hf]
  obtain ⟨env, hnf, ⟨n, hn, hend, hn0, heq⟩ | ⟨e, heq, -, hno⟩⟩ := sendfile_cases c node file
  · have hsent : sentOf (c.trace ++ [.sent (slice file node.offset (node.offset + n))]) =
        c.sent ++ slice file node.offset (node.offset + n) := sentOf_sent _ _
    have hmoves : c.TakesSome → 0 < node.fileBytesToSend → node.offset < file.length → 0 < n :=
      fun ht hpos hend => hn0.mpr ⟨hpos, hend, ht⟩
    rw [heq]
    simp only
    by_cases h0 : n < node.fileBytesToSend ∧ n = 0
    · rw [if_pos h0]
      exact ⟨hs, hf, n, rfl, hn, hend, by simp only; omega, hsent, hmoves⟩
    · rw [if_neg h0]
      exact ⟨hs, hf, n, rfl, hn, hend, rfl, (sent_startWriting _).trans hsent, hmoves⟩
  · have hidle : ∀ c₁ : Conn, c₁.sent = c.sent → node.streamCallback = none ∧
        node.sendFd = some file ∧ ∃ n, node.offset = node.offset + n ∧ n ≤ node.fileBytesToSend ∧
          n ≤ file.length - node.offset ∧ node.fileBytesToSend = node.fileBytesToSend - n ∧
          c₁.sent = c.sent ++ slice file node.offset (node.offset + n) ∧
          (c.TakesSome → 0 < node.fileBytesToSend → node.offset < file.length → 0 < n) :=
      fun c₁ hc₁ => ⟨hs, hf, 0, rfl, Nat.zero_le _, Nat.zero_le _, rfl, by rw [hc₁]; simp,
        fun ht => absurd ht hno⟩
    rw [heq]
    simp only
    split
    · exact hidle _ rfl
    · exact hidle _ rfl

theorem sendFileFront_from (h : Flow True c P) (hl : c.writeBufferList = node :: rest)
    (hf : node.isFile = true) :
    Post (fun _ => False) (SentFrom c node rest) (c.sendFileFront node rest) := by
  have hok : node.Ok True := h.nodes node (by rw [hl]; exact List.mem_cons_self)
  have hframes : Post (fun _ => False) (fun r => Emits c r.1) (c.sendFileInLoop node) :=
    (sendFileInLoop_spec hok hf (h.staged_front hl)).mono (fun _ h => h) fun r hr => hr.emits
  have hpos : node.finished = false → 0 < node.fileBytesToSend := by
    rw [BufferNode.finished, if_pos hf]
    simp [Nat.pos_iff_ne_zero]
  have hmoves : Post (fun _ => False) (fun r => r.2.fileBytesToSend ≤ node.fileBytesToSend ∧
      (c.TakesSome → node.finished = false → c.sent.length < r.1.sent.length ∨
        0 < node.fileBytesToSend ∧ r.2.fileBytesToSend = 0)) (c.sendFileInLoop node) := by
    rcases hok.cases with ⟨chunks, hs⟩ | ⟨file, hs, hfd, hr⟩ | ⟨b, hs, hfd, -, -⟩
    · unfold sendFileInLoop
      simp only [hs]
      refine (ran_stream hs fun hne => (h.staged_front hl hne).2).mono (fun _ h => h) ?_
      exact fun r hr => ⟨hr.left, fun ht hu =>
        (hr.moves ht (hpos hu)).imp_right fun h0 => ⟨hpos hu, h0⟩⟩
    · refine (sendFileInLoop_counts hs hfd).mono (fun _ h => h) ?_
      rintro r ⟨-, -, n, -, hn, -, htosend, hsent, hgrows⟩
      have hr := hr trivial
      refine ⟨by omega, fun ht hu => Or.inl ?_⟩
      have hpos := hpos hu
      have hn0 := hgrows ht hpos (by omega)
      rw [hsent, List.length_append, length_slice]
      omega
    · simp [BufferNode.isFile, hs, hfd] at hf
  refine (hframes.and hmoves).bind fun r hr => ?_
  obtain ⟨hem, hle, hgets⟩ := hr
  have hsent := Emits.sent_le hem
  obtain ⟨ch, fb, t, env, evs, heq, -, -⟩ := hem
  refine ⟨by rw [heq], hsent, r.2, rfl, hle, hgets⟩

theorem writeFront_from (h : Flow True c P) (hl : c.writeBufferList = node :: rest)
    (hf : node.isFile = false) :
    Post (fun _ => False) (SentFrom c node rest) (c.writeFront node rest) := by
  have hok : node.Ok True := h.nodes node (by rw [hl]; exact List.mem_cons_self)
  obtain ⟨b, hs, hfd, hb, hsz⟩ := hok.msg hf
  have hlen : node.finished = false → 0 < b.bytes.length := by
    rw [BufferNode.finished, if_neg (by simp [hf]), hb, hsz.bytes_length]
    simp [Nat.pos_iff_ne_zero]
  unfold Conn.writeFront
  simp only [hb]
  rw [hsz.load_all, ok_bind]
  obtain ⟨env, hnf, ⟨n, total, hn, heq⟩ | ⟨e, heq, -⟩⟩ := c.writeInLoop_cases b.bytes
  · have hsent : (sentOf (c.trace ++ [.sent (b.bytes.take n)])).length = c.sent.length + n := by
      rw [sentOf_sent, List.length_append, List.length_take, Nat.min_eq_left hn]
      rfl
    rw [heq]
    refine ⟨rfl, hsent ▸ Nat.le_add_right _ _, _, rfl, Nat.le_refl _, fun ht hu => Or.inl ?_⟩
    obtain ⟨m, hm⟩ := ht.write b.bytes
    rw [heq] at hm
    cases hm
    have := hlen hu
    exact hsent ▸ (by omega)
  · rw [heq]
    refine ⟨rfl, Nat.le_refl _, node, hl, Nat.le_refl _, fun ht => ?_⟩
    obtain ⟨m, hm⟩ := ht.write b.bytes
    rw [heq] at hm
    cases hm

theorem sendNext_from (h : Flow True c P) (hl : c.writeBufferList = node :: rest) :
    Post (fun _ => False) (SentFrom c node rest) c.sendNext := by
  unfold Conn.sendNext
  simp only [hl]
  by_cases hf : node.isFile = true
  · rw [if_pos hf]
    exact sendFileFront_from h hl hf
  · rw [if_neg hf]
    exact writeFront_from h hl (by simpa using hf)

theorem todo_invoke (c : Conn) (f : Frame) (isSet : Bool) (e : Event) :
    (((c.push f).invoke isSet e).frames.map Frame.todo).sum =
      f.todo + (c.frames.map Frame.todo).sum := by
  unfold invoke
  split
  · simp [push, Conn.log, Frame.todo]
  · simp [push]

theorem popFront_left (h : Flow True c P) (hl : c.writeBufferList = node :: rest)
    (hp : node.pending = []) (hfb : c.fileBuffer = []) :
    Post (fun _ => False) (fun c' => restLeft P c' < restLeft P c) (c.popFront rest) := by
  have hpopped := workLeft_pop hl P
  unfold Conn.popFront
  cases rest with
  | nil =>
      simp only [if_true, post_ok]
      have hwork := workLeft_invoke P { c with
        writeBufferList := [], channel := c.channel.disableWriting } .handleWriteRest
          c.callbacks.writeComplete
      have hsame : workLeft P { c with
          writeBufferList := [], channel := c.channel.disableWriting } =
          workLeft P { c with writeBufferList := [] } := rfl
      unfold restLeft
      rw [todo_invoke]
      simp only [Frame.todo]
      omega
  | cons next rest =>
      simp only [reduceCtorEq, if_false]
      have hpop : Flow True { c with writeBufferList := next :: rest } P :=
        h.pop hl hp hfb fun _ => List.cons_ne_nil _ _
      refine (sendNext_from hpop rfl).mono (fun _ h => h) fun c' hc => ?_
      refine (hc.restLeft_le rfl).trans_lt ?_
      unfold restLeft
      simp only
      omega

theorem handleWrite_left (h : Flow True c P) :
    Post (fun _ => False) (fun c' => restLeft P c' ≤ restLeft P c ∧
      (c.channel.isWriting = true → c.TakesSome → restLeft P c' < restLeft P c)) c.handleWrite := by
  obtain ⟨t, evs, heq, -⟩ := c.extendLife_eq
  have hx := h.extendLife
  have hleft : restLeft P c.extendLife = restLeft P c := by
    have hsent : c.extendLife.sent = c.sent := (NoOutput.extendLife c).sent
    exact restLeft_congr (by rw [heq]) (by rw [heq]) hsent
  have hch : c.extendLife.channel = c.channel := by rw [heq]
  have hio : c.extendLife.TakesSome ↔ c.TakesSome := by
    unfold TakesSome
    rw [heq]
  rw [handleWrite_eq, ← hleft, ← hch, ← hio]
  generalize c.extendLife = c at hx
  by_cases hw : c.channel.isWriting = true
  · rw [if_neg (by simp [hw])]
    cases hl : c.writeBufferList with
    | nil => exact absurd hl (hx.writing hw)
    | cons node rest =>
        have hok := hx.nodes node (by rw [hl]; exact List.mem_cons_self)
        simp only
        by_cases hdone : node.finished = true
        · rw [if_pos hdone]
          have hfb := hx.fileBuffer_nil_of_front hl (BufferNode.not_streaming_of_finished hdone)
          have hp := hok.pending_finished hdone
          exact (popFront_left hx hl hp hfb).mono (fun _ h => h) fun _ hlt =>
            ⟨hlt.le, fun _ _ => hlt⟩
        · rw [if_neg hdone]
          have hne : c.writeBufferList ≠ [] := by simp [hl]
          refine ((sendNext_from hx hl).and (hx.sendNext hne)).mono (fun _ h => h) ?_
          rintro c' ⟨hfrom, hfl, -⟩
          refine ⟨hfrom.restLeft_le hl, fun _ ht => ?_⟩
          exact hfrom.restLeft_lt hl hfl.sent_le ht (by simpa using hdone)
  · rw [if_pos (by simpa using hw)]
    exact ⟨Nat.le_refl _, fun h => absurd h hw⟩

end Conn

/-! ## Everything is sent -/

namespace Sending

theorem handleWrite_turn (h : Sending c P)
    (hn : c.writeBufferList ≠ [] → c.channel.isWriting = true) (hnf : c.NonFatal) :
    Post (fun _ => False) (fun c' => Sending c' P ∧
        (c'.writeBufferList ≠ [] → c'.channel.isWriting = true) ∧ restLeft P c' ≤ restLeft P c ∧
        (c.writeBufferList ≠ [] → c.TakesSome → restLeft P c' < restLeft P c))
      c.handleWrite := by
  obtain ⟨c', hx, -, hhw⟩ := h.flow.handleWrite.exists_ok
  obtain ⟨hle, hlt⟩ := (handleWrite_left h.flow).of_ok hx
  have hn' : c'.writeBufferList ≠ [] → c'.channel.isWriting = true := by
    obtain ⟨t, evs, heq, -⟩ := c.extendLife_eq
    rw [heq] at hhw
    refine notStalled_handleWrites ?_ ?_ hhw
    · exact hnf
    · exact hn
  rw [hx]
  exact ⟨h.handleWrite.of_ok hx, hn', hle, fun hne ht => hlt (hn hne) ht⟩

theorem resume_turn (h : Sending c P)
    (hn : c.writeBufferList ≠ [] → c.channel.isWriting = true) (hnf : c.NonFatal) {f : Frame}
    {fs : List Frame} (hf : c.frames = f :: fs) :
    Post (fun _ => False) (fun c' => Sending c' P ∧
        (c'.writeBufferList ≠ [] → c'.channel.isWriting = true) ∧ restLeft P c' < restLeft P c)
      ({ c with frames := fs }.resume f) := by
  have hpop := h.pop hf
  have hfs : f.Sends := h.frames f (by rw [hf]; exact List.mem_cons_self)
  have hless : restLeft P { c with frames := fs } < restLeft P c := by
    refine restLeft_frames hf ?_
    simp only [List.length_cons, List.map_cons, List.sum_cons]
    omega
  cases f with
  | callback => exact ⟨hpop, hn, hless⟩
  | handleWriteRest =>
      have hrest : ({ c with frames := fs } : Conn).handleWriteRest = { c with frames := fs } := by
        simp [Conn.handleWriteRest, h.status]
      simp only [Conn.resume, hrest]
      exact ⟨hpop, hn, hless⟩
  | dispatch todo =>
      cases todo with
      | nil => exact ⟨hpop, hn, hless⟩
      | cons hd tl =>
          obtain rfl : hd = .write := hfs hd List.mem_cons_self
          have htl : (Frame.dispatch tl).Sends := fun hd hmem =>
            hfs hd (List.mem_cons_of_mem _ hmem)
          have hone : restLeft P { c with frames := .dispatch tl :: fs } < restLeft P c := by
            refine restLeft_frames hf ?_
            simp only [List.length_cons, List.map_cons, List.sum_cons, Frame.todo]
            omega
          refine ((hpop.push htl).handleWrite_turn hn hnf).mono (fun _ h => h) ?_
          rintro c' ⟨hs', hn', hle, -⟩
          exact ⟨hs', hn', hle.trans_lt hone⟩
  | handleCloseRest => exact hfs.elim
  | extendLife => exact hfs.elim
  | channelRemove => exact hfs.elim

theorem restLeft_zero (h : Sending c P) (hl : c.writeBufferList = []) (hf : c.frames = []) :
    restLeft P c = 0 := by
  have hsent : c.sent = P := (h.flow.pending_nil hl).2
  simp [restLeft, workLeft, hl, hf, hsent]

theorem turn (h : Sending c P) (hn : c.writeBufferList ≠ [] → c.channel.isWriting = true)
    {env : Env} (hnf : env.NonFatal) :
    Post (fun _ => False) (fun c' => Sending c' P ∧
        (c'.writeBufferList ≠ [] → c'.channel.isWriting = true) ∧ restLeft P c' ≤ restLeft P c ∧
        (env.takes = true → restLeft P c' < restLeft P c ∨ restLeft P c' = 0))
      (c.turn env) := by
  have henv := h.env env
  unfold Conn.turn
  by_cases hf : c.frames = []
  · rw [if_pos hf]
    refine (henv.handleWrite_turn hn hnf).mono (fun _ h => h) ?_
    rintro c' ⟨hs', hn', hle, hlt⟩
    refine ⟨hs', hn', hle, fun ht => ?_⟩
    by_cases hl : c.writeBufferList = []
    · exact Or.inr (Nat.le_zero.mp (hle.trans (henv.restLeft_zero hl hf).le))
    · exact Or.inl (hlt hl (Env.takes_iff.mp ht))
  · rw [if_neg hf]
    obtain ⟨f, fs, hcons⟩ := List.exists_cons_of_ne_nil hf
    simp only [Conn.exec, hcons]
    have hframes : ({ c with env := env } : Conn).frames = f :: fs := hcons
    refine (henv.resume_turn hn hnf hframes).mono (fun _ h => h) ?_
    rintro c' ⟨hs', hn', hlt⟩
    exact ⟨hs', hn', hlt.le, fun _ => Or.inl hlt⟩

/-- With as many positive answers as there is work, everything is sent. -/
theorem drive_sent (h : Sending c P) (hn : c.writeBufferList ≠ [] → c.channel.isWriting = true)
    {envs : List Env} (hnf : ∀ env ∈ envs, env.NonFatal)
    (hle : restLeft P c ≤ envs.countP Env.takes) :
    ∃ t, c.drive envs = .ok t ∧ t.writeBufferList = [] ∧ t.sent = P := by
  induction envs generalizing c with
  | nil =>
      have hl : c.writeBufferList = [] := by
        rw [← List.length_eq_zero_iff]
        simp only [restLeft, workLeft, List.countP_nil] at hle
        omega
      exact ⟨c, rfl, hl, (h.flow.pending_nil hl).2⟩
  | cons env envs ih =>
      obtain ⟨hnf, hnfs⟩ := List.forall_mem_cons.mp hnf
      obtain ⟨c₁, hx, hs₁, hn₁, hle₁, hlt₁⟩ := (h.turn hn hnf).exists_ok
      have hleft : restLeft P c₁ ≤ envs.countP Env.takes := by
        rw [List.countP_cons] at hle
        by_cases ht : env.takes = true
        · have := hlt₁ ht
          simp only [ht, if_true] at hle
          omega
        · simp only [ht, Bool.false_eq_true, if_false] at hle
          omega
      obtain ⟨t, ht, hdone⟩ := ih hs₁ hn₁ hnfs hleft
      refine ⟨t, ?_, hdone⟩
      unfold Conn.drive at ht ⊢
      rw [List.foldlM_cons, hx]
      exact ht

theorem drains (h : Sending c P) (hn : c.NotStalled) : c.Drains := by
  refine ⟨restLeft P c, fun envs hnf hle => ?_⟩
  rw [h.accepted]
  exact h.drive_sent (h.notStalled_iff.mp hn) hnf hle

theorem withinFiles (h : Sending c P) : c.WithinFiles := by
  intro node hnode file hs hfd
  rcases (h.flow.nodes node hnode).cases with ⟨chunks, hs'⟩ | ⟨file', -, hfd', hr⟩ | ⟨b, -, hfd', -⟩
  · rw [hs] at hs'
    cases hs'
  · obtain rfl : file' = file := Option.some.inj (hfd'.symm.trans hfd)
    exact hr trivial
  · rw [hfd] at hfd'
    cases hfd'

end Sending

/-! ## Output that never ends -/

/-- The node asks for bytes past the end of its file. -/
def BufferNode.Overlong (node : BufferNode) : Prop :=
  ∃ file, node.streamCallback = none ∧ node.sendFd = some file ∧ node.offset ≤ file.length ∧
    file.length < node.offset + node.fileBytesToSend

/-- An overlong node is in the list, or there is a node and nobody waits
for the socket. -/
def Conn.Halted (c : Conn) : Prop :=
  (∃ node ∈ c.writeBufferList, node.Overlong) ∨
    c.writeBufferList ≠ [] ∧ c.channel.isWriting = false

namespace BufferNode.Overlong

theorem isFile (h : node.Overlong) : node.isFile = true := by
  obtain ⟨file, -, hf, -, -⟩ := h
  exact isFile_file hf

theorem not_finished (h : node.Overlong) : node.finished = false := by
  have hf := h.isFile
  obtain ⟨file, -, -, hle, hlt⟩ := h
  rw [BufferNode.finished, if_pos hf, decide_eq_false_iff_not]
  omega

/-- `sendfile` gets to the end of the file, and the node asks for more. -/
theorem sendFileInLoop (h : node.Overlong) :
    Post (fun _ => False) (fun r => r.2.Overlong) (c.sendFileInLoop node) := by
  obtain ⟨file, hs, hf, hle, hlt⟩ := h
  refine (sendFileInLoop_counts hs hf).mono (fun _ h => h) ?_
  rintro r ⟨hs', hf', n, hoff, hn, hend, htosend, -, -⟩
  exact ⟨file, hs', hf', by omega, by omega⟩

end BufferNode.Overlong

namespace Conn

theorem overlong_sendNext (h : ∃ n ∈ c.writeBufferList, n.Overlong) :
    Post (fun _ => True) (fun c' => ∃ n ∈ c'.writeBufferList, n.Overlong) c.sendNext := by
  obtain ⟨n, hn, hlong⟩ := h
  unfold Conn.sendNext
  cases hl : c.writeBufferList with
  | nil => trivial
  | cons node rest =>
      rw [hl] at hn
      simp only
      have hrest : ∀ {c' : Conn} {node' : BufferNode}, n ∈ rest →
          c'.writeBufferList = node' :: rest → ∃ n ∈ c'.writeBufferList, n.Overlong :=
        fun hmem hl' => ⟨n, hl' ▸ List.mem_cons_of_mem _ hmem, hlong⟩
      by_cases hf : node.isFile = true
      · rw [if_pos hf]
        unfold Conn.sendFileFront
        rcases List.mem_cons.mp hn with rfl | hmem
        · refine Post.bind (hlong.sendFileInLoop.mono (fun _ h => h.elim) fun _ h => h) ?_
          exact fun r hr => ⟨r.2, List.mem_cons_self, hr⟩
        · exact Post.bind (Post.true _) fun r _ => hrest hmem rfl
      · rw [if_neg hf]
        have hmem : n ∈ rest := by
          rcases List.mem_cons.mp hn with rfl | hmem
          · exact absurd hlong.isFile hf
          · exact hmem
        unfold Conn.writeFront
        split
        · trivial
        · refine Post.bind (Post.true _) fun data _ => ?_
          obtain ⟨env, -, ⟨m, total, -, heq⟩ | ⟨e, heq, -⟩⟩ := c.writeInLoop_cases data
          · rw [heq]
            exact hrest hmem rfl
          · rw [heq]
            exact hrest hmem hl

theorem Halted.list_ne_nil (h : c.Halted) : c.writeBufferList ≠ [] := by
  rcases h with ⟨node, hnode, -⟩ | ⟨hne, -⟩
  · exact List.ne_nil_of_mem hnode
  · exact hne

theorem Halted.congr (h : c.Halted) (hl : c'.writeBufferList = c.writeBufferList)
    (hw : c'.channel.isWriting = true → c.channel.isWriting = true) : c'.Halted := by
  unfold Halted
  rw [hl]
  refine h.imp_right fun ⟨hne, hno⟩ => ⟨hne, ?_⟩
  by_contra hw'
  rw [hw (by simpa using hw')] at hno
  cases hno

theorem Halted.handleWrite (h : c.Halted) : Post (fun _ => True) Halted c.handleWrite := by
  have hno := NoOutput.extendLife c
  have hx : c.extendLife.Halted := h.congr hno.list hno.writing
  rw [handleWrite_eq]
  generalize c.extendLife = c at hx
  by_cases hw : c.channel.isWriting = true
  · rw [if_neg (by simp [hw])]
    have hlong : ∃ n ∈ c.writeBufferList, n.Overlong :=
      hx.resolve_right fun ⟨_, hno⟩ => by simp [hw] at hno
    cases hl : c.writeBufferList with
    | nil => trivial
    | cons node rest =>
        simp only
        by_cases hdone : node.finished = true
        · rw [if_pos hdone]
          -- the overlong node is behind the one that is popped
          obtain ⟨n, hn, hlong⟩ := hlong
          rw [hl] at hn
          have hmem : n ∈ rest := by
            rcases List.mem_cons.mp hn with rfl | hmem
            · rw [hlong.not_finished] at hdone
              cases hdone
            · exact hmem
          unfold Conn.popFront
          rw [if_neg (List.ne_nil_of_mem hmem)]
          have hnext := overlong_sendNext (c := { c with writeBufferList := rest }) ⟨n, hmem, hlong⟩
          exact hnext.mono (fun _ h => h) fun _ h => Or.inl h
        · rw [if_neg hdone]
          exact (overlong_sendNext hlong).mono (fun _ h => h) fun _ h => Or.inl h
  · rw [if_pos (by simpa using hw)]
    exact hx

theorem Halted.turn {env : Env} (h : c.Halted) (hx : c.turn env = .ok c') : c'.Halted := by
  have henv : ({ c with env := env } : Conn).Halted := h
  unfold Conn.turn at hx
  by_cases hf : c.frames = []
  · rw [if_pos hf] at hx
    exact henv.handleWrite.of_ok hx
  · rw [if_neg hf] at hx
    have hs : ConnStep c ⟨.resume, env⟩ c' := ⟨hf, hx⟩
    cases hs.output with
    | none _ ho => exact h.congr ho.list ho.writing
    | handleWrite tl fs _ _ hex =>
        have hpush : ({ c with env := env, frames := fs }.push (.dispatch tl)).Halted := h
        exact hpush.handleWrite.of_ok hex
    | send _ hl | sendFile _ _ _ hl | sendStream _ hl => cases hl

theorem Halted.drive {envs : List Env} (h : c.Halted) (hx : c.drive envs = .ok c') :
    c'.Halted := by
  induction envs generalizing c with
  | nil =>
      cases hx
      exact h
  | cons env envs ih =>
      unfold Conn.drive at hx
      rw [List.foldlM_cons] at hx
      cases hturn : c.turn env with
      | error f =>
          rw [hturn] at hx
          cases hx
      | ok c₁ =>
          rw [hturn, ok_bind] at hx
          exact ih (h.turn hturn) hx

/-- The list is never emptied, although the socket takes a byte each time. -/
theorem Halted.not_drains (h : c.Halted) : ¬ c.Drains := by
  rintro ⟨k, hk⟩
  have hnf : ∀ env ∈ List.replicate k (answering [.count 1]), env.NonFatal := by
    intro env henv
    rw [List.eq_of_mem_replicate henv]
    simp [Env.NonFatal, answering]
  have hcount : (List.replicate k (answering [.count 1])).countP Env.takes = k := by
    rw [List.countP_replicate]
    rfl
  obtain ⟨t, ht, hnil, -⟩ := hk _ hnf hcount.ge
  exact (h.drive ht).list_ne_nil hnil

theorem halted_pushNode (hlong : node.Overlong) (hx : c.pushNode node = .ok c') : c'.Halted := by
  by_cases hl : c.writeBufferList = []
  · have hnext : ∃ n ∈ ({ c with writeBufferList := [node] } : Conn).writeBufferList, n.Overlong :=
      ⟨node, List.mem_cons_self, hlong⟩
    have hpost := overlong_sendNext hnext
    simp only [Conn.sendNext, hlong.isFile, if_true] at hpost
    rw [pushNode_nil hl] at hx
    exact Or.inl (hpost.of_ok hx)
  · rw [pushNode_of_ne_nil hl] at hx
    cases hx
    exact Or.inl ⟨node, by simp, hlong⟩

end Conn

/-! ## Runs -/

/-- Everything will be sent, and no node asks for more than its file has. -/
def Conn.Rested (c : Conn) : Prop := c.Drains ∧ c.WithinFiles

theorem Call.SendsRest.sends {file : List Byte} {offset length : Nat}
    (hk : (Call.sendFile (some file) offset length).SendsRest) (hzero : length = 0 → offset = 0) :
    (Call.sendFile (some file) offset length).Sends := by
  show 0 < fileLength file length ∧ offset + fileLength file length ≤ file.length
  unfold fileLength
  rcases hk with ⟨rfl, hlt⟩ | ⟨hpos, hr⟩
  · rw [if_pos rfl, hzero rfl]
    omega
  · rw [if_neg (by omega)]
    exact ⟨hpos, hr⟩

theorem RestStep.sendStep {l : Label} (hs : RestStep c l c') (hg : RestGuard c l) :
    SendStep c l c' := by
  obtain ⟨hstep, hact, hnf⟩ := hs
  refine ⟨hstep, ?_, hnf⟩
  cases hla : l.act with
  | call k =>
      rw [hla] at hact
      cases k with
      | sendFile file offset length =>
          cases file with
          | none => trivial
          | some file => exact Call.SendsRest.sends hact (hg file offset length hla).1
      | send msg => exact hact
      | sendStream callback => exact hact
      | shutdown => exact hact
      | forceClose => exact hact
  | event revents => rw [hla] at hact; exact hact
  | resume => trivial
  | connectEstablished => rw [hla] at hact; exact hact
  | connectDestroyed => rw [hla] at hact; exact hact

theorem Sending.halted {l : Label} (h : Sending c P) (hn : c.NotStalled) (hg : ¬ RestGuard c l)
    (hs : RestStep c l c') : c'.Halted := by
  simp only [RestGuard, not_forall] at hg
  obtain ⟨file, offset, length, hla, hg⟩ := hg
  obtain ⟨⟨-, hex⟩, hact, hnf⟩ := hs
  rw [hla] at hact hex
  by_cases hzero : length = 0 → offset = 0
  · -- inside its range, started on an empty list, and not taken
    have hno : ¬ (c.writeBufferList = [] → ∃ m rs, l.env.io = .count (m + 1) :: rs) :=
      fun hstart => hg ⟨hzero, hstart⟩
    have hk := Call.SendsRest.sends hact hzero
    obtain ⟨hne, hiff⟩ :=
      (h.env l.env).notStalled_sendFile hnf (h.notStalled_iff.mp hn) hk hex
    refine Or.inr ⟨hne, ?_⟩
    by_contra hw
    exact hno (hiff.mp (by simpa using hw))
  · obtain ⟨rfl, hoff⟩ := Classical.not_imp.mp hzero
    have hlt : offset < file.length := by
      rcases hact with ⟨-, hlt⟩ | ⟨hpos, -⟩
      · exact hlt
      · exact absurd hpos (Nat.lt_irrefl 0)
    have hlen : fileLength file 0 = file.length := rfl
    simp only [exec, Conn.call, Conn.sendFile, Conn.sendFileFd, hlen] at hex
    rw [if_pos (by omega)] at hex
    refine halted_pushNode ⟨file, rfl, rfl, hlt.le, ?_⟩ hex
    simp only
    omega

/-- **The rest of a file.** In every run of sends and writable events on a
connected connection, in every state, everything accepted is sent and
every node is popped once the socket takes bytes often enough, and no node
asks for bytes past the end of its file, exactly when length 0 is only
used with offset 0 and every file that is started on an empty list is
answered by a positive count. -/
theorem rested_iff_restGuard (rb : MessageBuffer) (cbs : Callbacks) (env : Env)
    (ls : List Label) :
    Throughout RestStep Conn.Rested (Conn.established rb cbs env) ls ↔
      EveryStep RestStep RestGuard (Conn.established rb cbs env) ls := by
  have h0 := Sending.established rb cbs env
  refine throughout_iff_everyStep (I := fun c => (∃ P, Sending c P) ∧ c.NotStalled) ?_ ?_ ?_ ?_
  · refine ⟨⟨[], h0⟩, fun _ hne => ?_⟩
    simp [Conn.established, setStatus, Conn.log, Conn.new] at hne
  · rintro c l c' ⟨⟨P, h⟩, hn⟩ hg hs
    have hs' := hs.sendStep hg
    exact ⟨⟨_, (h.step hs'.2).of_ok hs'.1.2⟩,
      h.notStalled_step hn (fun file offset length hla => (hg file offset length hla).2) hs'⟩
  · rintro c ⟨⟨P, h⟩, hn⟩
    exact ⟨h.drains hn, h.withinFiles⟩
  · rintro c l c' ⟨⟨P, h⟩, hn⟩ hg hs hrest
    exact (h.halted hn hg hs).not_drains hrest.1

/-- The rest of a file of three bytes from offset 1: the socket takes the
two bytes that there are, and the node waits for one more. -/
theorem rest_of_file_halts : ∃ c,
    Run RestStep (Conn.established .blank plainCallbacks (answering []))
      [⟨.call (.sendFile (some [1, 2, 3]) 1 0), answering [.count 3]⟩] c ∧
      c.sent = [2, 3] ∧ ¬ c.Drains ∧ ¬ c.WithinFiles := by
  have hrun : Run RestStep (Conn.established .blank plainCallbacks (answering []))
      [⟨.call (.sendFile (some [1, 2, 3]) 1 0), answering [.count 3]⟩] _ :=
    .cons ⟨⟨Or.inl rfl, rfl⟩, Or.inl ⟨rfl, by decide⟩, by simp [Env.NonFatal, answering]⟩ (.nil _)
  refine ⟨_, hrun, rfl, Halted.not_drains (Or.inl ⟨_, List.mem_cons_self, [1, 2, 3], ?_⟩), ?_⟩
  · exact ⟨rfl, rfl, by decide, by decide⟩
  · intro hwithin
    exact absurd (hwithin _ List.mem_cons_self [1, 2, 3] rfl rfl) (by decide)

end Netpoll
