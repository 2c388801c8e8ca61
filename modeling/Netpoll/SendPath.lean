import Netpoll.BufferRep
import Netpoll.Connection

/-!
# What is on its way

The abstract view of the output side of a connection is one byte
sequence: what the kernel has accepted (`Conn.sent`), followed by what is
still pending (`Conn.pending`) in the write list and in the staging
buffer that all streams share.

`Flow inside c P` says that this sequence is `P`, together with what the code
relies on: nodes are well formed (with the ranges of files inside them, if
`inside`), bytes are staged only for an unfinished stream at the front, and
write interest implies a non-empty list. Every
function of the write path keeps it, whatever the kernel answers, and
none of them fails; `FileSent` is the specification of `sendFileInLoop`,
from which those of its callers follow.
-/

namespace Netpoll

open MessageBuffer

/-! ## The abstract view -/

/-- The bytes that the kernel accepted, in order. -/
def sentOf (trace : List Event) : List Byte :=
  trace.flatMap fun
    | .sent xs => xs
    | _ => []

/-- The payloads taken over from the user, in order. -/
def acceptedOf (trace : List Event) : List Byte :=
  trace.flatMap fun
    | .accept xs => xs
    | _ => []

theorem sentOf_append (t u : List Event) : sentOf (t ++ u) = sentOf t ++ sentOf u :=
  List.flatMap_append

theorem sentOf_eq_nil {t : List Event} (h : ∀ e ∈ t, ∀ xs, e ≠ .sent xs) : sentOf t = [] := by
  refine List.flatMap_eq_nil_iff.mpr fun e he => ?_
  cases e with
  | sent xs => exact absurd rfl (h _ he xs)
  | _ => rfl

theorem sentOf_sent (t : List Event) (xs : List Byte) :
    sentOf (t ++ [.sent xs]) = sentOf t ++ xs := by
  simp [sentOf]

theorem acceptedOf_append (t u : List Event) :
    acceptedOf (t ++ u) = acceptedOf t ++ acceptedOf u :=
  List.flatMap_append

/-- What a node still has to send: what its stream will return, the
unsent range of its file, or its readable bytes. -/
def BufferNode.pending (node : BufferNode) : List Byte :=
  match node.streamCallback, node.sendFd with
  | some chunks, _ => if node.fileBytesToSend = 0 then [] else streamPayload chunks
  | none, some file => slice file node.offset (node.offset + node.fileBytesToSend)
  | none, none => (node.msgBuffer.map bytes).getD []

/-- An error after which `sendInLoop` gives the payload up. -/
def IoResult.isFatal : IoResult → Bool
  | .count _ => false
  | .failed e => writeSocketError e

namespace Conn

def sent (c : Conn) : List Byte := sentOf c.trace

def accepted (c : Conn) : List Byte := acceptedOf c.trace

def pending (c : Conn) : List Byte :=
  c.fileBuffer ++ c.writeBufferList.flatMap BufferNode.pending

/-- No answer of the kernel in this step is a fatal error. -/
def NonFatal (c : Conn) : Prop := ∀ e, .failed e ∈ c.env.io → e = .wouldBlock

/-- A send of `xs` that finds nothing queued is not answered by a fatal error. -/
def KeepsPayload (c : Conn) (xs : List Byte) : Prop :=
  xs ≠ [] → c.channel.isWriting = false → c.writeBufferList = [] →
    c.env.io.head?.all (fun r => !r.isFatal) = true

theorem NonFatal.keepsPayload {c : Conn} (h : c.NonFatal) (xs : List Byte) :
    c.KeepsPayload xs := by
  intro _ _ _
  cases hio : c.env.io with
  | nil => rfl
  | cons r rs =>
      cases r with
      | count n => rfl
      | failed e =>
          rw [h e (by rw [hio]; exact List.mem_cons_self)]
          rfl

end Conn

/-! ## Well-formed nodes -/

/-- A message node has a buffer. The range of a file node lies in its file
if `inside`, and may go past its end otherwise. -/
def BufferNode.Ok (inside : Prop) (node : BufferNode) : Prop :=
  match node.streamCallback, node.sendFd with
  | some _, _ => True
  | none, some file => inside → node.offset + node.fileBytesToSend ≤ file.length
  | none, none => ∃ b, node.msgBuffer = some b ∧ Sized b

/-- A stream that has not returned a zero size yet. -/
def BufferNode.Streaming (node : BufferNode) : Prop :=
  node.streamCallback.isSome ∧ 0 < node.fileBytesToSend

theorem BufferNode.Ok.cases {inside : Prop} {node : BufferNode} (h : node.Ok inside) :
    (∃ chunks, node.streamCallback = some chunks) ∨
      (∃ file, node.streamCallback = none ∧ node.sendFd = some file ∧
        (inside → node.offset + node.fileBytesToSend ≤ file.length)) ∨
      ∃ b, node.streamCallback = none ∧ node.sendFd = none ∧ node.msgBuffer = some b ∧ Sized b := by
  unfold BufferNode.Ok at h
  cases hs : node.streamCallback with
  | some chunks => exact Or.inl ⟨chunks, rfl⟩
  | none =>
      cases hf : node.sendFd with
      | some file =>
          simp only [hs, hf] at h
          exact Or.inr (Or.inl ⟨file, rfl, rfl, h⟩)
      | none =>
          simp only [hs, hf] at h
          obtain ⟨b, hb, hsz⟩ := h
          exact Or.inr (Or.inr ⟨b, rfl, rfl, hb, hsz⟩)

theorem BufferNode.Ok.msg {inside : Prop} {node : BufferNode} (h : node.Ok inside)
    (hf : node.isFile = false) :
    ∃ b, node.streamCallback = none ∧ node.sendFd = none ∧ node.msgBuffer = some b ∧ Sized b := by
  rcases h.cases with ⟨chunks, hs⟩ | ⟨file, -, hfd, -⟩ | hb
  · simp [BufferNode.isFile, hs] at hf
  · simp [BufferNode.isFile, hfd] at hf
  · exact hb

theorem BufferNode.Ok.pending_done {inside : Prop} {node : BufferNode} (h : node.Ok inside)
    (hf : node.isFile = true) (h0 : node.fileBytesToSend = 0) : node.pending = [] := by
  rcases h.cases with ⟨chunks, hs⟩ | ⟨file, hs, hfd, -⟩ | ⟨b, hs, hfd, -, -⟩
  · simp [BufferNode.pending, hs, h0]
  · simp [BufferNode.pending, hs, hfd, h0, slice_self]
  · simp [BufferNode.isFile, hs, hfd] at hf

/-- Nothing is left to send of a node. -/
def BufferNode.finished (node : BufferNode) : Bool :=
  if node.isFile then node.fileBytesToSend ≤ 0
  else node.msgBuffer.any fun b => b.readableBytes ≤ 0

theorem BufferNode.pending_msg {node : BufferNode} {b : MessageBuffer}
    (hs : node.streamCallback = none) (hf : node.sendFd = none) (hb : node.msgBuffer = some b) :
    node.pending = b.bytes := by
  simp [BufferNode.pending, hs, hf, hb]

theorem new_default :
    ∃ b, MessageBuffer.new kBufferDefaultLength = .ok b ∧ Fresh b kBufferDefaultLength := by
  have hfit : kBufferDefaultLength + kBufferOffset < sizeMod := by decide
  have hpost := new_fresh hfit
  cases hr : MessageBuffer.new kBufferDefaultLength with
  | ok b => exact ⟨b, rfl, hpost.of_ok hr⟩
  | error f =>
      have hlim := (hpost.of_error hr).2
      exact absurd hlim (by decide)

theorem BufferNode.Ok.pending_finished {inside : Prop} {node : BufferNode}
    (h : node.Ok inside) (hdone : node.finished = true) : node.pending = [] := by
  unfold BufferNode.finished at hdone
  by_cases hf : node.isFile = true
  · rw [if_pos hf, decide_eq_true_eq] at hdone
    exact h.pending_done hf (Nat.le_zero.mp hdone)
  · rw [if_neg hf] at hdone
    obtain ⟨b, hs, hfd, hb, hsz⟩ := h.msg (by simpa using hf)
    rw [hb, Option.any_some, decide_eq_true_eq] at hdone
    rw [BufferNode.pending_msg hs hfd hb]
    exact List.length_eq_zero_iff.mp (by rw [hsz.bytes_length]; omega)

theorem BufferNode.not_streaming_of_finished {node : BufferNode} (hdone : node.finished = true) :
    ¬ node.Streaming := by
  rintro ⟨hs, hpos⟩
  have hf : node.isFile = true := by simp [BufferNode.isFile, hs]
  rw [BufferNode.finished, if_pos hf, decide_eq_true_eq] at hdone
  omega

/-! ## The invariant of the write path -/

/-- The accepted bytes and the pending ones make up `P`. -/
structure Flow (inside : Prop) (c : Conn) (P : List Byte) : Prop where
  nodes : ∀ node ∈ c.writeBufferList, node.Ok inside
  staged : c.fileBuffer ≠ [] → ∃ node rest, c.writeBufferList = node :: rest ∧ node.Streaming
  writing : c.channel.isWriting = true → c.writeBufferList ≠ []
  conserved : c.sent ++ c.pending = P

/-! ## The kernel's answers -/

namespace Conn

variable {c : Conn} {P : List Byte}

theorem nextIo_cases (c : Conn) :
    ∃ r env, c.nextIo = (r, { c with env := env }) ∧
      (c.NonFatal → ({ c with env := env } : Conn).NonFatal ∧ ∀ e, r = .failed e → e = .wouldBlock) ∧
      (∀ n, r = .count n ↔ ∃ rs, c.env.io = .count n :: rs) := by
  unfold nextIo
  cases hio : c.env.io with
  | nil =>
      refine ⟨_, c.env, rfl, fun h => ⟨h, ?_⟩, fun n => by simp⟩
      intro e he
      cases he
      rfl
  | cons r rs =>
      refine ⟨_, { c.env with io := rs }, rfl, fun h => ⟨?_, ?_⟩, fun n => by simp⟩
      · intro e he
        exact h e (by rw [hio]; exact List.mem_cons_of_mem _ he)
      · intro e he
        exact h e (by rw [hio, he]; exact List.mem_cons_self)

theorem head_of_fatal {buffer : List Byte} {e : Errno} (h : (c.writeInLoop buffer).1 = .failed e)
    (he : writeSocketError e = true) : c.env.io.head? = some (.failed e) := by
  unfold writeInLoop nextIo at h
  cases hio : c.env.io with
  | nil =>
      rw [hio] at h
      cases h
      cases he
  | cons r rs =>
      rw [hio] at h
      cases r with
      | count n => cases h
      | failed e' =>
          cases h
          rfl

theorem writeInLoop_cases (c : Conn) (buffer : List Byte) :
    ∃ env, (c.NonFatal → ({ c with env := env } : Conn).NonFatal) ∧
      ((∃ n total, n ≤ buffer.length ∧
          c.writeInLoop buffer = (.count n, { c with
            env := env, bytesSent := total, trace := c.trace ++ [.sent (buffer.take n)] })) ∨
        ∃ e, c.writeInLoop buffer = (.failed e, { c with env := env }) ∧
          (c.NonFatal → e = .wouldBlock)) := by
  obtain ⟨r, env, hr, hnf, -⟩ := c.nextIo_cases
  refine ⟨env, fun h => (hnf h).1, ?_⟩
  unfold writeInLoop
  rw [hr]
  cases r with
  | count n => exact Or.inl ⟨min n buffer.length, _, Nat.min_le_right _ _, rfl⟩
  | failed e => exact Or.inr ⟨e, rfl, fun h => (hnf h).2 e rfl⟩

@[simp] theorem isWriting_startWriting (c : Conn) : c.startWriting.channel.isWriting = true := by
  unfold startWriting
  split
  · assumption
  · exact Channel.isWriting_enableWriting _

@[simp] theorem sent_startWriting (c : Conn) : c.startWriting.sent = c.sent := by
  unfold startWriting
  split <;> rfl

@[simp] theorem fileBuffer_startWriting (c : Conn) : c.startWriting.fileBuffer = c.fileBuffer := by
  unfold startWriting
  split <;> rfl

@[simp] theorem list_startWriting (c : Conn) :
    c.startWriting.writeBufferList = c.writeBufferList := by
  unfold startWriting
  split <;> rfl

theorem startWriting_eq (c : Conn) : ∃ ch, c.startWriting = { c with channel := ch } := by
  unfold startWriting
  split
  · exact ⟨c.channel, rfl⟩
  · exact ⟨_, rfl⟩

/-- `c'` differs from `c` by writes to the socket: bytes sent and staged,
answers used up, the interest mask. -/
def Emits (c c' : Conn) : Prop :=
  ∃ channel fileBuffer total env evs,
    c' = { c with
      channel := channel, fileBuffer := fileBuffer, bytesSent := total, env := env,
      trace := c.trace ++ evs } ∧
    (∀ e ∈ evs, ∃ xs, e = Event.sent xs) ∧ (c.NonFatal → c'.NonFatal)

theorem Emits.refl (c : Conn) : Emits c c :=
  ⟨_, _, _, _, [], by rw [List.append_nil], by simp, id⟩

theorem Emits.trans {c₁ c₂ c₃ : Conn} (h₁ : Emits c₁ c₂) (h₂ : Emits c₂ c₃) : Emits c₁ c₃ := by
  obtain ⟨ch, fb, t, env, evs, rfl, hevs, hnf⟩ := h₁
  obtain ⟨ch', fb', t', env', evs', rfl, hevs', hnf'⟩ := h₂
  refine ⟨ch', fb', t', env', evs ++ evs', ?_, ?_, fun h => hnf' (hnf h)⟩
  · simp only [List.append_assoc]
  · intro e he
    rcases List.mem_append.mp he with he | he
    · exact hevs e he
    · exact hevs' e he

theorem Emits.nonFatal {c' : Conn} (h : Emits c c') : c.NonFatal → c'.NonFatal := by
  obtain ⟨_, _, _, _, _, -, -, hnf⟩ := h
  exact hnf

theorem Emits.channel (c : Conn) (ch : Channel) : Emits c { c with channel := ch } :=
  ⟨ch, _, _, _, [], by rw [List.append_nil], by simp, id⟩

theorem Emits.fileBuffer (c : Conn) (xs : List Byte) : Emits c { c with fileBuffer := xs } :=
  ⟨_, xs, _, _, [], by rw [List.append_nil], by simp, id⟩

theorem Emits.startWriting (c : Conn) : Emits c c.startWriting := by
  obtain ⟨ch, hch⟩ := c.startWriting_eq
  rw [hch]
  exact Emits.channel c ch

theorem Emits.env {env : Env} (h : c.NonFatal → ({ c with env := env } : Conn).NonFatal) :
    Emits c { c with env := env } :=
  ⟨_, _, _, env, [], by rw [List.append_nil], by simp, h⟩

theorem Emits.sent {env : Env} (h : c.NonFatal → ({ c with env := env } : Conn).NonFatal)
    (total : Nat) (xs : List Byte) :
    Emits c { c with env := env, bytesSent := total, trace := c.trace ++ [.sent xs] } :=
  ⟨_, _, total, env, [.sent xs], rfl, by simp, h⟩

theorem Emits.list {c' : Conn} (h : Emits c c') (list : List BufferNode) :
    Emits { c with writeBufferList := list } { c' with writeBufferList := list } := by
  obtain ⟨ch, fb, t, env, evs, rfl, hevs, hnf⟩ := h
  exact ⟨ch, fb, t, env, evs, rfl, hevs, hnf⟩

/-- Some nodes have been written from, and at least one is left. Write
interest is kept unless an error was fatal. -/
def Writes (c c' : Conn) : Prop :=
  c'.writeBufferList ≠ [] ∧
    Emits { c with writeBufferList := c'.writeBufferList } c' ∧
    (c.NonFatal → c.channel.isWriting = true → c'.channel.isWriting = true)

/-- The list is empty: write interest goes, the callback is invoked, and
the rest of `handleWrite` waits for it. -/
def drained (c : Conn) : Conn :=
  ({ c with writeBufferList := [], channel := c.channel.disableWriting }.push
    .handleWriteRest).invoke c.callbacks.writeComplete .writeComplete

/-- What `handleWrite` can do. -/
inductive HandleWrites (c : Conn) : Conn → Prop
  | idle : c.channel.isWriting = false → HandleWrites c c
  | wrote {c' : Conn} : c.channel.isWriting = true → Writes c c' → HandleWrites c c'
  | drained : c.channel.isWriting = true → c.pending = [] → HandleWrites c c.drained

section fields

variable (c : Conn) (isSet : Bool) (e : Event)

@[simp] theorem invoke_list : (c.invoke isSet e).writeBufferList = c.writeBufferList := by
  unfold invoke; split <;> rfl

@[simp] theorem invoke_fileBuffer : (c.invoke isSet e).fileBuffer = c.fileBuffer := by
  unfold invoke; split <;> rfl

@[simp] theorem invoke_channel : (c.invoke isSet e).channel = c.channel := by
  unfold invoke; split <;> rfl

@[simp] theorem invoke_status : (c.invoke isSet e).status = c.status := by
  unfold invoke; split <;> rfl

theorem invoke_trace : ∃ evs, (c.invoke isSet e).trace = c.trace ++ evs ∧ ∀ e' ∈ evs, e' = e := by
  unfold invoke
  split
  · exact ⟨[e], rfl, by simp⟩
  · exact ⟨[], by simp, by simp⟩

theorem extendLife_eq :
    ∃ t evs, c.extendLife = { c with lastTimingWheelUpdateTime := t, trace := c.trace ++ evs } ∧
      ∀ e ∈ evs, e = .insertEntry c.idleTimeout := by
  unfold extendLife
  split
  · split
    · exact ⟨_, [], by rw [List.append_nil], by simp⟩
    · simp only
      split
      · exact ⟨c.env.now, [.insertEntry c.idleTimeout], rfl, by simp⟩
      · exact ⟨c.env.now, [], by rw [List.append_nil], by simp⟩
  · exact ⟨_, [], by rw [List.append_nil], by simp⟩

end fields

theorem handleWrite_eq (c : Conn) :
    c.handleWrite =
      if !c.extendLife.channel.isWriting then .ok c.extendLife
      else
        match c.extendLife.writeBufferList with
        | [] => .error .assertion
        | node :: rest =>
            if node.finished then c.extendLife.popFront rest else c.extendLife.sendNext := by
  unfold handleWrite
  generalize c.extendLife = c
  simp only
  cases hl : c.writeBufferList with
  | nil => rfl
  | cons node rest =>
      simp only [sendNext, hl, BufferNode.finished]
      by_cases hf : node.isFile = true
      · simp only [hf, if_true, decide_eq_true_eq]
      · simp only [hf, Bool.false_eq_true, if_false]
        cases hb : node.msgBuffer with
        | none => simp [writeFront, hb]
        | some b => simp only [Option.any_some, decide_eq_true_eq]

theorem pushNode_nil {node : BufferNode} (hnil : c.writeBufferList = []) :
    c.pushNode node = ({ c with writeBufferList := [node] } : Conn).sendFileFront node [] := by
  simp only [Conn.pushNode, hnil, List.nil_append]

theorem pushNode_of_ne_nil {node : BufferNode} (hne : c.writeBufferList ≠ []) :
    c.pushNode node = .ok { c with writeBufferList := c.writeBufferList ++ [node] } := by
  obtain ⟨b, bs, hbs⟩ := List.exists_cons_of_ne_nil hne
  unfold Conn.pushNode
  simp only [hbs, List.cons_append]
  split
  · rename_i heq
    simp at heq
  · rfl

/-- Bytes have been queued: there is a node, and write interest. -/
def Queues (c c' : Conn) : Prop :=
  ∃ list isSet n, list ≠ [] ∧
    c' = ({ c with writeBufferList := list }.startWriting).invoke isSet (.highWaterMark n)

theorem Queues.list_ne_nil {c c' : Conn} (h : Queues c c') : c'.writeBufferList ≠ [] := by
  obtain ⟨list, isSet, n, hne, rfl⟩ := h
  rw [invoke_list, list_startWriting]
  exact hne

/-- What `sendInLoop` can do: write and be done, or write and queue. -/
inductive SendsInLoop (c : Conn) : Conn → Prop
  | direct {c' : Conn} : Emits c c' → c'.channel = c.channel → SendsInLoop c c'
  | queued {c₁ c' : Conn} : Emits c c₁ → c₁.channel = c.channel → Queues c₁ c' → SendsInLoop c c'

/-! ## `sendFileInLoop` -/

/-- What `sendFileInLoop` does to the connection and to its node. -/
structure FileSent (inside : Prop) (c : Conn) (node : BufferNode) (c' : Conn)
    (node' : BufferNode) : Prop where
  emits : Emits c c'
  ok : node'.Ok inside
  isFile : node'.isFile = true
  staged : c'.fileBuffer ≠ [] → node'.Streaming
  flow : c'.sent ++ (c'.fileBuffer ++ node'.pending) = c.sent ++ (c.fileBuffer ++ node.pending)
  keeps : c.NonFatal → c.channel.isWriting = true → c'.channel.isWriting = true

variable {inside : Prop} {node : BufferNode} {chunks : List Chunk}

theorem pending_stream {node : BufferNode} (hs : node.streamCallback = some chunks)
    (h : 0 < node.fileBytesToSend) : node.pending = streamPayload chunks := by
  simp only [BufferNode.pending, hs]
  rw [if_neg (by omega)]

theorem pending_stream_done {node : BufferNode} (hs : node.streamCallback = some chunks)
    (h : node.fileBytesToSend = 0) : node.pending = [] := by
  simp only [BufferNode.pending, hs]
  rw [if_pos h]

theorem ok_stream {node : BufferNode} (hs : node.streamCallback = some chunks) :
    node.Ok inside := by
  simp [BufferNode.Ok, hs]

theorem isFile_stream {node : BufferNode} (hs : node.streamCallback = some chunks) :
    node.isFile = true := by
  simp [BufferNode.isFile, hs]

theorem FileSent.trans {c₁ c₂ c₃ : Conn} {n₁ n₂ n₃ : BufferNode}
    (h₁ : FileSent inside c₁ n₁ c₂ n₂) (h₂ : FileSent inside c₂ n₂ c₃ n₃) :
    FileSent inside c₁ n₁ c₃ n₃ where
  emits := h₁.emits.trans h₂.emits
  ok := h₂.ok
  isFile := h₂.isFile
  staged := h₂.staged
  flow := h₂.flow.trans h₁.flow
  keeps hnf hw := h₂.keeps (Emits.nonFatal h₁.emits hnf) (h₁.keeps hnf hw)

/-- A step that moves staged bytes of an unfinished stream to the socket. -/
theorem fileSent_of_staged {c' : Conn} (hs : node.streamCallback = some chunks)
    (hpos : 0 < node.fileBytesToSend) (he : Emits c c')
    (hflow : c'.sent ++ c'.fileBuffer = c.sent ++ c.fileBuffer)
    (hkeeps : c.NonFatal → c.channel.isWriting = true → c'.channel.isWriting = true) :
    FileSent inside c node c' node where
  emits := he
  ok := ok_stream hs
  isFile := isFile_stream hs
  staged _ := ⟨by rw [hs]; rfl, hpos⟩
  flow := by rw [← List.append_assoc, hflow, List.append_assoc]
  keeps := hkeeps

/-- Stream calls end with write interest, unless the error was fatal. -/
def StreamSent (inside : Prop) (c : Conn) (node : BufferNode) (r : Conn × BufferNode) : Prop :=
  FileSent inside c node r.1 r.2 ∧ (c.NonFatal → r.1.channel.isWriting = true)

theorem streamWrite_spec (hs : node.streamCallback = some chunks)
    (hpos : 0 < node.fileBytesToSend)
    {loop : Conn → BufferNode → Except Fault (Conn × BufferNode)}
    (hloop : ∀ c', Emits c c' → c'.fileBuffer = [] →
      Post (fun _ => False) (StreamSent inside c' node) (loop c' node)) :
    Post (fun _ => False) (StreamSent inside c node) (c.streamWrite node loop) := by
  unfold streamWrite
  obtain ⟨env, hnf, ⟨n, total, hn, heq⟩ | ⟨e, heq, he⟩⟩ := c.writeInLoop_cases c.fileBuffer
  · have hem := Emits.sent hnf total (c.fileBuffer.take n)
    rw [heq]
    simp only
    by_cases hlt : n < c.fileBuffer.length
    · rw [if_pos hlt]
      refine ⟨fileSent_of_staged hs hpos ?_ ?_ fun _ _ => ?_, fun _ => ?_⟩
      · exact (hem.trans (Emits.fileBuffer _ _)).trans (Emits.startWriting _)
      · rw [sent_startWriting, fileBuffer_startWriting]
        simp [Conn.sent, sentOf]
      · simp
      · simp
    · rw [if_neg hlt]
      have hem' := hem.trans (Emits.fileBuffer _ [])
      have hstep : FileSent inside c node _ node := fileSent_of_staged hs hpos hem' (by
        rw [List.take_of_length_le (by omega)]
        simp [Conn.sent, sentOf]) fun _ hw => hw
      refine (hloop _ hem' rfl).mono (fun _ hf => hf) fun r hr => ?_
      exact ⟨hstep.trans hr.1, fun h => hr.2 (Emits.nonFatal hem' h)⟩
  · rw [heq]
    simp only
    by_cases hfatal : writeSocketError e = true
    · rw [if_pos hfatal]
      refine ⟨fileSent_of_staged hs hpos (Emits.env hnf) rfl fun _ hw => hw, fun h => ?_⟩
      rw [he h] at hfatal
      cases hfatal
    · rw [if_neg hfatal]
      refine ⟨fileSent_of_staged hs hpos ?_ ?_ fun _ _ => ?_, fun _ => ?_⟩
      · exact (Emits.env hnf).trans (Emits.startWriting _)
      · rw [sent_startWriting, fileBuffer_startWriting]
        rfl
      · simp
      · simp

theorem streamSent_end {c' : Conn} {node' : BufferNode} {chunks' : List Chunk}
    (hs : node'.streamCallback = some chunks') (h0 : node'.fileBytesToSend = 0)
    (hpend : node.pending = []) (hfb : c.fileBuffer = []) (he : Emits c c')
    (hfb' : c'.fileBuffer = []) (hsent : c'.sent = c.sent) :
    StreamSent inside c node (c'.startWriting, node') := by
  refine ⟨⟨he.trans (Emits.startWriting _), ok_stream hs, isFile_stream hs, ?_, ?_, ?_⟩, ?_⟩
  · intro hne
    rw [fileBuffer_startWriting] at hne
    exact absurd hfb' hne
  · rw [sent_startWriting, fileBuffer_startWriting, hsent, hfb, hfb', hpend,
      pending_stream_done hs h0]
  · intro _ _
    exact isWriting_startWriting c'
  · intro _
    exact isWriting_startWriting c'

theorem fetch_cases (c : Conn) (hs : node.streamCallback = some chunks) :
    (∃ chunks', c.fetch node = ({ c with fileBuffer := [] },
        { node with streamCallback := some chunks', fileBytesToSend := 0 }) ∧
      streamPayload chunks = []) ∨
    ∃ x xs, chunks = x :: xs ∧ x.bytes ≠ [] ∧
      c.fetch node = ({ c with fileBuffer := x.bytes }, { node with streamCallback := some xs }) := by
  cases chunks with
  | nil => exact Or.inl ⟨[], by simp [fetch, hs], rfl⟩
  | cons x xs =>
      by_cases hx : x.bytes = []
      · exact Or.inl ⟨xs, by simp [fetch, hs, hx], by simp [streamPayload, hx]⟩
      · exact Or.inr ⟨x, xs, rfl, hx, by simp [fetch, hs, hx]⟩

theorem fileSent_fetch {x : Chunk} {xs : List Chunk} (hs : node.streamCallback = some chunks)
    (hpos : 0 < node.fileBytesToSend) (hfb : c.fileBuffer = []) (hx : chunks = x :: xs)
    (hne : x.bytes ≠ []) :
    FileSent inside c node { c with fileBuffer := x.bytes }
      { node with streamCallback := some xs } where
  emits := Emits.fileBuffer c x.bytes
  ok := ok_stream rfl
  isFile := isFile_stream rfl
  staged _ := ⟨rfl, hpos⟩
  flow := by
    have hp : ({ node with streamCallback := some xs } : BufferNode).pending = streamPayload xs :=
      pending_stream rfl hpos
    rw [pending_stream hs hpos, hp, hfb, hx, streamPayload,
      if_neg (fun h => hne (List.length_eq_zero_iff.mp h)), List.nil_append]
    rfl
  keeps _ hw := hw

theorem streamLoop_spec {fuel : Nat} (hs : node.streamCallback = some chunks)
    (hstaged : c.fileBuffer ≠ [] → 0 < node.fileBytesToSend)
    (hfuel : chunks.length + (if c.fileBuffer = [] then 0 else 1) < fuel) :
    Post (fun _ => False) (StreamSent inside c node) (streamLoop fuel c node) := by
  induction fuel generalizing c node chunks with
  | zero => omega
  | succ fuel ih =>
      unfold streamLoop
      by_cases hfb : c.fileBuffer = []
      · rw [if_pos hfb] at hfuel
        by_cases hpos : node.fileBytesToSend > 0
        · rw [if_pos (Or.inl hpos)]
          simp only [if_pos hfb]
          rcases fetch_cases c hs with ⟨chunks', hf, hend⟩ | ⟨x, xs, hx, hne, hf⟩
          · rw [hf]
            simp only [if_true]
            exact streamSent_end rfl rfl (by rw [pending_stream hs hpos, hend]) hfb
              (Emits.fileBuffer c []) rfl rfl
          · rw [hf]
            simp only [if_neg hne]
            have hstep : FileSent inside c node _ _ := fileSent_fetch hs hpos hfb hx hne
            have hloop : ∀ c', c'.fileBuffer = [] →
                Post (fun _ => False) (StreamSent inside c' { node with streamCallback := some xs })
                  (streamLoop fuel c' { node with streamCallback := some xs }) := by
              intro c' hc'
              refine ih rfl (fun hne => absurd hc' hne) ?_
              rw [if_pos hc']
              rw [hx, List.length_cons] at hfuel
              omega
            have hs' : ({ node with streamCallback := some xs } : BufferNode).streamCallback
                = some xs := rfl
            have hwrite := streamWrite_spec (c := { c with fileBuffer := x.bytes }) hs' hpos
              fun c' _ hc' => hloop c' hc'
            exact hwrite.mono (fun _ hf => hf) fun r hr => ⟨hstep.trans hr.1, fun h => hr.2 h⟩
        · rw [if_neg (by simp [hfb, hpos])]
          exact streamSent_end hs (by omega) (pending_stream_done hs (by omega)) hfb
            (Emits.refl c) hfb rfl
      · rw [if_pos (Or.inr hfb)]
        rw [if_neg hfb] at hfuel
        simp only [if_neg hfb]
        refine streamWrite_spec hs (hstaged hfb) fun c' _ hc' => ?_
        refine ih hs (fun hne => absurd hc' hne) ?_
        rw [if_pos hc']
        omega

/-- The kernel's first answer of this step is a positive count. -/
def TakesSome (c : Conn) : Prop := ∃ m rs, c.env.io = .count (m + 1) :: rs

theorem sendfile_cases (c : Conn) (node : BufferNode) (file : List Byte) :
    ∃ env, (c.NonFatal → ({ c with env := env } : Conn).NonFatal) ∧
      ((∃ n, n ≤ node.fileBytesToSend ∧ n ≤ file.length - node.offset ∧
          (0 < n ↔ 0 < node.fileBytesToSend ∧ node.offset < file.length ∧ c.TakesSome) ∧
          c.sendfile file node = (.count n,
            { c with
              env := env
              trace := c.trace ++ [.sent (slice file node.offset (node.offset + n))] },
            { node with offset := node.offset + n })) ∨
        ∃ e, c.sendfile file node = (.failed e, { c with env := env }, node) ∧
          (c.NonFatal → e = .wouldBlock) ∧ ¬ c.TakesSome) := by
  obtain ⟨r, env, hrq, hnf, hio⟩ := c.nextIo_cases
  refine ⟨env, fun h => (hnf h).1, ?_⟩
  unfold sendfile
  rw [hrq]
  cases r with
  | count n =>
      obtain ⟨rs, hrs⟩ := (hio n).mp rfl
      -- the file may end before the range does
      have hlen := length_slice file node.offset (min n node.fileBytesToSend)
      have hcut := slice_length_slice file node.offset (min n node.fileBytesToSend)
      refine Or.inl
        ⟨(slice file node.offset (node.offset + min n node.fileBytesToSend)).length, ?_, ?_, ?_, ?_⟩
      · omega
      · omega
      · rw [hlen]
        constructor
        · intro hpos
          refine ⟨by omega, by omega, n - 1, rs, ?_⟩
          rw [hrs, Nat.sub_add_cancel (by omega)]
        · rintro ⟨hpos, hend, m, rs', heq⟩
          rw [hrs] at heq
          cases heq
          omega
      · rw [hcut]
        rfl
  | failed e =>
      refine Or.inr ⟨e, rfl, fun h => (hnf h).2 e rfl, ?_⟩
      rintro ⟨m, rs, heq⟩
      have := (hio (m + 1)).mpr ⟨rs, heq⟩
      cases this

theorem pending_advance {file : List Byte} {n : Nat} (hs : node.streamCallback = none)
    (hf : node.sendFd = some file) (hn : n ≤ node.fileBytesToSend) :
    node.pending = slice file node.offset (node.offset + n) ++
      ({ node with
        offset := node.offset + n
        fileBytesToSend := node.fileBytesToSend - n } : BufferNode).pending := by
  have hend : node.offset + n + (node.fileBytesToSend - n) = node.offset + node.fileBytesToSend := by
    omega
  simp only [BufferNode.pending, hs, hf, hend]
  exact (slice_append (by omega) (by omega)).symm

theorem ok_file {file : List Byte} (hs : node.streamCallback = none)
    (hf : node.sendFd = some file)
    (hr : inside → node.offset + node.fileBytesToSend ≤ file.length) : node.Ok inside := by
  simpa only [BufferNode.Ok, hs, hf] using hr

theorem isFile_file {file : List Byte} (hf : node.sendFd = some file) : node.isFile = true := by
  simp [BufferNode.isFile, hf]

theorem fileSent_idle {c' : Conn} (hok : node.Ok inside)
    (hf : node.isFile = true) (hfb : c.fileBuffer = []) (he : Emits c c')
    (hfb' : c'.fileBuffer = []) (hsent : c'.sent = c.sent)
    (hk : c.NonFatal → c.channel.isWriting = true → c'.channel.isWriting = true) :
    FileSent inside c node c' node where
  emits := he
  ok := hok
  isFile := hf
  staged hne := absurd hfb' hne
  flow := by rw [hsent, hfb, hfb']
  keeps := hk

/-- A `sendfile` node: write interest is kept, and gained exactly when
the kernel takes some bytes and the file has some left. -/
theorem sendFileInLoop_range {file : List Byte} (hs : node.streamCallback = none)
    (hf : node.sendFd = some file)
    (hr : inside → node.offset + node.fileBytesToSend ≤ file.length) (hfb : c.fileBuffer = []) :
    Post (fun _ => False) (fun r => FileSent inside c node r.1 r.2 ∧
        (0 < node.fileBytesToSend → c.channel.isWriting = false →
          (r.1.channel.isWriting = true ↔ node.offset < file.length ∧ c.TakesSome)))
      (c.sendFileInLoop node) := by
  have hok := ok_file hs hf hr
  unfold sendFileInLoop
  simp only [hs, hf]
  obtain ⟨env, hnf, ⟨n, hn, -, hn0, heq⟩ | ⟨e, heq, he, hno⟩⟩ := sendfile_cases c node file
  · have hem := Emits.sent (c := c) hnf c.bytesSent (slice file node.offset (node.offset + n))
    rw [heq]
    simp only
    by_cases h0 : n < node.fileBytesToSend ∧ n = 0
    · rw [if_pos h0]
      obtain ⟨-, rfl⟩ := h0
      refine ⟨fileSent_idle hok (isFile_file hf) hfb hem hfb ?_ fun _ hw => hw, fun hpos hw => ?_⟩
      · simp [Conn.sent, sentOf, slice_self]
      · exact ⟨fun h => absurd h (by simp [hw]),
          fun h => absurd (hn0.mpr ⟨hpos, h⟩) (Nat.lt_irrefl 0)⟩
    · rw [if_neg h0]
      refine ⟨⟨hem.trans (Emits.startWriting _), ok_file hs hf fun hin => ?_, isFile_file hf,
        ?_, ?_, ?_⟩, ?_⟩
      · have := hr hin
        simp only
        omega
      · intro hne
        rw [fileBuffer_startWriting] at hne
        exact absurd hfb hne
      · rw [sent_startWriting, fileBuffer_startWriting, pending_advance hs hf hn]
        simp [Conn.sent, sentOf, hfb]
      · intro _ _
        exact isWriting_startWriting _
      · intro hpos _
        have : 0 < n := by omega
        exact ⟨fun _ => (hn0.mp this).2, fun _ => isWriting_startWriting _⟩
  · rw [heq]
    simp only
    by_cases hfatal : e ≠ .wouldBlock ∧ c.channel.isWriting = true
    · rw [if_pos hfatal]
      refine ⟨fileSent_idle hok (isFile_file hf) hfb
        ((Emits.env hnf).trans (Emits.channel _ _)) hfb rfl ?_, ?_⟩
      · intro h
        exact absurd (he h) hfatal.1
      · intro _ hw
        rw [hfatal.2] at hw
        cases hw
    · rw [if_neg hfatal]
      refine ⟨fileSent_idle hok (isFile_file hf) hfb (Emits.env hnf) hfb rfl fun _ hw => hw, ?_⟩
      intro _ hw
      exact ⟨fun h => absurd h (by simp [hw]), fun h => absurd h.2 hno⟩

theorem sendFileInLoop_stream (hs : node.streamCallback = some chunks)
    (hstaged : c.fileBuffer ≠ [] → 0 < node.fileBytesToSend) :
    Post (fun _ => False) (StreamSent inside c node) (c.sendFileInLoop node) := by
  unfold sendFileInLoop
  simp only [hs]
  refine streamLoop_spec hs hstaged ?_
  simp only [streamFuel, hs, Option.getD_some]
  split <;> omega

theorem sendFileInLoop_spec (hok : node.Ok inside) (hf : node.isFile = true)
    (hstaged : c.fileBuffer ≠ [] → node.Streaming) :
    Post (fun _ => False) (fun r => FileSent inside c node r.1 r.2) (c.sendFileInLoop node) := by
  rcases hok.cases with ⟨chunks, hs⟩ | ⟨file, hs, hfd, hr⟩ | ⟨b, hs, hfd, -, -⟩
  · exact (sendFileInLoop_stream hs fun hne => (hstaged hne).2).mono (fun _ hf => hf)
      fun r hr => hr.1
  · have hfb : c.fileBuffer = [] := by
      by_contra hne
      have := (hstaged hne).1
      rw [hs] at this
      cases this
    exact (sendFileInLoop_range hs hfd hr hfb).mono (fun _ hf => hf) fun r hr => hr.1
  · simp [BufferNode.isFile, hs, hfd] at hf

/-- The first attempt on a node gives it write interest: always for a
stream, and for a file if the kernel takes some bytes of it. -/
def Starts (c : Conn) (node : BufferNode) : Prop :=
  node.streamCallback.isSome ∨ (∀ file ∈ node.sendFd, node.offset < file.length) ∧ c.TakesSome

theorem starts_iff (hok : node.Ok True) (hpos : 0 < node.fileBytesToSend) :
    c.Starts node ↔ node.streamCallback.isSome ∨ c.TakesSome := by
  refine or_congr_right' fun hs => and_iff_right fun file hf => ?_
  have hr : node.offset + node.fileBytesToSend ≤ file.length := by
    rcases hok.cases with ⟨chunks, hs'⟩ | ⟨file', -, hf', hr⟩ | ⟨b, -, hf', -, -⟩
    · simp [hs'] at hs
    · obtain rfl : file' = file := Option.some.inj (hf'.symm.trans hf)
      exact hr trivial
    · simp [hf'] at hf
  omega

theorem sendFileFront_writing (rest : List BufferNode) (hok : node.Ok inside)
    (hf : node.isFile = true) (hfb : c.fileBuffer = []) :
    Post (fun _ => False)
      (fun c' => 0 < node.fileBytesToSend → c.NonFatal → c.channel.isWriting = false →
        (c'.channel.isWriting = true ↔ c.Starts node))
      (c.sendFileFront node rest) := by
  unfold sendFileFront Starts
  rcases hok.cases with ⟨chunks, hs⟩ | ⟨file, hs, hfd, hr⟩ | ⟨b, hs, hfd, -, -⟩
  · have hsent : Post _ (StreamSent inside c node) _ :=
      sendFileInLoop_stream hs fun hne => absurd hfb hne
    refine hsent.bind fun r hr => ?_
    intro _ hnf _
    simp only [hs, Option.isSome_some, true_or, iff_true]
    exact hr.2 hnf
  · refine Post.bind (sendFileInLoop_range hs hfd hr hfb) fun r hr => ?_
    intro hpos _ hw
    simp only [hs, hfd, Option.isSome_none, Bool.false_eq_true, false_or, Option.mem_def,
      Option.some.injEq, forall_eq']
    exact hr.2 hpos hw
  · simp [BufferNode.isFile, hs, hfd] at hf

end Conn

/-! ## The functions of the write path keep the flow -/

namespace Flow

open Conn

variable {inside : Prop} {c c' : Conn} {P : List Byte} {node : BufferNode} {rest : List BufferNode}

theorem congr (h : Flow inside c P) (hlist : c'.writeBufferList = c.writeBufferList)
    (hfb : c'.fileBuffer = c.fileBuffer) (hw : c'.channel.isWriting = c.channel.isWriting)
    (hsent : c'.sent = c.sent) : Flow inside c' P where
  nodes := by rw [hlist]; exact h.nodes
  staged := by rw [hfb, hlist]; exact h.staged
  writing := by rw [hw, hlist]; exact h.writing
  conserved := by
    unfold Conn.pending
    rw [hsent, hfb, hlist]
    exact h.conserved

theorem push (h : Flow inside c P) (f : Frame) : Flow inside (c.push f) P :=
  h.congr rfl rfl rfl rfl

theorem invoke (h : Flow inside c P) (isSet : Bool) {e : Event} (he : ∀ xs, e ≠ .sent xs) :
    Flow inside (c.invoke isSet e) P := by
  obtain ⟨evs, htr, hevs⟩ := c.invoke_trace isSet e
  refine h.congr (by simp) (by simp) (by simp) ?_
  unfold Conn.sent
  have hnil : sentOf evs = [] := sentOf_eq_nil fun e' he' => by
    rw [hevs e' he']
    exact he
  rw [htr, sentOf_append, hnil, List.append_nil]

theorem log (h : Flow inside c P) (xs : List Byte) : Flow inside (c.log (.accept xs)) P := by
  refine h.congr rfl rfl rfl ?_
  simp [Conn.sent, Conn.log, sentOf]

theorem fileBuffer_nil (h : Flow inside c P)
    (hn : ∀ node rest, c.writeBufferList = node :: rest → ¬ node.Streaming) :
    c.fileBuffer = [] := by
  by_contra hne
  obtain ⟨node, rest, hl, hst⟩ := h.staged hne
  exact hn node rest hl hst

theorem fileBuffer_nil_of_front (h : Flow inside c P) (hl : c.writeBufferList = node :: rest)
    (hn : ¬ node.Streaming) : c.fileBuffer = [] :=
  h.fileBuffer_nil fun n r hl' => by
    rw [hl] at hl'
    cases hl'
    exact hn

theorem front_ok (h : Flow inside c P) (hl : c.writeBufferList = node :: rest) :
    node.Ok inside :=
  h.nodes node (by rw [hl]; exact List.mem_cons_self)

theorem nodes_cons {node' : BufferNode} (h : Flow inside c P)
    (hl : c.writeBufferList = node :: rest) (hok : node'.Ok inside) :
    ∀ n ∈ node' :: rest, n.Ok inside := by
  intro n hn
  rcases List.mem_cons.mp hn with rfl | hn
  · exact hok
  · exact h.nodes n (by rw [hl]; exact List.mem_cons_of_mem _ hn)

theorem staged_front (h : Flow inside c P) (hl : c.writeBufferList = node :: rest) :
    c.fileBuffer ≠ [] → node.Streaming := by
  intro hne
  obtain ⟨n, r, hl', hs⟩ := h.staged hne
  rw [hl] at hl'
  cases hl'
  exact hs

theorem fileSent {node' : BufferNode} (h : Flow inside c P)
    (hl : c.writeBufferList = node :: rest) (hr : FileSent inside c node c' node') :
    Flow inside { c' with writeBufferList := node' :: rest } P := by
  refine ⟨h.nodes_cons hl hr.ok, ?_, fun _ => List.cons_ne_nil _ _, ?_⟩
  · intro hne
    exact ⟨node', rest, rfl, hr.staged hne⟩
  · have hc := h.conserved
    have hfl := hr.flow
    unfold Conn.pending at hc ⊢
    rw [hl, List.flatMap_cons, ← List.append_assoc c.fileBuffer, ← List.append_assoc c.sent,
      ← hfl] at hc
    simp only [List.flatMap_cons]
    rw [← hc]
    simp only [List.append_assoc]
    rfl

theorem sendFileFront (h : Flow inside c P) (hl : c.writeBufferList = node :: rest)
    (hf : node.isFile = true) :
    Post (fun _ => False)
      (fun c' => Flow inside c' P ∧ Writes c c') (c.sendFileFront node rest) := by
  have hok := h.front_ok hl
  refine Post.bind (sendFileInLoop_spec hok hf (h.staged_front hl)) fun r hr => ?_
  exact ⟨h.fileSent hl hr, List.cons_ne_nil _ _, hr.emits.list _, hr.keeps⟩

theorem not_streaming_of_msg (hf : node.isFile = false) : ¬ node.Streaming := by
  rintro ⟨hs, -⟩
  simp [BufferNode.isFile, hs] at hf

theorem writeFront (h : Flow inside c P) (hl : c.writeBufferList = node :: rest)
    (hf : node.isFile = false) :
    Post (fun _ => False) (fun c' => Flow inside c' P ∧ Writes c c')
      (c.writeFront node rest) := by
  have hok := h.front_ok hl
  obtain ⟨b, hs, hfd, hb, hsz⟩ := hok.msg hf
  have hfb := h.fileBuffer_nil_of_front hl (not_streaming_of_msg hf)
  have hc := h.conserved
  simp only [Conn.pending, hfb, hl, List.flatMap_cons, List.nil_append,
    BufferNode.pending_msg hs hfd hb] at hc
  unfold Conn.writeFront
  simp only [hb]
  rw [hsz.load_all, ok_bind]
  obtain ⟨env, hnf, ⟨n, total, hn, heq⟩ | ⟨e, heq, -⟩⟩ := c.writeInLoop_cases b.bytes
  · rw [heq]
    have hbe := hsz.retrieve n fun _ => hsz.shrunkSize_ge
    have hok' : ({ node with msgBuffer := some (b.retrieve n) } : BufferNode).Ok inside := by
      simp only [BufferNode.Ok, hs, hfd]
      exact ⟨_, rfl, hbe.sized hsz⟩
    refine ⟨⟨h.nodes_cons hl hok', fun hne => absurd hfb hne, fun _ => List.cons_ne_nil _ _, ?_⟩,
      List.cons_ne_nil _ _, (Emits.sent hnf total _).list _, fun _ hw => hw⟩
    have hp : ({ node with msgBuffer := some (b.retrieve n) } : BufferNode).pending
        = (b.retrieve n).bytes := BufferNode.pending_msg hs hfd rfl
    simp only [Conn.pending, hfb, List.nil_append, List.flatMap_cons, hp]
    rw [hbe.bytes_eq, ← hc]
    simp only [Conn.sent, sentOf_sent, List.append_assoc]
    rw [← List.append_assoc (b.bytes.take n), List.take_append_drop]
  · rw [heq]
    refine ⟨h.congr rfl rfl rfl rfl, ?_, ?_, fun _ hw => hw⟩
    · simp only [hl]
      exact List.cons_ne_nil _ _
    · exact Emits.env hnf

theorem sendNext (h : Flow inside c P) (hne : c.writeBufferList ≠ []) :
    Post (fun _ => False) (fun c' => Flow inside c' P ∧ Writes c c') c.sendNext := by
  unfold Conn.sendNext
  cases hl : c.writeBufferList with
  | nil => exact absurd hl hne
  | cons node rest =>
      simp only
      by_cases hf : node.isFile = true
      · rw [if_pos hf]
        exact h.sendFileFront hl hf
      · rw [if_neg hf]
        exact h.writeFront hl (by simpa using hf)

theorem pop (h : Flow inside c P) (hl : c.writeBufferList = node :: rest) (hp : node.pending = [])
    (hfb : c.fileBuffer = []) {ch : Channel} (hw : ch.isWriting = true → rest ≠ []) :
    Flow inside { c with writeBufferList := rest, channel := ch } P where
  nodes n hn := h.nodes n (by rw [hl]; exact List.mem_cons_of_mem _ hn)
  staged hne := absurd hfb hne
  writing := hw
  conserved := by
    have hc := h.conserved
    simp only [Conn.pending, hfb, hl, List.flatMap_cons, hp, List.nil_append] at hc ⊢
    exact hc

theorem popFront (h : Flow inside c P) (hl : c.writeBufferList = node :: rest)
    (hp : node.pending = []) (hfb : c.fileBuffer = []) (hw : c.channel.isWriting = true) :
    Post (fun _ => False) (fun c' => Flow inside c' P ∧ HandleWrites c c') (c.popFront rest) := by
  unfold Conn.popFront
  by_cases hr : rest = []
  · subst hr
    simp only [if_true]
    refine ⟨?_, .drained hw ?_⟩
    · have hpop : Flow inside
          { c with writeBufferList := [], channel := c.channel.disableWriting } P :=
        h.pop hl hp hfb (by simp)
      exact (hpop.push _).invoke _ (by simp)
    · simp [Conn.pending, hl, hp, hfb]
  · simp only [if_neg hr]
    refine Post.mono (sendNext (h.pop hl hp hfb fun _ => hr) hr) (fun _ hf => hf) ?_
    rintro c' ⟨hfl, hwr⟩
    exact ⟨hfl, .wrote hw hwr⟩

theorem extendLife (h : Flow inside c P) : Flow inside c.extendLife P := by
  obtain ⟨t, evs, heq, hevs⟩ := c.extendLife_eq
  refine h.congr ?_ ?_ ?_ ?_ <;> rw [heq]
  unfold Conn.sent
  have hnil : sentOf evs = [] := sentOf_eq_nil fun e he xs => by
    rw [hevs e he]
    exact Event.noConfusion
  simp only [sentOf_append, hnil, List.append_nil]

theorem handleWrite (h : Flow inside c P) :
    Post (fun _ => False) (fun c' => Flow inside c' P ∧ HandleWrites c.extendLife c')
      c.handleWrite := by
  have hx := h.extendLife
  rw [handleWrite_eq]
  generalize c.extendLife = c at hx
  by_cases hw : c.channel.isWriting = true
  · rw [if_neg (by simp [hw])]
    cases hl : c.writeBufferList with
    | nil => exact absurd hl (hx.writing hw)
    | cons node rest =>
        have hok := hx.front_ok hl
        simp only
        by_cases hdone : node.finished = true
        · rw [if_pos hdone]
          have hfb := hx.fileBuffer_nil_of_front hl (BufferNode.not_streaming_of_finished hdone)
          exact hx.popFront hl (hok.pending_finished hdone) hfb hw
        · rw [if_neg hdone]
          have hne : c.writeBufferList ≠ [] := by simp [hl]
          exact (hx.sendNext hne).mono (fun _ hf => hf) fun c' hc => ⟨hc.1, .wrote hw hc.2⟩
  · rw [if_pos (by simpa using hw)]
    exact ⟨hx, .idle (by simpa using hw)⟩

/-! ## Sending -/

theorem pending_nil (h : Flow inside c P) (hl : c.writeBufferList = []) :
    c.fileBuffer = [] ∧ c.sent = P := by
  have hfb := h.fileBuffer_nil fun n r hl' => by rw [hl] at hl'; cases hl'
  have hc := h.conserved
  simp only [Conn.pending, hfb, hl, List.flatMap_nil, List.append_nil] at hc
  exact ⟨hfb, hc⟩

/-- Extend the list at its back; the front of a list with staged bytes
stays. -/
theorem back (h : Flow inside c P) {list : List BufferNode} {xs : List Byte}
    (hok : ∀ n ∈ list, n.Ok inside) (hne : list ≠ [])
    (hfront : ∀ node rest, c.writeBufferList = node :: rest → node.Streaming →
      ∃ rest', list = node :: rest')
    (hp : list.flatMap BufferNode.pending = c.writeBufferList.flatMap BufferNode.pending ++ xs) :
    Flow inside { c with writeBufferList := list } (P ++ xs) where
  nodes := hok
  staged hfb := by
    obtain ⟨node, rest, hl, hst⟩ := h.staged hfb
    obtain ⟨rest', hl'⟩ := hfront node rest hl hst
    exact ⟨node, rest', hl', hst⟩
  writing _ := hne
  conserved := by
    rw [← h.conserved]
    simp only [Conn.pending, hp, List.append_assoc]
    rfl

theorem append (h : Flow inside c P) (hok : node.Ok inside) :
    Flow inside { c with writeBufferList := c.writeBufferList ++ [node] }
      (P ++ node.pending) := by
  refine h.back ?_ (by simp) ?_ (by simp)
  · intro n hn
    rcases List.mem_append.mp hn with hn | hn
    · exact h.nodes n hn
    · obtain rfl := List.mem_singleton.mp hn
      exact hok
  · intro n r hl _
    exact ⟨r ++ [node], by rw [hl]; rfl⟩

theorem startWriting (h : Flow inside c P) (hne : c.writeBufferList ≠ []) :
    Flow inside c.startWriting P := by
  obtain ⟨ch, hch⟩ := c.startWriting_eq
  rw [hch]
  exact ⟨h.nodes, h.staged, fun _ => hne, h.conserved⟩

/-- `sendFile` and `sendStream` append their node. If it is the only one
it is started: write interest is then on for a stream, and for a file
exactly if the kernel takes some bytes of it. -/
theorem pushNode (h : Flow inside c P) (hok : node.Ok inside) (hf : node.isFile = true) :
    Post (fun _ => False)
      (fun c' => Flow inside c' (P ++ node.pending) ∧ Writes c c' ∧
        (c.writeBufferList = [] → 0 < node.fileBytesToSend → c.NonFatal →
          c.channel.isWriting = false →
          (c'.channel.isWriting = true ↔ c.Starts node)))
      (c.pushNode node) := by
  have happ := h.append hok
  by_cases hl : c.writeBufferList = []
  · have hfb := (h.pending_nil hl).1
    rw [hl, List.nil_append] at happ
    have hwr := sendFileFront_writing (c := { c with writeBufferList := [node] }) [] hok hf hfb
    rw [pushNode_nil hl]
    exact ((happ.sendFileFront rfl hf).and hwr).mono (fun _ hf => hf) fun c' hc =>
      ⟨hc.1.1, hc.1.2, fun _ => hc.2⟩
  · rw [pushNode_of_ne_nil hl]
    exact ⟨happ, ⟨by simp, Emits.refl _, fun _ hw => hw⟩, fun hnil => absurd hnil hl⟩

theorem ok_msgNode {b : MessageBuffer} (hb : Sized b) : (msgNode b).Ok inside := ⟨b, rfl, hb⟩

theorem pushRest {xs : List Byte} {init : List BufferNode} (h : Flow inside c P)
    (hl : c.writeBufferList = init ++ [node]) (hf : node.isFile = false)
    (hx : xs.length ≤ kAllocLimit) :
    Post (· = .badAlloc) (fun c' => Flow inside c' (P ++ xs) ∧ Queues c c') (c.pushRest xs) := by
  have hok : node.Ok inside := h.nodes node (by simp [hl])
  obtain ⟨b, hs, hfd, hb, hsz⟩ := hok.msg hf
  unfold Conn.pushRest
  simp only [hl, List.getLast?_append, List.getLast?_singleton, Option.some_or, hb,
    List.dropLast_concat]
  refine Post.bind ((hsz.pushBack hx).mono (fun _ he => he.1) fun _ hbe => hbe) fun b'' hbe => ?_
  have hok' : ({ node with msgBuffer := some b'' } : BufferNode).Ok inside := by
    simp only [BufferNode.Ok, hs, hfd]
    exact ⟨b'', rfl, hbe.sized hsz⟩
  have hp' : ({ node with msgBuffer := some b'' } : BufferNode).pending = b.bytes ++ xs := by
    rw [← hbe.bytes_eq]
    exact BufferNode.pending_msg hs hfd rfl
  have hflow : Flow inside { c with
      writeBufferList := init ++ [{ node with msgBuffer := some b'' }] } (P ++ xs) := by
    refine h.back ?_ (by simp) ?_ ?_
    · intro n hn
      rcases List.mem_append.mp hn with hn | hn
      · exact h.nodes n (by simp [hl, hn])
      · obtain rfl := List.mem_singleton.mp hn
        exact hok'
    · intro n r hl' hst
      rw [hl] at hl'
      cases init with
      | nil =>
          cases hl'
          exact absurd hst (not_streaming_of_msg hf)
      | cons m ms =>
          cases hl'
          exact ⟨ms ++ [{ node with msgBuffer := some b'' }], rfl⟩
    · simp only [hl, List.flatMap_append, List.flatMap_cons, List.flatMap_nil, List.append_nil, hp',
        BufferNode.pending_msg hs hfd hb, List.append_assoc]
  have hst := hflow.startWriting (by simp)
  split
  · exact ⟨hst.invoke _ (by simp), _, _, _, by simp, rfl⟩
  · exact ⟨hst, _, false, 0, by simp, rfl⟩

theorem withMsgBack (h : Flow inside c P) :
    ∃ list init node, c.withMsgBack = .ok { c with writeBufferList := list } ∧
      list = init ++ [node] ∧ node.isFile = false ∧
      Flow inside { c with writeBufferList := list } P := by
  unfold Conn.withMsgBack
  by_cases hall : c.writeBufferList.getLast?.all (·.isFile) = true
  · rw [if_pos hall]
    obtain ⟨b, hnew, hfr⟩ := new_default
    refine ⟨c.writeBufferList ++ [msgNode b], c.writeBufferList, msgNode b, ?_, rfl, rfl, ?_⟩
    · rw [hnew]
      rfl
    · have hp : (msgNode b).pending = [] := by
        rw [BufferNode.pending_msg rfl rfl rfl, hfr.bytes_eq]
      have happ := h.append (ok_msgNode (hfr.sized (by decide)))
      rwa [hp, List.append_nil] at happ
  · rw [if_neg hall]
    cases hl : c.writeBufferList.getLast? with
    | none => simp [hl] at hall
    | some back =>
        refine ⟨c.writeBufferList, c.writeBufferList.dropLast, back, rfl, ?_, ?_, h⟩
        · exact (List.dropLast_append_getLast? back hl).symm
        · simpa [hl] using hall

theorem queueRest {xs : List Byte} {n : Nat} (h : Flow inside c (P ++ xs.take n))
    (hx : xs.length ≤ kAllocLimit) (hst : c.status = .connected) :
    Post (· = .badAlloc) (fun c' => Flow inside c' (P ++ xs) ∧ (c' = c ∨ Queues c c'))
      (c.queueRest xs n) := by
  unfold Conn.queueRest
  by_cases hn : xs.length - n > 0
  · rw [if_pos ⟨hn, hst⟩]
    obtain ⟨list, init, node, heq, hl, hf, hfl⟩ := h.withMsgBack
    rw [heq, ok_bind]
    have hdrop : (xs.drop n).length ≤ kAllocLimit := by rw [List.length_drop]; omega
    refine (hfl.pushRest hl hf hdrop).mono (fun _ he => he) fun c' hc => ⟨?_, Or.inr ?_⟩
    · have hfl' := hc.1
      rwa [List.append_assoc, List.take_append_drop] at hfl'
    · obtain ⟨list', isSet, m, hne, rfl⟩ := hc.2
      exact ⟨list', isSet, m, hne, rfl⟩
  · rw [if_neg (fun hc => hn hc.1)]
    rw [List.take_of_length_le (by omega)] at h
    exact ⟨h, Or.inl rfl⟩

/-- `sendInLoop` on a connected connection: the payload goes behind
everything accepted before. A fatal error of the direct write loses it. -/
theorem sendInLoop {xs : List Byte} (h : Flow inside c P) (hx : xs.length ≤ kAllocLimit)
    (hst : c.status = .connected) :
    Post (· = .badAlloc)
      (fun c' => SendsInLoop (c.log (.accept xs)).extendLife c' ∧ (∃ P', Flow inside c' P') ∧
        (c.KeepsPayload xs → Flow inside c' (P ++ xs))) (c.sendInLoop xs) := by
  have hlog : Flow inside (c.log (.accept xs)).extendLife P := (h.log xs).extendLife
  obtain ⟨t, evs, heq, -⟩ := (c.log (.accept xs)).extendLife_eq
  have hst' : (c.log (.accept xs)).extendLife.status = .connected := by rw [heq]; exact hst
  have hkeep' : c.KeepsPayload xs → (c.log (.accept xs)).extendLife.KeepsPayload xs := by
    rw [heq]
    exact id
  unfold Conn.sendInLoop
  rw [if_neg (by simp [hst])]
  simp only
  generalize (c.log (.accept xs)).extendLife = c₁ at hlog hst' hkeep'
  have hqueue : ∀ {c₂ : Conn} {n : Nat}, Emits c₁ c₂ → c₂.channel = c₁.channel →
      Flow inside c₂ (P ++ xs.take n) → c₂.status = .connected →
      Post (· = .badAlloc) (fun c' => SendsInLoop c₁ c' ∧ (∃ P', Flow inside c' P') ∧
        (c.KeepsPayload xs → Flow inside c' (P ++ xs))) (c₂.queueRest xs n) := by
    intro c₂ n hem hch hfl hst₂
    refine (hfl.queueRest hx hst₂).mono (fun _ he => he) fun c' hc => ?_
    refine ⟨?_, ⟨_, hc.1⟩, fun _ => hc.1⟩
    rcases hc.2 with rfl | hq
    · exact .direct hem hch
    · exact .queued hem hch hq
  by_cases hd : (!c₁.channel.isWriting && c₁.writeBufferList.isEmpty) = true
  · rw [if_pos hd]
    obtain ⟨hw, hl⟩ : c₁.channel.isWriting = false ∧ c₁.writeBufferList = [] := by
      simpa using hd
    obtain ⟨env, hnf, ⟨n, total, hn, heq⟩ | ⟨e, heq, -⟩⟩ := c₁.writeInLoop_cases xs
    · rw [heq]
      refine hqueue (Emits.sent hnf total _) rfl ?_ hst'
      obtain ⟨hfb, hsent⟩ := hlog.pending_nil hl
      refine ⟨hlog.nodes, hlog.staged, hlog.writing, ?_⟩
      simp only [Conn.pending, hfb, hl, List.flatMap_nil, List.append_nil]
      rw [← hsent]
      exact sentOf_sent _ _
    · rw [heq]
      have henv : Flow inside { c₁ with env := env } P := hlog.congr rfl rfl rfl rfl
      by_cases hfatal : writeSocketError e = true
      · simp only [if_pos hfatal]
        refine ⟨.direct (Emits.env hnf) rfl, ⟨_, henv⟩, fun hkeep => ?_⟩
        by_cases hxs : xs = []
        · rw [hxs, List.append_nil]
          exact henv
        · have hfirst := head_of_fatal (congrArg Prod.fst heq) hfatal
          have hno := hkeep' hkeep hxs hw hl
          rw [hfirst] at hno
          simp [IoResult.isFatal, hfatal] at hno
      · simp only [if_neg hfatal]
        refine hqueue (Emits.env hnf) rfl ?_ hst'
        simpa using henv
  · rw [if_neg hd]
    refine hqueue (Emits.refl c₁) rfl ?_ hst'
    simpa using hlog

end Flow

end Netpoll
