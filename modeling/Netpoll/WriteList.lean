import Netpoll.Connection
import Netpoll.Post

/-!
# The write list around another `sendFileInLoop`

`sendFile`, `sendStream` and `handleWrite` run `sendFileInLoop` on the front
node of the write list. What that does depends on the build, and on how
closely one looks: a stream callback is user code, in the middle of the
function. Here the functions around it take it as a parameter `run`, which
also has data of its own to pass on. With the `sendFileInLoop` of
`Connection.lean` they are the functions there.
-/

namespace Netpoll

namespace Conn

section callers

variable {α : Type} (run : Conn → α → BufferNode → List BufferNode → Except Fault (Conn × α))

def sendNextWith (c : Conn) (a : α) : Except Fault (Conn × α) :=
  match c.writeBufferList with
  | [] => .error .assertion
  | node :: rest =>
      if node.isFile then run c a node rest
      else do
        let c ← c.writeFront node rest
        return (c, a)

def popFrontWith (c : Conn) (a : α) (rest : List BufferNode) : Except Fault (Conn × α) :=
  let c := { c with writeBufferList := rest }
  if rest = [] then
    let c := { c with channel := c.channel.disableWriting }
    .ok ((c.push .handleWriteRest).invoke c.callbacks.writeComplete .writeComplete, a)
  else c.sendNextWith run a

def handleWriteWith (c : Conn) (a : α) : Except Fault (Conn × α) :=
  let c := c.extendLife
  if !c.channel.isWriting then .ok (c, a)
  else
    match c.writeBufferList with
    | [] => .error .assertion
    | node :: rest =>
        if node.isFile then
          if node.fileBytesToSend ≤ 0 then c.popFrontWith run a rest else run c a node rest
        else
          match node.msgBuffer with
          | none => .error .nullPointer
          | some b =>
              if b.readableBytes ≤ 0 then c.popFrontWith run a rest
              else do
                let c ← c.writeFront node rest
                return (c, a)

def pushNodeWith (c : Conn) (a : α) (node : BufferNode) : Except Fault (Conn × α) :=
  let c := { c with writeBufferList := c.writeBufferList ++ [node] }
  match c.writeBufferList with
  | [front] => run c a front []
  | _ => .ok (c, a)

/-- `sendFile(int sfd, size_t offset, size_t length)`. -/
def sendFileWith (c : Conn) (a : α) (file : List Byte) (offset length : Nat) :
    Except Fault (Conn × α) :=
  if length > 0 then
    (c.log (.accept (slice file offset (offset + length)))).pushNodeWith run a
      { sendFd := some file, offset, fileBytesToSend := length, streamCallback := none,
        msgBuffer := none }
  else .error .assertion

def sendStreamWith (c : Conn) (a : α) (callback : Option (List Chunk)) :
    Except Fault (Conn × α) :=
  (c.log (.accept (streamPayload (callback.getD [])))).pushNodeWith run a
    { sendFd := none, offset := 0, fileBytesToSend := 1, streamCallback := callback,
      msgBuffer := none }

/-! What `run` keeps about its data, the functions around it keep. -/

def KeepsData (Q : α → Prop) : Prop :=
  ∀ c a node rest, Q a → Post (fun _ => True) (fun r => Q r.2) (run c a node rest)

variable {run} {Q : α → Prop}

theorem sendNextWith_data (hrun : KeepsData run Q) (c : Conn) {a : α} (ha : Q a) :
    Post (fun _ => True) (fun r => Q r.2) (c.sendNextWith run a) := by
  unfold sendNextWith
  split
  · trivial
  · split
    · exact hrun _ _ _ _ ha
    · exact (Post.true _).bind fun _ _ => ha

theorem popFrontWith_data (hrun : KeepsData run Q) (c : Conn) {a : α} (ha : Q a)
    (rest : List BufferNode) :
    Post (fun _ => True) (fun r => Q r.2) (c.popFrontWith run a rest) := by
  unfold popFrontWith
  simp only
  split
  · exact ha
  · exact sendNextWith_data hrun _ ha

theorem handleWriteWith_data (hrun : KeepsData run Q) (c : Conn) {a : α} (ha : Q a) :
    Post (fun _ => True) (fun r => Q r.2) (c.handleWriteWith run a) := by
  unfold handleWriteWith
  simp only
  split
  · exact ha
  · split
    · trivial
    · split
      · split
        · exact popFrontWith_data hrun _ ha _
        · exact hrun _ _ _ _ ha
      · split
        · trivial
        · split
          · exact popFrontWith_data hrun _ ha _
          · exact (Post.true _).bind fun _ _ => ha

theorem pushNodeWith_data (hrun : KeepsData run Q) (c : Conn) {a : α} (ha : Q a)
    (node : BufferNode) :
    Post (fun _ => True) (fun r => Q r.2) (c.pushNodeWith run a node) := by
  unfold pushNodeWith
  simp only
  split
  · exact hrun _ _ _ _ ha
  · exact ha

end callers

/-! ## The Linux build -/

/-- `sendFileInLoop` as the connection runs it, with nothing to pass on. -/
def runLinux (c : Conn) (_ : Unit) (node : BufferNode) (rest : List BufferNode) :
    Except Fault (Conn × Unit) := do
  let c ← c.sendFileFront node rest
  return (c, ())

theorem sendNextWith_linux (c : Conn) :
    c.sendNextWith runLinux () = do let c ← c.sendNext; return (c, ()) := by
  unfold sendNextWith sendNext
  cases c.writeBufferList with
  | nil => rfl
  | cons node rest => cases h : node.isFile <;> simp only [h] <;> rfl

theorem popFrontWith_linux (c : Conn) (rest : List BufferNode) :
    c.popFrontWith runLinux () rest = do let c ← c.popFront rest; return (c, ()) := by
  unfold popFrontWith popFront
  by_cases h : rest = []
  · simp only [if_pos h]
    rfl
  · simp only [if_neg h]
    exact sendNextWith_linux _

theorem handleWriteWith_linux (c : Conn) :
    c.handleWriteWith runLinux () = do let c ← c.handleWrite; return (c, ()) := by
  unfold handleWriteWith handleWrite
  cases hw : c.extendLife.channel.isWriting with
  | false => simp only [hw]; rfl
  | true =>
      simp only [hw]
      cases c.extendLife.writeBufferList with
      | nil => rfl
      | cons node rest =>
          cases hf : node.isFile with
          | true =>
              by_cases h0 : node.fileBytesToSend ≤ 0
              · simp only [hf, h0, if_true]
                exact popFrontWith_linux ..
              · simp only [hf, h0, if_false]
                rfl
          | false =>
              cases hb : node.msgBuffer with
              | none => simp only [hf, hb]; rfl
              | some b =>
                  by_cases h0 : b.readableBytes ≤ 0
                  · simp only [hf, hb, h0, if_true]
                    exact popFrontWith_linux ..
                  · simp only [hf, hb, h0, if_false]
                    rfl

theorem pushNodeWith_linux (c : Conn) (node : BufferNode) :
    c.pushNodeWith runLinux () node = do let c ← c.pushNode node; return (c, ()) := by
  unfold pushNodeWith pushNode
  simp only
  rcases c.writeBufferList ++ [node] with _ | ⟨front, _ | ⟨next, rest⟩⟩ <;> rfl

end Conn

end Netpoll
