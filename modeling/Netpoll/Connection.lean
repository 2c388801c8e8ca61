import Netpoll.Channel
import Netpoll.Runs

/-!
# `TcpConnectionImpl` on its loop thread

The connection of `net/inner/tcp_connection_impl.{h,cc}` (Linux build), as
the loop thread runs it with `m_sendNum` at 0: `send` is `sendInLoop`, and
`runInLoop` runs at once.

User callbacks are re-entrant: they may call the connection again before
the function that invoked them goes on. A function therefore runs up to
its callback and leaves the rest of itself as a `Frame`; `Frame.callback`
on top says that user code is running. `ConnStep` is one step of this
machine: a call by the user, a poll result, or the frame on top going on.

What the kernel answers is part of the step's label (`Env`): the results
of `write` and `sendfile` in order, of `readv`, and the clock. The trace
records what the connection does to the outside: every assignment of
`m_status`, every callback, every byte the kernel accepted, and every
payload taken over from the user.
-/

namespace Netpoll

inductive ConnStatus where
  | disconnected | connecting | connected | disconnecting
deriving Repr, DecidableEq

/-! ## The outside -/

/-- The values of `errno` that the code tells apart (`EAGAIN` is
`EWOULDBLOCK`). -/
inductive Errno where
  | wouldBlock | pipe | connReset | other
deriving Repr, DecidableEq

/-- `util::WriteSocketError`: anything but a full socket buffer. -/
def writeSocketError : Errno → Bool
  | .wouldBlock => false
  | _ => true

/-- An answer of `write` or `sendfile`; a count is cut to the request. -/
inductive IoResult where
  | count (n : Nat)
  | failed (e : Errno)
deriving Repr, DecidableEq

/-- An answer of `readv`; no data is the end of the stream. -/
inductive ReadResult where
  | data (xs : List Byte)
  | failed (e : Errno)
deriving Repr, DecidableEq

/-- What the outside answers during one step. Once `io` is used up the
socket buffer is full. `now` is in microseconds; the last two say whether
the weak pointers of `extendLife` can be locked. -/
structure Env where
  io : List IoResult
  read : ReadResult
  now : Nat
  entryAlive : Bool
  wheelAlive : Bool
deriving Repr, DecidableEq

/-- The capacity of `m_fileBufferPtr`. -/
def kFileBuffer : Nat := 16 * 1024

/-- One result of a stream callback: at most the size it was offered. -/
structure Chunk where
  bytes : List Byte
  fits : bytes.length ≤ kFileBuffer
deriving DecidableEq

/-- What a stream sends: it ends when a zero size is returned. -/
def streamPayload : List Chunk → List Byte
  | [] => []
  | x :: xs => if x.bytes.length = 0 then [] else x.bytes ++ streamPayload xs

/-- `BufferNode`. A descriptor stands for the contents of its file, a
stream callback for the results of its calls to come. -/
structure BufferNode where
  sendFd : Option (List Byte)
  offset : Nat
  fileBytesToSend : Nat
  streamCallback : Option (List Chunk)
  msgBuffer : Option MessageBuffer
deriving DecidableEq

/-- The length that `sendFile` is left with: 0 stands for the size of the
file. -/
def fileLength (file : List Byte) (length : Nat) : Nat :=
  if length = 0 then file.length else length

def BufferNode.isFile (node : BufferNode) : Bool :=
  node.streamCallback.isSome || node.sendFd.isSome

/-! ## The state -/

/-- Which callbacks are set; `highWaterMark` with its mark. -/
structure Callbacks where
  connection : Bool
  close : Bool
  recvMsg : Bool
  writeComplete : Bool
  highWaterMark : Option Nat
deriving Repr, DecidableEq

/-- What is observed of a connection. `connection up` tells what
`connected()` is when the connection callback is invoked. -/
inductive Event where
  | status (s : ConnStatus)
  | connection (up : Bool)
  | close
  | message (n : Nat)
  | writeComplete
  | highWaterMark (n : Nat)
  | closeWrite
  | accept (xs : List Byte)
  | sent (xs : List Byte)
  | insertEntry (timeout : Nat)
deriving Repr, DecidableEq

/-- What is left to do once the callback (or handler) above returns. -/
inductive Frame where
  | callback
  | dispatch (todo : List Handler)
  | handleWriteRest
  | handleCloseRest
  | extendLife
  | channelRemove
deriving Repr, DecidableEq

structure Conn where
  status : ConnStatus
  channel : Channel
  readBuffer : MessageBuffer
  writeBufferList : List BufferNode
  fileBuffer : List Byte
  callbacks : Callbacks
  bytesSent : Nat
  bytesReceived : Nat
  idleTimeout : Nat
  lastTimingWheelUpdateTime : Nat
  env : Env
  frames : List Frame
  trace : List Event
deriving DecidableEq

namespace Conn

/-- A connection as its constructor leaves it. -/
def new (readBuffer : MessageBuffer) (callbacks : Callbacks) (env : Env) : Conn :=
  { status := .connecting, channel := .new, readBuffer, writeBufferList := [], fileBuffer := [],
    callbacks, bytesSent := 0, bytesReceived := 0, idleTimeout := 0,
    lastTimingWheelUpdateTime := 0, env, frames := [], trace := [] }

def log (c : Conn) (e : Event) : Conn := { c with trace := c.trace ++ [e] }

def push (c : Conn) (f : Frame) : Conn := { c with frames := f :: c.frames }

def setStatus (c : Conn) (s : ConnStatus) : Conn := { c with status := s }.log (.status s)

/-- Invoke a callback if it is set: control goes to the user. -/
def invoke (c : Conn) (isSet : Bool) (e : Event) : Conn :=
  if isSet then (c.log e).push .callback else c

/-- `if (!isWriting()) enableWriting()`. -/
def startWriting (c : Conn) : Conn :=
  if c.channel.isWriting then c else { c with channel := c.channel.enableWriting }

def closeWrite (c : Conn) : Conn := c.log .closeWrite

/-- The kernel's next answer. -/
def nextIo (c : Conn) : IoResult × Conn :=
  match c.env.io with
  | [] => (.failed .wouldBlock, c)
  | r :: rs => (r, { c with env := { c.env with io := rs } })

def extendLife (c : Conn) : Conn :=
  if c.idleTimeout > 0 then
    if c.env.now < c.lastTimingWheelUpdateTime + 1000000 then c
    else
      let c := { c with lastTimingWheelUpdateTime := c.env.now }
      if c.env.entryAlive && c.env.wheelAlive then c.log (.insertEntry c.idleTimeout) else c
  else c

/-! ## Writing -/

def writeInLoop (c : Conn) (buffer : List Byte) : IoResult × Conn :=
  match c.nextIo with
  | (.count n, c) =>
      let nWritten := min n buffer.length
      (.count nWritten,
        { c with bytesSent := addSz c.bytesSent nWritten }.log (.sent (buffer.take nWritten)))
  | (.failed e, c) => (.failed e, c)

/-- `sendfile(fd, m_sendFd, &m_offset, fileBytesToSend_)`: the kernel
takes bytes from the file and moves the offset. -/
def sendfile (c : Conn) (file : List Byte) (filePtr : BufferNode) :
    IoResult × Conn × BufferNode :=
  match c.nextIo with
  | (.count n, c) =>
      let data := slice file filePtr.offset (filePtr.offset + min n filePtr.fileBytesToSend)
      (.count data.length, c.log (.sent data),
        { filePtr with offset := filePtr.offset + data.length })
  | (.failed e, c) => (.failed e, c, filePtr)

/-- Get the next chunk of a stream; an empty one ends it. -/
def fetch (c : Conn) (filePtr : BufferNode) : Conn × BufferNode :=
  match filePtr.streamCallback with
  | some (x :: xs) =>
      ({ c with fileBuffer := x.bytes },
        { filePtr with
          streamCallback := some xs
          fileBytesToSend := if x.bytes.length = 0 then 0 else filePtr.fileBytesToSend })
  | _ => ({ c with fileBuffer := [] }, { filePtr with fileBytesToSend := 0 })

/-- The write of one iteration of the stream case; a full write goes on
with `loop`. -/
def streamWrite (c : Conn) (filePtr : BufferNode)
    (loop : Conn → BufferNode → Except Fault (Conn × BufferNode)) :
    Except Fault (Conn × BufferNode) :=
  match c.writeInLoop c.fileBuffer with
  | (.count nWritten, c) =>
      if nWritten < c.fileBuffer.length then
        -- partial write: wait for the next call to continue
        .ok ({ c with fileBuffer := c.fileBuffer.drop nWritten }.startWriting, filePtr)
      else loop { c with fileBuffer := [] } filePtr
  | (.failed e, c) =>
      if writeSocketError e then .ok (c, filePtr) else .ok (c.startWriting, filePtr)

/-- The `while` loop of the stream case; `fuel` bounds its iterations. -/
def streamLoop : Nat → Conn → BufferNode → Except Fault (Conn × BufferNode)
  | 0, _, _ => .error .stackOverflow
  | fuel + 1, c, filePtr =>
    if filePtr.fileBytesToSend > 0 ∨ c.fileBuffer ≠ [] then
      let next := if c.fileBuffer = [] then c.fetch filePtr else (c, filePtr)
      if next.1.fileBuffer = [] then .ok (next.1.startWriting, next.2)
      else next.1.streamWrite next.2 (streamLoop fuel)
    else .ok (c.startWriting, filePtr)

/-- Enough iterations: one for what is staged, one for each chunk, and the
one that finds the end. -/
def streamFuel (filePtr : BufferNode) : Nat :=
  (filePtr.streamCallback.getD []).length + 2

def sendFileInLoop (c : Conn) (filePtr : BufferNode) : Except Fault (Conn × BufferNode) :=
  match filePtr.streamCallback, filePtr.sendFd with
  | none, some file =>
      match c.sendfile file filePtr with
      | (.failed e, c, filePtr) =>
          if e ≠ .wouldBlock ∧ c.channel.isWriting then
            .ok ({ c with channel := c.channel.disableWriting }, filePtr)
          else .ok (c, filePtr)
      | (.count bytesSent, c, filePtr) =>
          if bytesSent < filePtr.fileBytesToSend ∧ bytesSent = 0 then .ok (c, filePtr)
          else
            .ok (c.startWriting,
              { filePtr with fileBytesToSend := filePtr.fileBytesToSend - bytesSent })
  | some _, _ => streamLoop (streamFuel filePtr) c filePtr
  | none, none => .error .assertion

/-- Run `sendFileInLoop` on the front node. -/
def sendFileFront (c : Conn) (filePtr : BufferNode) (rest : List BufferNode) :
    Except Fault Conn := do
  let (c, filePtr) ← c.sendFileInLoop filePtr
  return { c with writeBufferList := filePtr :: rest }

/-- Write the readable bytes of the front message node; on any error the
node stays as it is. -/
def writeFront (c : Conn) (node : BufferNode) (rest : List BufferNode) : Except Fault Conn :=
  match node.msgBuffer with
  | none => .error .nullPointer
  | some b => do
      let data ← b.load b.head b.readableBytes
      match c.writeInLoop data with
      | (.count n, c) =>
          return { c with writeBufferList := { node with msgBuffer := some (b.retrieve n) } :: rest }
      | (.failed _, c) => return c

def sendNext (c : Conn) : Except Fault Conn :=
  match c.writeBufferList with
  | [] => .error .assertion
  | node :: rest => if node.isFile then c.sendFileFront node rest else c.writeFront node rest

/-- A finished front node is popped: all data has been processed, or the
next node is started. -/
def popFront (c : Conn) (rest : List BufferNode) : Except Fault Conn :=
  let c := { c with writeBufferList := rest }
  if rest = [] then
    let c := { c with channel := c.channel.disableWriting }
    .ok ((c.push .handleWriteRest).invoke c.callbacks.writeComplete .writeComplete)
  else c.sendNext

def handleWrite (c : Conn) : Except Fault Conn :=
  let c := c.extendLife
  if !c.channel.isWriting then .ok c
  else
    match c.writeBufferList with
    | [] => .error .assertion
    | node :: rest =>
        if node.isFile then
          if node.fileBytesToSend ≤ 0 then c.popFront rest else c.sendFileFront node rest
        else
          match node.msgBuffer with
          | none => .error .nullPointer
          | some b => if b.readableBytes ≤ 0 then c.popFront rest else c.writeFront node rest

/-- `handleWrite` after the write-complete callback. -/
def handleWriteRest (c : Conn) : Conn :=
  if c.status = .disconnecting then c.closeWrite else c

/-! ## Sending -/

/-- A message node with an empty buffer. -/
def msgNode (b : MessageBuffer) : BufferNode :=
  { sendFd := none, offset := 0, fileBytesToSend := 0, streamCallback := none, msgBuffer := some b }

/-- If the list is empty or ends in a file, a message node is added. -/
def withMsgBack (c : Conn) : Except Fault Conn :=
  if c.writeBufferList.getLast?.all (·.isFile) then do
    let b ← MessageBuffer.new kBufferDefaultLength
    return { c with writeBufferList := c.writeBufferList ++ [msgNode b] }
  else .ok c

/-- Append to the message node at the back and start listening for the
writable status; report too much data. -/
def pushRest (c : Conn) (buffer : List Byte) : Except Fault Conn :=
  match c.writeBufferList.getLast? with
  | none => .error .nullPointer
  | some back =>
    match back.msgBuffer with
    | none => .error .nullPointer
    | some b => do
        let b ← b.pushBack buffer
        let list := c.writeBufferList.dropLast ++ [{ back with msgBuffer := some b }]
        let c := { c with writeBufferList := list }.startWriting
        match c.callbacks.highWaterMark with
        | some markLen =>
            return c.invoke (b.readableBytes > markLen) (.highWaterMark b.readableBytes)
        | none => return c

/-- Case 2 of `sendInLoop`: queue what the socket did not take. -/
def queueRest (c : Conn) (buffer : List Byte) (sendLen : Nat) : Except Fault Conn :=
  if buffer.length - sendLen > 0 ∧ c.status = .connected then do
    let c ← c.withMsgBack
    c.pushRest (buffer.drop sendLen)
  else .ok c

def sendInLoop (c : Conn) (buffer : List Byte) : Except Fault Conn :=
  if c.status ≠ .connected then .ok c
  else
    let c := (c.log (.accept buffer)).extendLife
    let direct :=
      if !c.channel.isWriting && c.writeBufferList.isEmpty then c.writeInLoop buffer
      else (.count 0, c)
    match direct with
    | (.failed e, c) => if writeSocketError e then .ok c else c.queueRest buffer 0
    | (.count sendLen, c) => c.queueRest buffer sendLen

/-- What `sendFile` and `sendStream` do with their node. -/
def pushNode (c : Conn) (node : BufferNode) : Except Fault Conn :=
  let c := { c with writeBufferList := c.writeBufferList ++ [node] }
  match c.writeBufferList with
  | [front] => c.sendFileFront front []
  | _ => .ok c

/-- `sendFile(int sfd, size_t offset, size_t length)`. -/
def sendFileFd (c : Conn) (file : List Byte) (offset length : Nat) : Except Fault Conn :=
  if length > 0 then
    (c.log (.accept (slice file offset (offset + length)))).pushNode
      { sendFd := some file, offset, fileBytesToSend := length, streamCallback := none,
        msgBuffer := none }
  else .error .assertion

/-- `sendFile(fileName, offset, length)`: `none` if the file cannot be
opened. -/
def sendFile (c : Conn) (file : Option (List Byte)) (offset length : Nat) : Except Fault Conn :=
  match file with
  | none => .ok c
  | some file => c.sendFileFd file offset (fileLength file length)

def sendStream (c : Conn) (callback : Option (List Chunk)) : Except Fault Conn :=
  (c.log (.accept (streamPayload (callback.getD [])))).pushNode
    { sendFd := none, offset := 0, fileBytesToSend := 1, streamCallback := callback,
      msgBuffer := none }

/-! ## Reading and closing -/

def handleClose (c : Conn) : Conn :=
  let c := c.setStatus .disconnected
  let c := { c with channel := c.channel.disableAll }
  (c.push .handleCloseRest).invoke c.callbacks.connection (.connection (c.status == .connected))

/-- `handleClose` after the connection callback. -/
def handleCloseRest (c : Conn) : Conn := c.invoke c.callbacks.close .close

def handleRead (c : Conn) : Except Fault Conn :=
  let offer := match c.env.read with
    | .data xs => some xs
    | .failed _ => none
  match c.readBuffer.received offer, c.readBuffer.readFd offer with
  | _, (_, some f) => .error f
  | some data, (b, none) =>
      let c := { c with readBuffer := b }
      if data.length = 0 then .ok (c.push .extendLife).handleClose
      else
        let c := c.extendLife
        let c := { c with bytesReceived := addSz c.bytesReceived data.length }
        .ok (c.invoke c.callbacks.recvMsg (.message data.length))
  | none, (b, none) =>
      let c := { c with readBuffer := b }
      match c.env.read with
      | .failed .pipe | .failed .connReset | .failed .wouldBlock => .ok c
      | _ => .ok c.handleClose

/-- `handleError` only logs. -/
def handleError (c : Conn) : Conn := c

def connectEstablished (c : Conn) : Except Fault Conn :=
  if c.status = .connecting then
    let c := { c with channel := c.channel.enableReading }.setStatus .connected
    .ok (c.invoke c.callbacks.connection (.connection (c.status == .connected)))
  else .error .assertion

def channelRemove (c : Conn) : Except Fault Conn := do
  let ch ← c.channel.remove
  return { c with channel := ch }

/-- The connection callback is not tested here before it is called. -/
def connectDestroyed (c : Conn) : Except Fault Conn :=
  if c.status = .connected then
    let c := c.setStatus .disconnected
    let c := { c with channel := c.channel.disableAll }
    if c.callbacks.connection then
      .ok ((c.push .channelRemove).invoke true (.connection (c.status == .connected)))
    else .error .badFunctionCall
  else c.channelRemove

def shutdown (c : Conn) : Conn :=
  if c.status = .connected then
    let c := c.setStatus .disconnecting
    if !c.channel.isWriting then c.closeWrite else c
  else c

def forceClose (c : Conn) : Conn :=
  if c.status = .connected ∨ c.status = .disconnecting then
    (c.setStatus .disconnecting).handleClose
  else c

end Conn

/-! ## The machine -/

/-- What user code calls on the connection. -/
inductive Call where
  | send (msg : View)
  | sendFile (file : Option (List Byte)) (offset length : Nat)
  | sendStream (callback : Option (List Chunk))
  | shutdown
  | forceClose
deriving DecidableEq

inductive Act where
  | connectEstablished
  | event (revents : BitVec 32)
  | call (k : Call)
  | resume
  | connectDestroyed
deriving DecidableEq

structure Label where
  act : Act
  env : Env
deriving DecidableEq

namespace Conn

def call (c : Conn) : Call → Except Fault Conn
  | .send msg => c.sendInLoop msg.bytes
  | .sendFile file offset length => c.sendFile file offset length
  | .sendStream callback => c.sendStream callback
  | .shutdown => .ok c.shutdown
  | .forceClose => .ok c.forceClose

def handle (c : Conn) : Handler → Except Fault Conn
  | .close => .ok c.handleClose
  | .error => .ok c.handleError
  | .read => c.handleRead
  | .write => c.handleWrite

/-- The frame on top, which has been popped, goes on. -/
def resume (c : Conn) : Frame → Except Fault Conn
  | .callback => .ok c
  | .dispatch [] => .ok c
  | .dispatch (h :: todo) => (c.push (.dispatch todo)).handle h
  | .handleWriteRest => .ok c.handleWriteRest
  | .handleCloseRest => .ok c.handleCloseRest
  | .extendLife => .ok c.extendLife
  | .channelRemove => c.channelRemove

/-- User code runs in the loop's own functors or inside a callback; the
loop polls when nothing is left to do. -/
def Enabled (c : Conn) : Act → Prop
  | .connectEstablished | .connectDestroyed | .event _ => c.frames = []
  | .call _ => c.frames = [] ∨ c.frames.head? = some .callback
  | .resume => c.frames ≠ []

instance (c : Conn) (a : Act) : Decidable (c.Enabled a) := by
  cases a <;> unfold Enabled <;> infer_instance

def exec (c : Conn) : Act → Except Fault Conn
  | .connectEstablished => c.connectEstablished
  | .event revents =>
      let ch := c.channel.setRevents revents
      .ok ({ c with channel := ch }.push (.dispatch ch.handleEvent))
  | .call k => c.call k
  | .resume =>
      match c.frames with
      | [] => .ok c
      | f :: fs => { c with frames := fs }.resume f
  | .connectDestroyed => c.connectDestroyed

end Conn

/-- The state that `connectEstablished` leaves a new connection in. -/
def Conn.established (readBuffer : MessageBuffer) (callbacks : Callbacks) (env : Env) : Conn :=
  ({ Conn.new readBuffer callbacks env with channel := Channel.new.enableReading }.setStatus
    .connected).invoke callbacks.connection (.connection true)

theorem Conn.connectEstablished_new (readBuffer : MessageBuffer) (callbacks : Callbacks)
    (env : Env) : (Conn.new readBuffer callbacks env).connectEstablished
      = .ok (Conn.established readBuffer callbacks env) := rfl

/-- One step of the connection. -/
def ConnStep (c : Conn) (l : Label) (c' : Conn) : Prop :=
  c.Enabled l.act ∧ { c with env := l.env }.exec l.act = .ok c'

end Netpoll
