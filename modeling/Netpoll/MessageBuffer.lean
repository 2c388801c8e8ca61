import Mathlib.Algebra.Ring.Nat
import Netpoll.Bytes
import Netpoll.Post

/-!
# `MessageBuffer`

The byte buffer of `util/message_buffer.{h,cc}`, function by function.
A buffer is a storage vector with two indices into it; the bytes in
`[head, tail)` are the readable ones, `[tail, size)` is writable, and
`[0, head)` is the reserve that `pushFront` writes into.

All sizes are `size_t`: sums, differences and products are taken modulo
`2 ^ 64` exactly where the source computes them (`addSz`, `subSz`,
`mulSz`). A request for storage beyond `kAllocLimit` throws; no live
object of a process is larger, which is also why a `StringView` argument
is a `View`. Asserting functions abort when the assertion fails, and
reading or writing outside the storage vector is `outOfBounds`.
`std::copy` between overlapping ranges behaves as `memmove`.
-/

namespace Netpoll

abbrev Byte := UInt8

/-- How an operation can end other than by returning. -/
inductive Fault where
  | assertion
  | badAlloc
  | outOfBounds
  | nullPointer
  | stackOverflow
  | badFunctionCall
  | lengthError
  | intOverflow
deriving Repr, DecidableEq

/-! ## `size_t` arithmetic -/

/-- The number of values of `size_t`. -/
def sizeMod : Nat := 2 ^ 64

def addSz (a b : Nat) : Nat := (a + b) % sizeMod

def subSz (a b : Nat) : Nat := (a + (sizeMod - b)) % sizeMod

def mulSz (a b : Nat) : Nat := (a * b) % sizeMod

theorem addSz_eq {a b : Nat} (h : a + b < sizeMod) : addSz a b = a + b :=
  Nat.mod_eq_of_lt h

theorem subSz_eq {a b : Nat} (hba : b ≤ a) (ha : a < sizeMod) : subSz a b = a - b := by
  simp only [subSz]
  have h : a + (sizeMod - b) = (a - b) + sizeMod := by omega
  rw [h, Nat.add_mod_right, Nat.mod_eq_of_lt (by omega)]

theorem mulSz_eq {a b : Nat} (h : a * b < sizeMod) : mulSz a b = a * b :=
  Nat.mod_eq_of_lt h

theorem addSz_lt (a b : Nat) : addSz a b < sizeMod :=
  Nat.mod_lt _ (by decide)

/-! ## The data -/

/-- `kBufferOffset`: the size of the reserve in front of a fresh buffer. -/
def kBufferOffset : Nat := 8

/-- `kBufferDefaultLength`. -/
def kBufferDefaultLength : Nat := 2048

/-- No allocation of more bytes than this succeeds. -/
def kAllocLimit : Nat := 2 ^ 62

/-- `sizeof extBuffer` in `readFd`. -/
def kExtBuffer : Nat := 8192

/-- The bytes behind a `StringView`: they exist in memory. -/
structure View where
  bytes : List Byte
  fits : bytes.length ≤ kAllocLimit
deriving DecidableEq

structure MessageBuffer where
  head : Nat
  tail : Nat
  initCap : Nat
  buffer : List Byte
deriving Repr, DecidableEq

namespace MessageBuffer

/-- What the in-class initialisers give before the move constructor's
`swap`, and so what a moved-from buffer is left with. -/
def blank : MessageBuffer := ⟨0, 0, 0, []⟩

/-- `MessageBuffer(size_t len)`. -/
def new (len : Nat) : Except Fault MessageBuffer :=
  let size := addSz len kBufferOffset
  if kAllocLimit < size then .error .badAlloc
  else .ok ⟨kBufferOffset, kBufferOffset, len, List.replicate size 0⟩

def readableBytes (b : MessageBuffer) : Nat := subSz b.tail b.head

def writableBytes (b : MessageBuffer) : Nat := subSz b.buffer.length b.tail

/-- Read `n` bytes of storage from index `p` on. Copying no bytes
touches nothing, wherever the pointer is. -/
def load (b : MessageBuffer) (p n : Nat) : Except Fault (List Byte) :=
  if n = 0 ∨ p + n ≤ b.buffer.length then .ok (slice b.buffer p (p + n))
  else .error .outOfBounds

/-- Write `xs` to the storage from index `p` on. -/
def store (b : MessageBuffer) (p : Nat) (xs : List Byte) : Except Fault MessageBuffer :=
  if xs.length = 0 ∨ p + xs.length ≤ b.buffer.length then .ok { b with buffer := splice b.buffer p xs }
  else .error .outOfBounds

/-- `memmove` inside the storage: `n` bytes from index `src` to `dst`. -/
def move (b : MessageBuffer) (src n dst : Nat) : Except Fault MessageBuffer := do
  let xs ← b.load src n
  b.store dst xs

/-! ## Growing -/

/-- The length of the replacement buffer in `ensureWritableBytes`. -/
def grownLen (b : MessageBuffer) (len : Nat) : Nat :=
  let need := addSz (addSz kBufferOffset b.readableBytes) len
  if mulSz b.buffer.length 2 > need then mulSz b.buffer.length 2 else need

/-- The two statements of `pushBack` after its `ensureWritableBytes`:
copy the readable bytes of `buf` behind the tail and move the tail. -/
def append (b buf : MessageBuffer) : Except Fault MessageBuffer := do
  let xs ← buf.load buf.head buf.readableBytes
  let b ← b.store b.tail xs
  return { b with tail := addSz b.tail buf.readableBytes }

/-- `ensureWritableBytes`. It calls `pushBack` on a fresh buffer, which
calls it again; `depth` bounds this mutual recursion. -/
def ensureWritable (depth : Nat) (b : MessageBuffer) (len : Nat) :
    Except Fault MessageBuffer :=
  match depth with
  | 0 => .error .stackOverflow
  | depth + 1 =>
    if b.writableBytes ≥ len then .ok b
    else if addSz b.head b.writableBytes ≥ addSz len kBufferOffset then do
      -- move the readable bytes
      let b ← b.move b.head b.readableBytes kBufferOffset
      return { b with
        tail := addSz kBufferOffset (subSz b.tail b.head)
        head := kBufferOffset }
    else do
      -- create a new buffer; `swap(newbuffer)` leaves its contents here
      let newbuffer ← new (b.grownLen len)
      let newbuffer ← newbuffer.ensureWritable depth b.readableBytes
      newbuffer.append b

def ensureWritableBytes (b : MessageBuffer) (len : Nat) : Except Fault MessageBuffer :=
  b.ensureWritable 4 len

/-! ## Pushing -/

/-- `pushBack(const MessageBuffer &)` with an argument other than the
buffer itself. -/
def pushBackBuffer (b buf : MessageBuffer) : Except Fault MessageBuffer := do
  let b ← b.ensureWritableBytes buf.readableBytes
  b.append buf

/-- `buf.pushBack(buf)`: the argument is the buffer being grown. -/
def pushBackSelf (b : MessageBuffer) : Except Fault MessageBuffer := do
  let b ← b.ensureWritableBytes b.readableBytes
  b.append b

/-- `pushBack(const StringView &)`. -/
def pushBack (b : MessageBuffer) (buf : List Byte) : Except Fault MessageBuffer := do
  let b ← b.ensureWritableBytes buf.length
  let b ← b.store b.tail buf
  return { b with tail := addSz b.tail buf.length }

/-- `pushFront(StringView const &)`. -/
def pushFront (b : MessageBuffer) (buf : List Byte) : Except Fault MessageBuffer :=
  if b.head ≥ buf.length then do
    -- the reserved space is sufficient
    let b ← b.store (subSz b.head buf.length) buf
    return { b with head := subSz b.head buf.length }
  else if buf.length ≤ b.writableBytes then do
    -- move the written content back, then push front
    let b ← b.move b.head b.readableBytes (b.head + buf.length)
    let b ← b.store b.head buf
    return { b with tail := addSz b.tail buf.length }
  else do
    let newLen :=
      if addSz buf.length b.readableBytes < b.initCap then b.initCap
      else addSz buf.length b.readableBytes
    let newBuf ← new newLen
    let newBuf ← newBuf.pushBack buf
    newBuf.pushBackBuffer b

/-! ## Retrieving -/

def retrieveAll (b : MessageBuffer) : MessageBuffer :=
  let b := if b.buffer.length > mulSz b.initCap 2
    then { b with buffer := b.buffer.take b.initCap } else b
  { b with head := kBufferOffset, tail := kBufferOffset }

def retrieve (b : MessageBuffer) (len : Nat) : MessageBuffer :=
  if len ≥ b.readableBytes then b.retrieveAll
  else { b with head := addSz b.head len }

/-- `retrieveUntil(end)`, with `end` as an index into the storage. -/
def retrieveUntil (b : MessageBuffer) («end» : Nat) : Except Fault MessageBuffer :=
  if b.head ≤ «end» ∧ «end» ≤ b.tail then .ok (b.retrieve (subSz «end» b.head))
  else .error .assertion

def read (b : MessageBuffer) (len : Nat) : Except Fault (List Byte × MessageBuffer) := do
  let len := if len > b.readableBytes then b.readableBytes else len
  let ret ← b.load b.head len
  return (ret, b.retrieve len)

def readAll (b : MessageBuffer) : Except Fault (List Byte × MessageBuffer) :=
  b.read b.readableBytes

/-! ## Moving the tail -/

def hasWritten (b : MessageBuffer) (len : Nat) : Except Fault MessageBuffer :=
  if len ≤ b.writableBytes then .ok { b with tail := addSz b.tail len }
  else .error .assertion

def unwrite (b : MessageBuffer) (offset : Nat) : Except Fault MessageBuffer :=
  if b.readableBytes ≥ offset then .ok { b with tail := subSz b.tail offset }
  else .error .assertion

/-! ## Integers in network order

The twelve typed accessors are one family: `pushBackIntN` and
`pushFrontIntN` push the `N / 8` bytes that `hton` leaves in memory,
most significant first, and `readIntN` is `peekIntN` followed by
`retrieve`. -/

/-- The `w` bytes of `v` in network order. -/
def netBytes (w v : Nat) : List Byte :=
  (List.range w).map fun k => UInt8.ofNat (v / 256 ^ (w - 1 - k))

/-- The value of bytes in network order. -/
def netValue (xs : List Byte) : Nat :=
  xs.foldl (fun v x => 256 * v + x.toNat) 0

def peekInt (b : MessageBuffer) (w : Nat) : Except Fault Nat := do
  if b.readableBytes ≥ w then
    let xs ← b.load b.head w
    return netValue xs
  else .error .assertion

def readInt (b : MessageBuffer) (w : Nat) : Except Fault (Nat × MessageBuffer) := do
  let ret ← b.peekInt w
  return (ret, b.retrieve w)

def pushBackInt8 (b : MessageBuffer) (v : UInt8) := b.pushBack (netBytes 1 v.toNat)
def pushBackInt16 (b : MessageBuffer) (v : UInt16) := b.pushBack (netBytes 2 v.toNat)
def pushBackInt32 (b : MessageBuffer) (v : UInt32) := b.pushBack (netBytes 4 v.toNat)
def pushBackInt64 (b : MessageBuffer) (v : UInt64) := b.pushBack (netBytes 8 v.toNat)

def pushFrontInt8 (b : MessageBuffer) (v : UInt8) := b.pushFront (netBytes 1 v.toNat)
def pushFrontInt16 (b : MessageBuffer) (v : UInt16) := b.pushFront (netBytes 2 v.toNat)
def pushFrontInt32 (b : MessageBuffer) (v : UInt32) := b.pushFront (netBytes 4 v.toNat)
def pushFrontInt64 (b : MessageBuffer) (v : UInt64) := b.pushFront (netBytes 8 v.toNat)

def readInt8 (b : MessageBuffer) := b.readInt 1
def readInt16 (b : MessageBuffer) := b.readInt 2
def readInt32 (b : MessageBuffer) := b.readInt 4
def readInt64 (b : MessageBuffer) := b.readInt 8

/-! ## Reading from a descriptor -/

/-- `static_cast<int>` followed by the conversion to `iov_len`'s `size_t`. -/
def iovLen (n : Nat) : Nat :=
  let low := n % 2 ^ 32
  if low < 2 ^ 31 then low else sizeMod - 2 ^ 32 + low

/-- `readv`: it fails if the descriptor has an error, or if the lengths add up to
more than an `ssize_t`; otherwise it takes a prefix of what the
descriptor offers, at most the iovecs' total length. -/
def readv (total : Nat) (offer : Option (List Byte)) : Option (List Byte) :=
  if 2 ^ 63 ≤ total then none else offer.map (·.take total)

/-- The iovecs' total length in `readFd`: the second one is passed only
if the writable part is smaller than it. -/
def iovTotal (b : MessageBuffer) : Nat :=
  iovLen b.writableBytes + if b.writableBytes < kExtBuffer then kExtBuffer else 0

/-- The bytes that `readFd`'s call of `readv` delivers; `none` is `n < 0`. -/
def received (b : MessageBuffer) (offer : Option (List Byte)) : Option (List Byte) :=
  readv b.iovTotal offer

/-- `readFd`, with what the descriptor offers. The first iovec is the
writable part, the second is `extBuffer`; the bytes that landed there
are pushed back once the tail is at the end of the storage. The result
is the buffer as it is left, and the fault if that push ends in one. -/
def readFd (b : MessageBuffer) (offer : Option (List Byte)) :
    MessageBuffer × Option Fault :=
  match b.received offer with
  | none => (b, none)
  | some data =>
    match b.store b.tail (data.take (iovLen b.writableBytes)) with
    | .error f => (b, some f)
    | .ok b' =>
      if data.length ≤ b.writableBytes then
        ({ b' with tail := addSz b'.tail data.length }, none)
      else
        let b' := { b' with tail := b'.buffer.length }
        match b'.pushBack (data.drop (iovLen b.writableBytes)) with
        | .error f => (b', some f)
        | .ok b'' => (b'', none)

end MessageBuffer

end Netpoll
