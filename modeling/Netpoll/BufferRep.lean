import Netpoll.MessageBuffer

/-!
# The representation invariant of `MessageBuffer`

`Rep` is `head ≤ tail ≤ size` together with the two bounds that keep
`size_t` arithmetic exact. Under it every operation has one
specification lemma: which storage it returns, that the result is `Rep`
again, and what it does to `bytes`, the readable byte sequence. Callers
cite these lemmas and never unfold an operation.

The storage is replaced in two places only, by a fresh buffer of length
`grownLen` and by the shrinking `resize` in `retrieveAll`. The
specifications therefore carry the pair `(initCap, size)` along, which is
what decides later whether a `retrieveAll` leaves room for the reserve.
-/

namespace Netpoll

namespace MessageBuffer

/-- The readable bytes. -/
def bytes (b : MessageBuffer) : List Byte := slice b.buffer b.head b.tail

structure Rep (b : MessageBuffer) : Prop where
  head_le : b.head ≤ b.tail
  tail_le : b.tail ≤ b.buffer.length
  size_le : b.buffer.length ≤ kAllocLimit
  cap_le : b.initCap ≤ b.buffer.length

theorem limit_lt : kAllocLimit + kAllocLimit + kAllocLimit < sizeMod := by decide

theorem offset_le : kBufferOffset + kBufferOffset ≤ kAllocLimit := by decide

theorem extBuffer_le : kExtBuffer ≤ kAllocLimit := by decide

theorem blank_rep : Rep blank := by
  constructor <;> decide

variable {b buf : MessageBuffer} {len : Nat} {xs : List Byte}

theorem Rep.readable_eq (h : Rep b) : b.readableBytes = b.tail - b.head := by
  obtain ⟨h1, h2, h3, -⟩ := h
  have := limit_lt
  exact subSz_eq h1 (by omega)

theorem Rep.writable_eq (h : Rep b) : b.writableBytes = b.buffer.length - b.tail := by
  obtain ⟨-, h2, h3, -⟩ := h
  have := limit_lt
  exact subSz_eq h2 (by omega)

theorem Rep.bytes_length (h : Rep b) : b.bytes.length = b.readableBytes := by
  rw [h.readable_eq]
  exact slice_length h.tail_le

/-! ## Reading and writing the storage -/

theorem Rep.load_eq (h : Rep b) {n : Nat} (hn : n ≤ b.readableBytes) :
    b.load b.head n = .ok (b.bytes.take n) := by
  have hr := h.readable_eq
  obtain ⟨h1, h2, -, -⟩ := h
  rw [load, if_pos (Or.inr (by omega)), bytes, slice_take (by omega)]

theorem Rep.load_all (h : Rep b) : b.load b.head b.readableBytes = .ok b.bytes := by
  rw [h.load_eq (Nat.le_refl _), List.take_of_length_le (Nat.le_of_eq h.bytes_length)]

theorem store_eq {p : Nat} (h : p + xs.length ≤ b.buffer.length) :
    b.store p xs = .ok { b with buffer := splice b.buffer p xs } :=
  if_pos (Or.inr h)

/-- `b` with `xs` written behind the tail and the tail moved past it. -/
def pushed (b : MessageBuffer) (xs : List Byte) : MessageBuffer :=
  { b with buffer := splice b.buffer b.tail xs, tail := b.tail + xs.length }

theorem Rep.pushed (h : Rep b) (hx : xs.length ≤ b.writableBytes) :
    Rep (b.pushed xs) := by
  rw [h.writable_eq] at hx
  obtain ⟨h1, h2, h3, h4⟩ := h
  have hlen : (splice b.buffer b.tail xs).length = b.buffer.length :=
    splice_length (by omega)
  exact ⟨by simp only [MessageBuffer.pushed]; omega,
    by simp only [MessageBuffer.pushed, hlen]; omega,
    by simpa only [MessageBuffer.pushed, hlen] using h3,
    by simpa only [MessageBuffer.pushed, hlen] using h4⟩

theorem Rep.pushed_size (h : Rep b) (hx : xs.length ≤ b.writableBytes) :
    (b.pushed xs).buffer.length = b.buffer.length := by
  rw [h.writable_eq] at hx
  have h2 := h.tail_le
  exact splice_length (by omega)

theorem Rep.pushed_bytes (h : Rep b) : (b.pushed xs).bytes = b.bytes ++ xs := by
  obtain ⟨h1, h2, -, -⟩ := h
  simp only [MessageBuffer.pushed, bytes]
  rw [← slice_append h1 (Nat.le_add_right b.tail xs.length),
    slice_splice_before (Nat.le_refl _) h2, slice_splice_self h2]

theorem Rep.append_eq (hb : Rep b) (hbuf : Rep buf)
    (h : buf.readableBytes ≤ b.writableBytes) :
    b.append buf = .ok (b.pushed buf.bytes) := by
  have hlen := hbuf.bytes_length
  rw [hb.writable_eq] at h
  have h2 := hb.tail_le
  have h3 := hb.size_le
  have := limit_lt
  simp only [append, hbuf.load_all, ok_bind]
  rw [store_eq (by omega)]
  simp only [ok_bind, pure, Except.pure, MessageBuffer.pushed]
  rw [← hlen, addSz_eq (by omega)]

/-! ## Fresh buffers -/

/-- A buffer just constructed with length `len`. -/
structure Fresh (b : MessageBuffer) (len : Nat) : Prop where
  rep : Rep b
  head_eq : b.head = kBufferOffset
  tail_eq : b.tail = kBufferOffset
  cap_eq : b.initCap = len
  size_eq : b.buffer.length = len + kBufferOffset

theorem Fresh.writable_eq (h : Fresh b len) : b.writableBytes = len := by
  rw [h.rep.writable_eq, h.size_eq, h.tail_eq, Nat.add_sub_cancel]

theorem Fresh.bytes_eq (h : Fresh b len) : b.bytes = [] := by
  rw [bytes, h.head_eq, h.tail_eq, slice_self]

theorem new_fresh (h : len + kBufferOffset < sizeMod) :
    Post (fun f => f = .badAlloc ∧ kAllocLimit < len + kBufferOffset)
      (fun b => Fresh b len) (new len) := by
  simp only [new, addSz_eq h]
  split
  · exact ⟨rfl, ‹_›⟩
  · rename_i hle
    have hoff := offset_le
    refine ⟨⟨Nat.le_refl _, ?_, ?_, ?_⟩, rfl, rfl, rfl, ?_⟩ <;>
      simp only [List.length_replicate] <;> omega

/-! ## `ensureWritableBytes` -/

/-- What keeps `ensureWritableBytes(len)` inside the storage: neither
does a compaction that only a wrapped `len + kBufferOffset` lets in find
less free space than the reserve, nor does the replacement's size wrap. -/
def EnsureFits (b : MessageBuffer) (len : Nat) : Prop :=
  len ≤ b.writableBytes ∨
    if addSz len kBufferOffset ≤ addSz b.head b.writableBytes
    then kBufferOffset ≤ b.head + b.writableBytes
    else b.grownLen len + kBufferOffset < sizeMod

instance : Decidable (EnsureFits b len) := by
  unfold EnsureFits; infer_instance

theorem Rep.grownLen_ge (h : Rep b) (len : Nat) : 2 * b.buffer.length ≤ b.grownLen len := by
  have h3 := h.size_le
  have := limit_lt
  simp only [grownLen, mulSz_eq (show b.buffer.length * 2 < sizeMod by omega)]
  split <;> omega

theorem Rep.need_le_grownLen (h : Rep b)
    (hlt : kBufferOffset + b.readableBytes + len < sizeMod) :
    kBufferOffset + b.readableBytes + len ≤ b.grownLen len := by
  have h3 := h.size_le
  have := limit_lt
  simp only [grownLen, addSz_eq (show kBufferOffset + b.readableBytes < sizeMod by omega),
    addSz_eq hlt]
  split <;> omega

theorem Rep.grownLen_le (h : Rep b) (len : Nat) :
    b.grownLen len ≤ 2 * b.buffer.length + len + kBufferOffset := by
  have hr := h.readable_eq
  have h2 := h.tail_le
  have hadd : ∀ x y, addSz x y ≤ x + y := fun x y => Nat.mod_le _ _
  have hmul : mulSz b.buffer.length 2 ≤ b.buffer.length * 2 := Nat.mod_le _ _
  have hsum := hadd (addSz kBufferOffset b.readableBytes) len
  have hoff := hadd kBufferOffset b.readableBytes
  simp only [grownLen]
  split <;> omega

theorem Rep.ensureFits (h : Rep b) (hlen : len ≤ kAllocLimit) : EnsureFits b len := by
  have hw := h.writable_eq
  have hr := h.readable_eq
  obtain ⟨h1, h2, h3, h4⟩ := h
  have hl : kAllocLimit + kAllocLimit + kAllocLimit < sizeMod := limit_lt
  have hoff := offset_le
  by_cases hle : len ≤ b.writableBytes
  · exact Or.inl hle
  · right
    rw [addSz_eq (by omega), addSz_eq (by omega)]
    split
    · omega
    · have hneed : addSz (addSz kBufferOffset b.readableBytes) len
          = kBufferOffset + b.readableBytes + len := by
        rw [addSz_eq (a := kBufferOffset) (by omega), addSz_eq (by omega)]
      simp only [grownLen, hneed, mulSz_eq (show b.buffer.length * 2 < sizeMod by omega)]
      split <;> omega

/-- The only way to fail: the allocator refused a replacement, and what
`b` holds together with the `n` bytes asked for is beyond its limit. -/
def Refused (b : MessageBuffer) (n : Nat) (f : Fault) : Prop :=
  f = .badAlloc ∧ kAllocLimit < 2 * b.buffer.length + n + 2 * kBufferOffset

/-- What `ensureWritableBytes(len)` leaves of a buffer: the same bytes,
in the old storage or in a fresh one. -/
structure Ensured (b : MessageBuffer) (len : Nat) (b' : MessageBuffer) : Prop where
  rep : Rep b'
  bytes_eq : b'.bytes = b.bytes
  storage : (b'.initCap = b.initCap ∧ b'.buffer.length = b.buffer.length) ∨
    (b'.initCap = b.grownLen len ∧ b'.buffer.length = b'.initCap + kBufferOffset)
  room : kBufferOffset + b.readableBytes + len < sizeMod → len ≤ b'.writableBytes

theorem ensureWritable_of_le {d : Nat} (h : len ≤ b.writableBytes) :
    b.ensureWritable (d + 1) len = .ok b := by
  rw [ensureWritable, if_pos h]

/-- The compaction branch: the bytes move down to the reserve's end. -/
theorem Rep.compact (h : Rep b) (len : Nat)
    (hc : addSz len kBufferOffset ≤ addSz b.head b.writableBytes)
    (hroom : kBufferOffset ≤ b.head + b.writableBytes) :
    ∃ b', b.move b.head b.readableBytes kBufferOffset = .ok b' ∧
      Ensured b len { b' with
        tail := addSz kBufferOffset (subSz b'.tail b'.head), head := kBufferOffset } := by
  have hw := h.writable_eq
  have hr := h.readable_eq
  have hlen := h.bytes_length
  have hl := limit_lt
  have hload := h.load_all
  obtain ⟨h1, h2, h3, h4⟩ := h
  have hst : kBufferOffset + b.bytes.length ≤ b.buffer.length := by omega
  refine ⟨{ b with buffer := splice b.buffer kBufferOffset b.bytes }, ?_, ?_⟩
  · simp only [move, hload, ok_bind, store_eq hst]
  · have htail : addSz kBufferOffset (subSz b.tail b.head)
        = kBufferOffset + b.bytes.length := by
      rw [subSz_eq h1 (by omega), addSz_eq (by omega)]
      omega
    have hsz : (splice b.buffer kBufferOffset b.bytes).length = b.buffer.length :=
      splice_length hst
    simp only [htail]
    have hrep : Rep { b with
        buffer := splice b.buffer kBufferOffset b.bytes
        tail := kBufferOffset + b.bytes.length
        head := kBufferOffset } :=
      ⟨Nat.le_add_right _ _, by simp only [hsz]; omega, by simp only [hsz]; omega,
        by simp only [hsz]; exact h4⟩
    refine ⟨hrep, ?_, Or.inl ⟨rfl, hsz⟩, fun hlt => ?_⟩
    · simp only [bytes]
      exact slice_splice_self (by omega)
    · rw [addSz_eq (by omega), addSz_eq (by omega)] at hc
      rw [hrep.writable_eq]
      simp only [hsz]
      omega

/-- The growing branch: a fresh buffer receives the bytes. -/
theorem Rep.grow (h : Rep b) {d : Nat} (hfit : b.grownLen len + kBufferOffset < sizeMod) :
    Post (Refused b len) (Ensured b len) (do
      let newbuffer ← new (b.grownLen len)
      let newbuffer ← newbuffer.ensureWritable (d + 1) b.readableBytes
      newbuffer.append b) := by
  have hge := h.grownLen_ge len
  have hr := h.readable_eq
  have h2 := h.tail_le
  have hgl := h.grownLen_le len
  have hnew := (new_fresh hfit).mono
    (fun f hf => show Refused b len f from ⟨hf.1, by omega⟩) fun _ hb => hb
  refine Post.bind hnew fun nb hnb => ?_
  have hroom : b.readableBytes ≤ nb.writableBytes := by
    rw [hnb.writable_eq]; omega
  rw [ensureWritable_of_le hroom, ok_bind, hnb.rep.append_eq h hroom]
  have hx : b.bytes.length ≤ nb.writableBytes := by rw [h.bytes_length]; exact hroom
  have hrep := hnb.rep.pushed hx
  have hsz : (nb.pushed b.bytes).buffer.length = b.grownLen len + kBufferOffset := by
    rw [hnb.rep.pushed_size hx, hnb.size_eq]
  refine ⟨hrep, ?_, Or.inr ⟨hnb.cap_eq, ?_⟩, fun hlt => ?_⟩
  · rw [hnb.rep.pushed_bytes, hnb.bytes_eq, List.nil_append]
  · rw [hsz]
    exact congrArg (· + kBufferOffset) hnb.cap_eq.symm
  · have hneed := h.need_le_grownLen hlt
    have htail : (nb.pushed b.bytes).tail = kBufferOffset + b.readableBytes := by
      simp only [MessageBuffer.pushed, hnb.tail_eq, h.bytes_length]
    rw [hrep.writable_eq, hsz, htail]
    omega

theorem Rep.ensureWritableBytes (h : Rep b) (hfit : EnsureFits b len) :
    Post (Refused b len) (Ensured b len) (b.ensureWritableBytes len) := by
  rw [MessageBuffer.ensureWritableBytes, show (4 : Nat) = 2 + 1 + 1 from rfl, ensureWritable]
  by_cases hle : len ≤ b.writableBytes
  · rw [if_pos hle]
    exact ⟨h, rfl, Or.inl ⟨rfl, rfl⟩, fun _ => hle⟩
  · rw [if_neg hle]
    have hfit := hfit.resolve_left hle
    by_cases hc : addSz len kBufferOffset ≤ addSz b.head b.writableBytes
    · rw [if_pos hc] at hfit ⊢
      obtain ⟨b', hmv, hen⟩ := h.compact len hc hfit
      rw [hmv]
      exact hen
    · rw [if_neg hc] at hfit ⊢
      exact h.grow hfit

/-! ## Buffers built with room for the reserve

A buffer constructed with `len ≥ kBufferOffset` keeps its storage at
`initCap + kBufferOffset` bytes, so `retrieveAll` never shrinks it. -/

structure Sized (b : MessageBuffer) : Prop extends Rep b where
  cap_ge : kBufferOffset ≤ b.initCap
  size_eq : b.buffer.length = b.initCap + kBufferOffset

theorem Fresh.sized (h : Fresh b len) (hlen : kBufferOffset ≤ len) : Sized b :=
  ⟨h.rep, by rw [h.cap_eq]; exact hlen, by rw [h.size_eq, h.cap_eq]⟩

/-- `b'` holds exactly the bytes `xs`, and is as well built as `b`. -/
structure Becomes (b : MessageBuffer) (xs : List Byte) (b' : MessageBuffer) : Prop where
  rep : Rep b'
  bytes_eq : b'.bytes = xs
  sized : Sized b → Sized b'

theorem Becomes.trans {b₁ b₂ b₃ : MessageBuffer} {ys : List Byte}
    (h1 : Becomes b₁ xs b₂) (h2 : Becomes b₂ ys b₃) : Becomes b₁ ys b₃ :=
  ⟨h2.rep, h2.bytes_eq, fun h => h2.sized (h1.sized h)⟩

theorem Rep.becomes_self (h : Rep b) : Becomes b b.bytes b := ⟨h, rfl, id⟩

theorem Rep.reindex (h : Rep b) (hd tl : Nat) (h1 : hd ≤ tl) (h2 : tl ≤ b.buffer.length) :
    Becomes b (slice b.buffer hd tl) { b with head := hd, tail := tl } :=
  ⟨⟨h1, h2, h.size_le, h.cap_le⟩, rfl,
    fun hs => ⟨⟨h1, h2, h.size_le, h.cap_le⟩, hs.cap_ge, hs.size_eq⟩⟩

theorem Ensured.becomes {b' : MessageBuffer} (hb : Rep b) (h : Ensured b len b') :
    Becomes b b.bytes b' := by
  refine ⟨h.rep, h.bytes_eq, fun hs => ?_⟩
  rcases h.storage with ⟨hcap, hsz⟩ | ⟨hcap, hsz⟩
  · exact ⟨h.rep, by rw [hcap]; exact hs.cap_ge, by rw [hsz, hcap]; exact hs.size_eq⟩
  · have hge := hb.grownLen_ge len
    have hcg := hs.cap_ge
    have hse := hs.size_eq
    exact ⟨h.rep, by omega, hsz⟩

theorem Rep.pushed_becomes (h : Rep b) (hx : xs.length ≤ b.writableBytes) :
    Becomes b (b.bytes ++ xs) (b.pushed xs) :=
  ⟨h.pushed hx, h.pushed_bytes,
    fun hs => ⟨h.pushed hx, hs.cap_ge, by rw [h.pushed_size hx]; exact hs.size_eq⟩⟩

/-! ## Pushing -/

theorem Ensured.room_of_le {b' : MessageBuffer} (hb : Rep b) (h : Ensured b len b')
    (hlen : len ≤ kAllocLimit) : len ≤ b'.writableBytes := by
  have hr := hb.readable_eq
  have h2 := hb.tail_le
  have h3 := hb.size_le
  have hl := limit_lt
  have hoff := offset_le
  exact h.room (by omega)

theorem Rep.pushBack_of_ensured {F : Fault → Prop} (h : Rep b) (hx : xs.length ≤ kAllocLimit)
    (hensure : Post F (Ensured b xs.length) (b.ensureWritableBytes xs.length)) :
    Post F (Becomes b (b.bytes ++ xs)) (b.pushBack xs) := by
  refine Post.bind hensure fun b' hen => ?_
  have hroom := hen.room_of_le h hx
  have hw := hen.rep.writable_eq
  have h2 := hen.rep.tail_le
  have h3 := hen.rep.size_le
  have hl := limit_lt
  rw [store_eq (by omega), ok_bind, addSz_eq (by simp only; omega)]
  have hp := hen.rep.pushed_becomes hroom
  rw [hen.bytes_eq] at hp
  exact (hen.becomes h).trans hp

theorem Rep.pushBack (h : Rep b) (hx : xs.length ≤ kAllocLimit) :
    Post (Refused b xs.length) (Becomes b (b.bytes ++ xs)) (b.pushBack xs) :=
  h.pushBack_of_ensured hx (h.ensureWritableBytes (h.ensureFits hx))

theorem Rep.readable_le (h : Rep b) : b.readableBytes ≤ kAllocLimit := by
  have hr := h.readable_eq
  obtain ⟨h1, h2, h3, -⟩ := h
  omega

theorem Rep.pushBackBuffer (h : Rep b) (hbuf : Rep buf) :
    Post (Refused b buf.readableBytes) (Becomes b (b.bytes ++ buf.bytes))
      (b.pushBackBuffer buf) := by
  refine Post.bind (h.ensureWritableBytes (h.ensureFits hbuf.readable_le)) fun b' hen => ?_
  have hroom := hen.room_of_le h hbuf.readable_le
  rw [hen.rep.append_eq hbuf hroom]
  have hp := hen.rep.pushed_becomes (by rw [hbuf.bytes_length]; exact hroom)
  rw [hen.bytes_eq] at hp
  exact (hen.becomes h).trans hp

theorem Rep.pushBackSelf (h : Rep b) :
    Post (Refused b b.readableBytes) (Becomes b (b.bytes ++ b.bytes)) b.pushBackSelf := by
  refine Post.bind (h.ensureWritableBytes (h.ensureFits h.readable_le)) fun b' hen => ?_
  have hroom := hen.room_of_le h h.readable_le
  have hsame : b'.readableBytes = b.readableBytes := by
    rw [← hen.rep.bytes_length, hen.bytes_eq, h.bytes_length]
  rw [hen.rep.append_eq hen.rep (by rw [hsame]; exact hroom)]
  have hp := hen.rep.pushed_becomes (show b'.bytes.length ≤ b'.writableBytes by
    rw [hen.rep.bytes_length, hsame]; exact hroom)
  rw [hen.bytes_eq] at hp
  rw [hen.bytes_eq]
  exact (hen.becomes h).trans hp

/-- The reserve is large enough: the bytes go in front of the head. -/
theorem Rep.pushFront_reserve (h : Rep b) (hx : xs.length ≤ b.head) :
    Becomes b (xs ++ b.bytes)
      { b with buffer := splice b.buffer (b.head - xs.length) xs, head := b.head - xs.length } := by
  have hl := limit_lt
  obtain ⟨h1, h2, h3, h4⟩ := h
  have hst : b.head - xs.length + xs.length ≤ b.buffer.length := by omega
  have hsz : (splice b.buffer (b.head - xs.length) xs).length = b.buffer.length :=
    splice_length hst
  have hrep : Rep { b with
      buffer := splice b.buffer (b.head - xs.length) xs, head := b.head - xs.length } :=
    ⟨by simp only; omega, by simp only [hsz]; exact h2, by simp only [hsz]; exact h3,
      by simp only [hsz]; exact h4⟩
  refine ⟨hrep, ?_, fun hs => ⟨hrep, hs.cap_ge, by simp only [hsz]; exact hs.size_eq⟩⟩
  have hself : slice (splice b.buffer (b.head - xs.length) xs) (b.head - xs.length)
      (b.head - xs.length + xs.length) = xs := slice_splice_self (by omega)
  rw [Nat.sub_add_cancel hx] at hself hst
  simp only [bytes]
  rw [← slice_append (show b.head - xs.length ≤ b.head by omega) h1, hself,
    slice_splice_after (by omega) (by omega)]

/-- The writable part is large enough: the content moves back first. -/
theorem Rep.pushFront_shift (h : Rep b) (hx : xs.length ≤ b.writableBytes) :
    Becomes b (xs ++ b.bytes)
      { b with
        buffer := splice (splice b.buffer (b.head + xs.length) b.bytes) b.head xs
        tail := b.tail + xs.length } := by
  have hw := h.writable_eq
  have hr := h.readable_eq
  have hlen := h.bytes_length
  obtain ⟨h1, h2, h3, h4⟩ := h
  have hst : b.head + xs.length + b.bytes.length ≤ b.buffer.length := by omega
  have hsz : (splice b.buffer (b.head + xs.length) b.bytes).length = b.buffer.length :=
    splice_length hst
  have hsz' : (splice (splice b.buffer (b.head + xs.length) b.bytes) b.head xs).length
      = b.buffer.length := by rw [splice_length (by omega), hsz]
  have hrep : Rep { b with
      buffer := splice (splice b.buffer (b.head + xs.length) b.bytes) b.head xs
      tail := b.tail + xs.length } :=
    ⟨by simp only; omega, by simp only [hsz']; omega, by simp only [hsz']; exact h3,
      by simp only [hsz']; exact h4⟩
  refine ⟨hrep, ?_, fun hs => ⟨hrep, hs.cap_ge, by simp only [hsz']; exact hs.size_eq⟩⟩
  have htail : b.tail + xs.length = b.head + xs.length + b.bytes.length := by omega
  show slice (splice (splice b.buffer (b.head + xs.length) b.bytes) b.head xs) b.head
    (b.tail + xs.length) = xs ++ b.bytes
  rw [htail, ← slice_append (show b.head ≤ b.head + xs.length by omega)
      (show b.head + xs.length ≤ b.head + xs.length + b.bytes.length by omega),
    slice_splice_self (by omega), slice_splice_after (by omega) (by omega),
    slice_splice_self (by omega)]

theorem Rep.pushBack_room (h : Rep b) (hx : xs.length ≤ b.writableBytes) :
    b.pushBack xs = .ok (b.pushed xs) := by
  have hw := h.writable_eq
  have h2 := h.tail_le
  have h3 := h.size_le
  have hl := limit_lt
  rw [MessageBuffer.pushBack, MessageBuffer.ensureWritableBytes, ensureWritable_of_le hx,
    ok_bind, store_eq (by omega), ok_bind, addSz_eq (by simp only; omega)]
  rfl

theorem Rep.pushBackBuffer_room (h : Rep b) (hbuf : Rep buf)
    (hx : buf.readableBytes ≤ b.writableBytes) :
    b.pushBackBuffer buf = .ok (b.pushed buf.bytes) := by
  rw [MessageBuffer.pushBackBuffer, MessageBuffer.ensureWritableBytes, ensureWritable_of_le hx,
    ok_bind, h.append_eq hbuf hx]

/-- Neither is: a fresh buffer takes the bytes and then the content. -/
theorem Rep.pushFront_grow (h : Rep b) (hx : xs.length ≤ kAllocLimit) {newLen : Nat}
    (hnew : newLen = b.initCap ∨ newLen = xs.length + b.readableBytes)
    (hcap : b.initCap ≤ newLen) (hneed : xs.length + b.readableBytes ≤ newLen) :
    Post (Refused b xs.length) (Becomes b (xs ++ b.bytes)) (do
      let newBuf ← new newLen
      let newBuf ← newBuf.pushBack xs
      newBuf.pushBackBuffer b) := by
  have hr := h.readable_eq
  have hrl := h.readable_le
  have h2 := h.tail_le
  have h3 := h.size_le
  have hc := h.cap_le
  have hl := limit_lt
  have hoff := offset_le
  refine Post.bind ((new_fresh (show newLen + kBufferOffset < sizeMod by omega)).mono
    (fun f hf => show Refused b xs.length f from ⟨hf.1, by omega⟩) fun _ hb => hb)
    fun nb hnb => ?_
  have hw := hnb.writable_eq
  have hx1 : xs.length ≤ nb.writableBytes := by omega
  have hrep := hnb.rep.pushed hx1
  have hx2 : b.readableBytes ≤ (nb.pushed xs).writableBytes := by
    rw [hrep.writable_eq, hnb.rep.pushed_size hx1, hnb.size_eq]
    simp only [MessageBuffer.pushed, hnb.tail_eq]
    omega
  rw [hnb.rep.pushBack_room hx1, ok_bind, hrep.pushBackBuffer_room h hx2]
  have hbe := hrep.pushed_becomes (show b.bytes.length ≤ _ by rw [h.bytes_length]; exact hx2)
  refine ⟨hbe.rep, ?_, fun hs => ?_⟩
  · rw [hbe.bytes_eq, hnb.rep.pushed_bytes, hnb.bytes_eq, List.nil_append]
  · refine hbe.sized ((hnb.rep.pushed_becomes hx1).sized (hnb.sized ?_))
    exact Nat.le_trans hs.cap_ge hcap

theorem Rep.pushFront (h : Rep b) (hx : xs.length ≤ kAllocLimit) :
    Post (Refused b xs.length) (Becomes b (xs ++ b.bytes)) (b.pushFront xs) := by
  have hw := h.writable_eq
  have hr := h.readable_eq
  have hlen := h.bytes_length
  have hl := limit_lt
  obtain ⟨h1, h2, h3, h4⟩ := id h
  unfold MessageBuffer.pushFront
  by_cases hres : b.head ≥ xs.length
  · rw [if_pos hres, subSz_eq hres (by omega), store_eq (by omega), ok_bind,
      subSz_eq hres (by omega)]
    exact h.pushFront_reserve hres
  · rw [if_neg hres]
    by_cases hshift : xs.length ≤ b.writableBytes
    · rw [if_pos hshift, move, h.load_all, ok_bind, store_eq (by omega), ok_bind,
        store_eq (by simp only [splice_length (show
          b.head + xs.length + b.bytes.length ≤ b.buffer.length by omega)]; omega),
        ok_bind, addSz_eq (by simp only; omega)]
      exact h.pushFront_shift hshift
    · rw [if_neg hshift, addSz_eq (by omega)]
      by_cases hcap : xs.length + b.readableBytes < b.initCap
      · simp only [if_pos hcap]
        exact h.pushFront_grow hx (Or.inl rfl) (Nat.le_refl _) (by omega)
      · simp only [if_neg hcap]
        exact h.pushFront_grow hx (Or.inr rfl) (by omega) (Nat.le_refl _)

/-! ## Pushes that return

A push asks the allocator only if its bytes and the content nearly fill the
storage, so it does not fail before these are near the limit themselves. -/

/-- The allocator has refused a buffer that is to hold `n` bytes. -/
def TooLong (n : Nat) (f : Fault) : Prop :=
  f = .badAlloc ∧ kAllocLimit < 5 * n + 4 * kBufferOffset

theorem TooLong.mono {n m : Nat} {f : Fault} (h : TooLong n f) (hle : n ≤ m) : TooLong m f :=
  ⟨h.1, by have := h.2; omega⟩

theorem Rep.ensureWritableBytes_ok (h : Rep b)
    (hroom : b.readableBytes + len + kBufferOffset ≤ b.buffer.length) :
    ∃ b', b.ensureWritableBytes len = .ok b' := by
  have hw := h.writable_eq
  have hr := h.readable_eq
  have h1 := h.head_le
  have h2 := h.tail_le
  have h3 := h.size_le
  have hl := limit_lt
  rw [MessageBuffer.ensureWritableBytes, show (4 : Nat) = 3 + 1 from rfl]
  by_cases hle : len ≤ b.writableBytes
  · exact ⟨b, ensureWritable_of_le hle⟩
  · have hc : addSz len kBufferOffset ≤ addSz b.head b.writableBytes := by
      rw [addSz_eq (by omega), addSz_eq (by omega)]
      omega
    obtain ⟨b', hmv, -⟩ := h.compact len hc (by omega)
    rw [ensureWritable, if_neg hle, if_pos hc, hmv]
    exact ⟨_, rfl⟩

theorem Rep.ensureWritableBytes_tooLong (h : Rep b) (hlen : len ≤ kAllocLimit) :
    Post (TooLong (b.readableBytes + len)) (Ensured b len) (b.ensureWritableBytes len) := by
  have hpost := h.ensureWritableBytes (h.ensureFits hlen)
  cases hres : b.ensureWritableBytes len with
  | ok b' => exact hpost.of_ok hres
  | error f =>
      obtain ⟨hbad, hlimit⟩ := hpost.of_error hres
      have hfull : b.buffer.length < b.readableBytes + len + kBufferOffset := by
        by_contra hroom
        obtain ⟨b', hok⟩ := h.ensureWritableBytes_ok (Nat.not_lt.mp hroom)
        rw [hok] at hres
        cases hres
      exact ⟨hbad, by omega⟩

theorem Rep.pushBack_tooLong (h : Rep b) (hx : xs.length ≤ kAllocLimit) :
    Post (TooLong (b.bytes.length + xs.length)) (Becomes b (b.bytes ++ xs)) (b.pushBack xs) := by
  rw [h.bytes_length]
  exact h.pushBack_of_ensured hx (h.ensureWritableBytes_tooLong hx)

theorem Rep.pushFront_tooLong (h : Rep b) (hx : xs.length ≤ kAllocLimit) :
    Post (TooLong (xs.length + b.bytes.length)) (Becomes b (xs ++ b.bytes)) (b.pushFront xs) := by
  have hpost := h.pushFront hx
  cases hres : b.pushFront xs with
  | ok b' => exact hpost.of_ok hres
  | error f =>
      obtain ⟨hbad, hlimit⟩ := hpost.of_error hres
      have hw := h.writable_eq
      have hr := h.readable_eq
      have hlen := h.bytes_length
      have h1 := h.head_le
      have h2 := h.tail_le
      have h3 := h.size_le
      have hl := limit_lt
      -- neither the reserve nor the writable part takes the bytes
      have hreserve : b.head < xs.length := by
        by_contra hres'
        rw [MessageBuffer.pushFront, if_pos (by omega), subSz_eq (by omega) (by omega),
          store_eq (by omega)] at hres
        cases hres
      have hwritable : b.writableBytes < xs.length := by
        by_contra hshift
        rw [MessageBuffer.pushFront, if_neg (by omega), if_pos (by omega), move, h.load_all,
          ok_bind, store_eq (by omega), ok_bind, store_eq (by
            simp only [splice_length (show
              b.head + xs.length + b.bytes.length ≤ b.buffer.length by omega)]
            omega)] at hres
        cases hres
      exact ⟨hbad, by omega⟩

/-! ## Retrieving -/

/-- The storage size that `retrieveAll` leaves. -/
def shrunkSize (b : MessageBuffer) : Nat :=
  if b.buffer.length > mulSz b.initCap 2 then b.initCap else b.buffer.length

theorem Rep.retrieveAll_size (h : Rep b) : b.retrieveAll.buffer.length = b.shrunkSize := by
  have h3 := h.size_le
  have h4 := h.cap_le
  have hl := limit_lt
  simp only [retrieveAll, shrunkSize, mulSz_eq (show b.initCap * 2 < sizeMod by omega)]
  split
  · rw [List.length_take]; omega
  · rfl

theorem retrieveAll_initCap (b : MessageBuffer) : b.retrieveAll.initCap = b.initCap := by
  simp only [retrieveAll]; split <;> rfl

theorem retrieveAll_head (b : MessageBuffer) : b.retrieveAll.head = kBufferOffset := rfl

theorem retrieveAll_tail (b : MessageBuffer) : b.retrieveAll.tail = kBufferOffset := rfl

theorem Rep.shrunkSize_le (h : Rep b) : b.shrunkSize ≤ b.buffer.length := by
  have h3 := h.size_le
  have h4 := h.cap_le
  have hl := limit_lt
  simp only [shrunkSize, mulSz_eq (show b.initCap * 2 < sizeMod by omega)]
  split <;> omega

theorem Rep.cap_le_shrunkSize (h : Rep b) : b.initCap ≤ b.shrunkSize := by
  have h4 := h.cap_le
  simp only [shrunkSize]
  split <;> omega

theorem Sized.shrunkSize_eq (h : Sized b) : b.shrunkSize = b.buffer.length := by
  have h3 := h.size_le
  have h4 := h.cap_le
  have h5 := h.cap_ge
  have h6 := h.size_eq
  have hl := limit_lt
  rw [shrunkSize, mulSz_eq (by omega), if_neg (by omega)]

theorem Sized.shrunkSize_ge (h : Sized b) : kBufferOffset ≤ b.shrunkSize := by
  rw [h.shrunkSize_eq, h.size_eq]
  exact Nat.le_add_left _ _

theorem Rep.retrieveAll (h : Rep b) (hroom : kBufferOffset ≤ b.shrunkSize) :
    Becomes b [] b.retrieveAll := by
  have hsz := h.retrieveAll_size
  have hle := h.shrunkSize_le
  have h3 := h.size_le
  have hrep : Rep b.retrieveAll :=
    ⟨Nat.le_refl _, by rw [retrieveAll_tail, hsz]; exact hroom,
      by omega, by rw [retrieveAll_initCap, hsz]; exact h.cap_le_shrunkSize⟩
  refine ⟨hrep, by rw [bytes, retrieveAll_head, retrieveAll_tail, slice_self], fun hs => ?_⟩
  exact ⟨hrep, by rw [retrieveAll_initCap]; exact hs.cap_ge,
    by rw [hsz, hs.shrunkSize_eq, retrieveAll_initCap, hs.size_eq]⟩

theorem Rep.retrieve (h : Rep b) (n : Nat)
    (hroom : b.readableBytes ≤ n → kBufferOffset ≤ b.shrunkSize) :
    Becomes b (b.bytes.drop n) (b.retrieve n) := by
  have hlen := h.bytes_length
  have hr := h.readable_eq
  unfold MessageBuffer.retrieve
  by_cases hall : n ≥ b.readableBytes
  · rw [if_pos hall, List.drop_of_length_le (by omega)]
    exact h.retrieveAll (hroom hall)
  · have hl := limit_lt
    have h1 := h.head_le
    have h2 := h.tail_le
    have h3 := h.size_le
    rw [if_neg hall, addSz_eq (by omega), bytes, slice_drop]
    exact h.reindex _ _ (by omega) h.tail_le

theorem Rep.retrieveUntil_eq (h : Rep b) {k : Nat} (hk : k ≤ b.readableBytes) :
    b.retrieveUntil (b.head + k) = .ok (b.retrieve k) := by
  have hr := h.readable_eq
  have h1 := h.head_le
  have h2 := h.tail_le
  have h3 := h.size_le
  have hl := limit_lt
  rw [MessageBuffer.retrieveUntil, if_pos (by omega), subSz_eq (by omega) (by omega),
    Nat.add_sub_cancel_left]

theorem Rep.retrieveUntil_fails (h : Rep b) {k : Nat} (hk : ¬ k ≤ b.readableBytes) :
    b.retrieveUntil (b.head + k) = .error .assertion := by
  have hr := h.readable_eq
  have h1 := h.head_le
  rw [MessageBuffer.retrieveUntil, if_neg (by omega)]

theorem Rep.retrieveUntil (h : Rep b) {k : Nat} (hk : k ≤ b.readableBytes)
    (hroom : b.readableBytes ≤ k → kBufferOffset ≤ b.shrunkSize) :
    ∃ b', b.retrieveUntil (b.head + k) = .ok b' ∧ Becomes b (b.bytes.drop k) b' :=
  ⟨b.retrieve k, h.retrieveUntil_eq hk, h.retrieve k hroom⟩

theorem Rep.read_all (h : Rep b) {n : Nat} (hn : b.readableBytes ≤ n) :
    b.read n = .ok (b.bytes, b.retrieveAll) := by
  have hclamp : (if n > b.readableBytes then b.readableBytes else n) = b.readableBytes := by
    split <;> omega
  simp only [MessageBuffer.read, hclamp, h.load_all, ok_bind]
  rw [MessageBuffer.retrieve, if_pos (Nat.le_refl _)]
  rfl

theorem Rep.read (h : Rep b) (n : Nat)
    (hroom : b.readableBytes ≤ n → kBufferOffset ≤ b.shrunkSize) :
    ∃ b', b.read n = .ok (b.bytes.take n, b') ∧ Becomes b (b.bytes.drop n) b' := by
  have hlen := h.bytes_length
  by_cases hall : b.readableBytes ≤ n
  · refine ⟨b.retrieveAll, ?_, ?_⟩
    · rw [h.read_all hall, List.take_of_length_le (by omega)]
    · rw [List.drop_of_length_le (by omega)]
      exact h.retrieveAll (hroom hall)
  · refine ⟨b.retrieve n, ?_, h.retrieve n hroom⟩
    have hle : n ≤ b.readableBytes := by omega
    simp only [MessageBuffer.read, if_neg (show ¬ n > b.readableBytes by omega),
      h.load_eq hle, ok_bind]
    rfl

theorem Rep.read_eq (h : Rep b) (n : Nat) : b.read n = .ok (b.bytes.take n, b.retrieve n) := by
  have hlen := h.bytes_length
  by_cases hall : b.readableBytes ≤ n
  · rw [h.read_all hall, List.take_of_length_le (by omega), MessageBuffer.retrieve, if_pos hall]
  · simp only [MessageBuffer.read, if_neg (show ¬ n > b.readableBytes by omega),
      h.load_eq (Nat.le_of_not_le hall), ok_bind]
    rfl

theorem retrieve_initCap (b : MessageBuffer) (n : Nat) : (b.retrieve n).initCap = b.initCap := by
  unfold MessageBuffer.retrieve
  split
  · exact retrieveAll_initCap b
  · rfl

theorem Rep.peekInt (h : Rep b) {w : Nat} (hw : w ≤ b.readableBytes) :
    b.peekInt w = .ok (netValue (b.bytes.take w)) := by
  rw [MessageBuffer.peekInt, if_pos hw, h.load_eq hw]
  rfl

/-! ## Moving the tail -/

theorem unwrite_fails {n : Nat} (hn : ¬ n ≤ b.readableBytes) :
    b.unwrite n = .error .assertion := if_neg hn

theorem Rep.unwrite (h : Rep b) {n : Nat} (hn : n ≤ b.readableBytes) :
    ∃ b', b.unwrite n = .ok b' ∧ Becomes b (b.bytes.take (b.bytes.length - n)) b' := by
  have hlen := h.bytes_length
  have hr := h.readable_eq
  have hl := limit_lt
  obtain ⟨h1, h2, h3, -⟩ := id h
  have hre := h.reindex b.head (b.tail - n) (by omega) (by omega)
  refine ⟨{ b with tail := b.tail - n }, ?_, ?_⟩
  · rw [MessageBuffer.unwrite, if_pos hn, subSz_eq (by omega) (by omega)]
  · rw [bytes, slice_take (by rw [← bytes]; omega), ← bytes,
      show b.head + (b.bytes.length - n) = b.tail - n by omega]
    exact hre

theorem hasWritten_fails {n : Nat} (hn : ¬ n ≤ b.writableBytes) :
    b.hasWritten n = .error .assertion := if_neg hn

theorem Rep.hasWritten (h : Rep b) {n : Nat} (hn : n ≤ b.writableBytes) :
    ∃ b' ys, b.hasWritten n = .ok b' ∧ Becomes b (b.bytes ++ ys) b' := by
  have hw := h.writable_eq
  have hl := limit_lt
  obtain ⟨h1, h2, h3, -⟩ := id h
  have hre := h.reindex b.head (b.tail + n) (by omega) (by omega)
  refine ⟨{ b with tail := b.tail + n }, slice b.buffer b.tail (b.tail + n), ?_, ?_⟩
  · rw [MessageBuffer.hasWritten, if_pos hn, addSz_eq (by omega)]
  · rw [bytes, slice_append h1 (Nat.le_add_right _ _)]
    exact hre

/-! ## Reading from a descriptor -/

theorem received_length {offer : Option (List Byte)} {data : List Byte}
    (h : b.received offer = some data) : data.length ≤ b.iovTotal ∧ b.iovTotal < 2 ^ 63 := by
  unfold received readv at h
  split at h
  · cases h
  · obtain ⟨off, -, rfl⟩ := Option.map_eq_some_iff.mp h
    exact ⟨by rw [List.length_take]; omega, by omega⟩

/-- The narrowing of `iov_len` to `int` never promises more than there is. -/
theorem iovLen_le {n : Nat} (h : iovLen n < 2 ^ 63) : iovLen n ≤ n := by
  simp only [iovLen] at h ⊢
  have hs : sizeMod = 2 ^ 64 := rfl
  by_cases hlow : n % 2 ^ 32 < 2 ^ 31
  · rw [if_pos hlow]; exact Nat.mod_le _ _
  · rw [if_neg hlow] at h; omega

theorem iovLen_eq {n : Nat} (h : n < kExtBuffer) : iovLen n = n := by
  have hk : kExtBuffer = 8192 := rfl
  simp only [iovLen]
  rw [Nat.mod_eq_of_lt (by omega), if_pos (by omega)]

/-- How `readFd` ends: it has appended what was received, or the push of
the overflow threw with only the writable part filled. -/
def Filled (b : MessageBuffer) (offer : Option (List Byte)) :
    MessageBuffer × Option Fault → Prop
  | (b', none) => Becomes b (b.bytes ++ (b.received offer).getD []) b'
  | (b', some f) => Refused b kExtBuffer f ∧
      ∃ k, Becomes b (b.bytes ++ ((b.received offer).getD []).take k) b'

/-- All received bytes fit behind the tail. -/
theorem Rep.readFd_inplace (h : Rep b) {data : List Byte} (hd : data.length ≤ b.writableBytes)
    (hi : data.length ≤ iovLen b.writableBytes) :
    b.store b.tail (data.take (iovLen b.writableBytes)) =
        .ok { b with buffer := splice b.buffer b.tail data } ∧
      Becomes b (b.bytes ++ data)
        { b with buffer := splice b.buffer b.tail data, tail := addSz b.tail data.length } := by
  have hw := h.writable_eq
  have h2 := h.tail_le
  have h3 := h.size_le
  have hl := limit_lt
  rw [List.take_of_length_le hi, store_eq (by omega), addSz_eq (by omega)]
  exact ⟨rfl, h.pushed_becomes hd⟩

/-- The overflow case: the writable part is filled and the rest pushed. -/
theorem Rep.readFd_overflow (h : Rep b) {data : List Byte}
    (hgt : b.writableBytes < data.length) :
    b.store b.tail (data.take b.writableBytes) =
        .ok { b with buffer := splice b.buffer b.tail (data.take b.writableBytes) } ∧
      b.pushed (data.take b.writableBytes) =
        { b with
          buffer := splice b.buffer b.tail (data.take b.writableBytes)
          tail := (splice b.buffer b.tail (data.take b.writableBytes)).length } := by
  have hwe := h.writable_eq
  have h2 := h.tail_le
  have hfirst : (data.take b.writableBytes).length = b.writableBytes := by
    rw [List.length_take]; omega
  have hst : b.tail + (data.take b.writableBytes).length ≤ b.buffer.length := by omega
  refine ⟨store_eq hst, ?_⟩
  rw [MessageBuffer.pushed, splice_length hst]
  congr 1
  omega

theorem Rep.readFd (h : Rep b) (offer : Option (List Byte)) :
    Filled b offer (b.readFd offer) := by
  unfold MessageBuffer.readFd
  cases hrec : b.received offer with
  | none =>
      simp only [Filled, hrec, Option.getD_none, List.append_nil]
      exact h.becomes_self
  | some data =>
      obtain ⟨hlen, htot⟩ := received_length hrec
      unfold iovTotal at hlen htot
      by_cases hw : b.writableBytes < kExtBuffer
      · simp only [if_pos hw, iovLen_eq hw] at hlen htot ⊢
        by_cases hle : data.length ≤ b.writableBytes
        · obtain ⟨hst, hbe⟩ := h.readFd_inplace hle (by rw [iovLen_eq hw]; exact hle)
          rw [iovLen_eq hw] at hst
          simp only [hst, if_pos hle, Filled, hrec, Option.getD_some]
          exact hbe
        · obtain ⟨hst, hpu⟩ := h.readFd_overflow (Nat.lt_of_not_le hle)
          have hx : (data.take b.writableBytes).length ≤ b.writableBytes := by
            rw [List.length_take]; omega
          have hbe := h.pushed_becomes hx
          have hk := extBuffer_le
          have hpush := hbe.rep.pushBack (show (data.drop b.writableBytes).length ≤ kAllocLimit by
            rw [List.length_drop]; omega)
          rw [hpu] at hpush hbe
          simp only [hst, if_neg hle]
          split
          · rename_i f hf
            obtain ⟨rfl, hlim⟩ := hpush.of_error hf
            have hsz : (splice b.buffer b.tail (data.take b.writableBytes)).length
                = b.buffer.length := h.pushed_size hx
            simp only [hsz, List.length_drop] at hlim
            refine ⟨⟨rfl, by omega⟩, b.writableBytes, ?_⟩
            rw [hrec]
            exact hbe
          · rename_i b'' hb''
            have hok := hpush.of_ok hb''
            rw [hbe.bytes_eq, List.append_assoc, List.take_append_drop] at hok
            simp only [Filled, hrec, Option.getD_some]
            exact hbe.trans hok
      · simp only [if_neg hw, Nat.add_zero] at hlen htot
        have hle := iovLen_le htot
        obtain ⟨hst, hbe⟩ := h.readFd_inplace (show data.length ≤ b.writableBytes by omega) hlen
        simp only [hst, if_pos (show data.length ≤ b.writableBytes by omega), Filled, hrec,
          Option.getD_some]
        exact hbe

end MessageBuffer

end Netpoll
