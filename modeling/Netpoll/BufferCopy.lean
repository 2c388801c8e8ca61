import Netpoll.BufferReach

/-!
# The two `std::copy` calls of `MessageBuffer`

`ensureWritableBytes` compacts the readable bytes and `pushFront` shifts
them, both with `std::copy` inside one storage vector. The functions are
written once more with the copy as a parameter: `move` gives the
functions themselves, `copyAsserting` is a library that checks the
standard's precondition (the destination does not start inside the
source), `copyForward` is one that copies element by element, the first
one first.

The compaction moves left as long as its sizes do not wrap. The shift
moves right, so its destination starts inside the source whenever fewer
bytes are pushed than are readable.
-/

namespace Netpoll

open MessageBuffer

namespace MessageBuffer

/-- A way to copy `n` bytes of storage from index `src` to `dst`. -/
abbrev Copier := MessageBuffer → Nat → Nat → Nat → Except Fault MessageBuffer

/-- `std::copy` with its precondition asserted. -/
def copyAsserting : Copier := fun b src n dst =>
  if src ≤ dst ∧ dst < src + n then .error .assertion else b.move src n dst

/-- `std::copy` element by element in increasing order. -/
def copyForward : Copier := fun b src n dst =>
  if n = 0 ∨ (src + n ≤ b.buffer.length ∧ dst + n ≤ b.buffer.length)
  then .ok { b with buffer := copyUp b.buffer src dst n } else .error .outOfBounds

/-- `ensureWritableBytes` with a given copy. -/
def ensureWritableBy (cp : Copier) (depth : Nat) (b : MessageBuffer) (len : Nat) :
    Except Fault MessageBuffer :=
  match depth with
  | 0 => .error .stackOverflow
  | depth + 1 =>
    if b.writableBytes ≥ len then .ok b
    else if addSz b.head b.writableBytes ≥ addSz len kBufferOffset then do
      let b ← cp b b.head b.readableBytes kBufferOffset
      return { b with
        tail := addSz kBufferOffset (subSz b.tail b.head)
        head := kBufferOffset }
    else do
      let newbuffer ← new (b.grownLen len)
      let newbuffer ← newbuffer.ensureWritableBy cp depth b.readableBytes
      newbuffer.append b

def ensureWritableBytesBy (cp : Copier) (b : MessageBuffer) (len : Nat) :
    Except Fault MessageBuffer :=
  b.ensureWritableBy cp 4 len

def pushBackBufferBy (cp : Copier) (b buf : MessageBuffer) : Except Fault MessageBuffer := do
  let b ← b.ensureWritableBytesBy cp buf.readableBytes
  b.append buf

def pushBackBy (cp : Copier) (b : MessageBuffer) (buf : List Byte) :
    Except Fault MessageBuffer := do
  let b ← b.ensureWritableBytesBy cp buf.length
  let b ← b.store b.tail buf
  return { b with tail := addSz b.tail buf.length }

/-- `pushFront` with a given copy. -/
def pushFrontBy (cp : Copier) (b : MessageBuffer) (buf : List Byte) :
    Except Fault MessageBuffer :=
  if b.head ≥ buf.length then do
    let b ← b.store (subSz b.head buf.length) buf
    return { b with head := subSz b.head buf.length }
  else if buf.length ≤ b.writableBytes then do
    let b ← cp b b.head b.readableBytes (b.head + buf.length)
    let b ← b.store b.head buf
    return { b with tail := addSz b.tail buf.length }
  else do
    let newLen :=
      if addSz buf.length b.readableBytes < b.initCap then b.initCap
      else addSz buf.length b.readableBytes
    let newBuf ← new newLen
    let newBuf ← newBuf.pushBackBy cp buf
    newBuf.pushBackBufferBy cp b

end MessageBuffer

variable {b : MessageBuffer} {cp cp' : Copier} {len : Nat} {xs : List Byte}

/-! ## With `move` these are the functions themselves -/

theorem ensureWritableBy_move (depth : Nat) (b : MessageBuffer) (len : Nat) :
    b.ensureWritableBy move depth len = b.ensureWritable depth len := by
  induction depth generalizing b len with
  | zero => rfl
  | succ depth ih => simp only [ensureWritableBy, ensureWritable, ih]

theorem ensureWritableBytesBy_move (b : MessageBuffer) (len : Nat) :
    b.ensureWritableBytesBy move len = b.ensureWritableBytes len :=
  ensureWritableBy_move 4 b len

theorem pushFrontBy_move (b : MessageBuffer) (buf : List Byte) :
    b.pushFrontBy move buf = b.pushFront buf := by
  simp only [pushFrontBy, pushFront, pushBackBy, pushBack, pushBackBufferBy, pushBackBuffer,
    ensureWritableBytesBy_move]

/-! ## The copies that are executed

A buffer that has the room does not copy, so the replacement buffers
never do; each function executes at most one `std::copy`, on `b`. -/

theorem ensureWritableBy_of_le {d : Nat} (h : len ≤ b.writableBytes) :
    b.ensureWritableBy cp (d + 1) len = .ok b := by
  rw [ensureWritableBy, if_pos h]

theorem pushBackBy_of_le (h : xs.length ≤ b.writableBytes) :
    b.pushBackBy cp xs = b.pushBack xs := by
  rw [pushBackBy, pushBack, ensureWritableBytesBy, MessageBuffer.ensureWritableBytes,
    ensureWritableBy_of_le h, ensureWritable_of_le h]

theorem pushBackBufferBy_of_le {buf : MessageBuffer} (h : buf.readableBytes ≤ b.writableBytes) :
    b.pushBackBufferBy cp buf = b.pushBackBuffer buf := by
  rw [pushBackBufferBy, pushBackBuffer, ensureWritableBytesBy, MessageBuffer.ensureWritableBytes,
    ensureWritableBy_of_le h, ensureWritable_of_le h]

theorem MessageBuffer.Rep.ensureWritableBytesBy_congr (h : Rep b)
    (hcp : ¬ len ≤ b.writableBytes → addSz len kBufferOffset ≤ addSz b.head b.writableBytes →
      cp b b.head b.readableBytes kBufferOffset = cp' b b.head b.readableBytes kBufferOffset) :
    b.ensureWritableBytesBy cp len = b.ensureWritableBytesBy cp' len := by
  rw [ensureWritableBytesBy, ensureWritableBytesBy, ensureWritableBy, ensureWritableBy]
  by_cases hle : len ≤ b.writableBytes
  · rw [if_pos hle, if_pos hle]
  · rw [if_neg hle, if_neg hle]
    by_cases hc : addSz len kBufferOffset ≤ addSz b.head b.writableBytes
    · rw [if_pos hc, if_pos hc, hcp hle hc]
    · rw [if_neg hc, if_neg hc]
      cases hnew : MessageBuffer.new (b.grownLen len) with
      | error f => rw [error_bind, error_bind]
      | ok nb =>
          have hroom := h.replacement_room len hnew
          rw [ok_bind, ok_bind, ensureWritableBy_of_le hroom, ensureWritableBy_of_le hroom]

/-- The buffer that `pushFront` allocates takes both parts without a copy. -/
theorem MessageBuffer.Rep.pushFrontBy_grow (h : Rep b) (hx : xs.length ≤ kAllocLimit)
    {newLen : Nat} (hcap : newLen = b.initCap ∨ newLen = xs.length + b.readableBytes)
    (hneed : xs.length + b.readableBytes ≤ newLen) :
    (do let newBuf ← MessageBuffer.new newLen
        let newBuf ← newBuf.pushBackBy cp xs
        newBuf.pushBackBufferBy cp b) =
      (do let newBuf ← MessageBuffer.new newLen
          let newBuf ← newBuf.pushBack xs
          newBuf.pushBackBuffer b) := by
  have hrl := h.readable_le
  have hc := h.cap_le
  have h3 := h.size_le
  have hl := limit_lt
  have hoff := offset_le
  have hfresh := new_fresh (show newLen + kBufferOffset < sizeMod by omega)
  cases hnew : MessageBuffer.new newLen with
  | error f => rw [error_bind, error_bind]
  | ok nb =>
      have hnb := hfresh.of_ok hnew
      have hw := hnb.writable_eq
      have hx1 : xs.length ≤ nb.writableBytes := by omega
      have hx2 : b.readableBytes ≤ (nb.pushed xs).writableBytes := by
        rw [(hnb.rep.pushed hx1).writable_eq, hnb.rep.pushed_size hx1, hnb.size_eq]
        simp only [MessageBuffer.pushed, hnb.tail_eq]
        omega
      rw [ok_bind, ok_bind, pushBackBy_of_le hx1, hnb.rep.pushBack_room hx1, ok_bind, ok_bind,
        pushBackBufferBy_of_le hx2]

theorem MessageBuffer.Rep.pushFrontBy_congr (h : Rep b) (hx : xs.length ≤ kAllocLimit)
    (hcp : ¬ xs.length ≤ b.head → xs.length ≤ b.writableBytes →
      cp b b.head b.readableBytes (b.head + xs.length) =
        cp' b b.head b.readableBytes (b.head + xs.length)) :
    b.pushFrontBy cp xs = b.pushFrontBy cp' xs := by
  have hrl := h.readable_le
  have hl := limit_lt
  rw [pushFrontBy, pushFrontBy]
  by_cases hres : xs.length ≤ b.head
  · rw [if_pos hres, if_pos hres]
  · rw [if_neg hres, if_neg hres]
    by_cases hshift : xs.length ≤ b.writableBytes
    · rw [if_pos hshift, if_pos hshift, hcp hres hshift]
    · rw [if_neg hshift, if_neg hshift, addSz_eq (by omega)]
      by_cases hcap : xs.length + b.readableBytes < b.initCap
      · simp only [if_pos hcap]
        rw [h.pushFrontBy_grow hx (Or.inl rfl) (by omega),
          h.pushFrontBy_grow hx (Or.inl rfl) (by omega)]
      · simp only [if_neg hcap]
        rw [h.pushFrontBy_grow hx (Or.inr rfl) (Nat.le_refl _),
          h.pushFrontBy_grow hx (Or.inr rfl) (Nat.le_refl _)]

/-! ## Legal copies -/

theorem copyAsserting_legal {src n dst : Nat} (h : ¬ (src ≤ dst ∧ dst < src + n)) :
    copyAsserting b src n dst = b.move src n dst :=
  if_neg h

/-- A copy of the readable bytes whose destination does not start among
them moves them as they were, element by element. -/
theorem MessageBuffer.Rep.copyForward_legal (h : Rep b) {dst : Nat}
    (hlegal : ¬ (b.head ≤ dst ∧ dst < b.head + b.readableBytes)) :
    copyForward b b.head b.readableBytes dst = b.move b.head b.readableBytes dst := by
  have hr := h.readable_eq
  have hlen := h.bytes_length
  have h1 := h.head_le
  have h2 := h.tail_le
  rw [move, h.load_all, ok_bind, store, hlen, copyForward]
  by_cases hz : b.readableBytes = 0
  · have hnil : b.bytes = [] := List.length_eq_zero_iff.mp (by omega)
    rw [if_pos (Or.inl hz), if_pos (Or.inl hz), hz, hnil]
    simp only [copyUp, splice, List.append_nil, List.length_nil, Nat.add_zero,
      List.take_append_drop]
  · by_cases hdst : dst + b.readableBytes ≤ b.buffer.length
    · rw [if_pos (Or.inr ⟨by omega, hdst⟩), if_pos (Or.inr hdst),
        copyUp_eq_splice (by omega) (by omega) hdst, bytes,
        show b.head + b.readableBytes = b.tail by omega]
    · rw [if_neg (by omega), if_neg (by omega)]

/-- The compaction of `ensureWritableBytes(len)` starts at or before the
end of the reserve and reaches past it; only a wrapped sum lets it in. -/
def CompactsUp (b : MessageBuffer) (len : Nat) : Prop :=
  sizeMod ≤ len + kBufferOffset ∧ addSz len kBufferOffset ≤ b.head + b.writableBytes ∧
    b.head ≤ kBufferOffset ∧ kBufferOffset < b.tail

/-- The shift of `pushFront` moves more bytes than it makes room for. -/
def ShiftsInto (b : MessageBuffer) (n : Nat) : Prop :=
  b.head < n ∧ n ≤ b.writableBytes ∧ n < b.readableBytes

/-- A compaction moves to the left, unless its sum has wrapped. -/
theorem MessageBuffer.Rep.compaction_legal (h : Rep b) (hno : ¬ CompactsUp b len)
    (hle : ¬ len ≤ b.writableBytes)
    (hc : addSz len kBufferOffset ≤ addSz b.head b.writableBytes) :
    ¬ (b.head ≤ kBufferOffset ∧ kBufferOffset < b.head + b.readableBytes) := by
  have hr := h.readable_eq
  have hw := h.writable_eq
  obtain ⟨h1, h2, h3, -⟩ := h
  have hl := limit_lt
  rw [addSz_eq (show b.head + b.writableBytes < sizeMod by omega)] at hc
  rintro ⟨hhd, htl⟩
  by_cases hwrap : sizeMod ≤ len + kBufferOffset
  · exact hno ⟨hwrap, hc, hhd, by omega⟩
  · rw [addSz_eq (by omega)] at hc
    omega

theorem MessageBuffer.Rep.ensure_asserting_iff (h : Rep b) (len : Nat) :
    b.ensureWritableBytesBy copyAsserting len ≠ .error .assertion ↔ ¬ CompactsUp b len := by
  constructor
  · rintro hne ⟨hwrap, hc, hhd, htl⟩
    apply hne
    have hr := h.readable_eq
    have hw := h.writable_eq
    obtain ⟨h1, h2, h3, -⟩ := h
    have hl := limit_lt
    have hoff := offset_le
    rw [ensureWritableBytesBy, ensureWritableBy, if_neg (by omega),
      if_pos (by rw [addSz_eq (a := b.head) (by omega)]; exact hc), copyAsserting,
      if_pos ⟨hhd, by omega⟩]
    rfl
  · intro hno
    have heq : b.ensureWritableBytesBy copyAsserting len = b.ensureWritableBytesBy move len :=
      h.ensureWritableBytesBy_congr fun hle hc =>
        copyAsserting_legal (h.compaction_legal hno hle hc)
    rw [heq, ensureWritableBytesBy_move]
    intro he
    rcases h.ensureWritableBytes_fault he with hf | hf <;> cases hf

theorem MessageBuffer.Rep.pushFront_asserting_iff (h : Rep b) (hx : xs.length ≤ kAllocLimit) :
    b.pushFrontBy copyAsserting xs ≠ .error .assertion ↔ ¬ ShiftsInto b xs.length := by
  constructor
  · rintro hne ⟨hhd, hw, hr⟩
    apply hne
    rw [pushFrontBy, if_neg (by omega), if_pos hw, copyAsserting, if_pos ⟨by omega, by omega⟩]
    rfl
  · intro hno
    have heq : b.pushFrontBy copyAsserting xs = b.pushFrontBy move xs :=
      h.pushFrontBy_congr hx fun hres hshift =>
        copyAsserting_legal fun hin => hno ⟨by omega, hshift, by omega⟩
    rw [heq, pushFrontBy_move]
    intro he
    exact absurd ((h.pushFront hx).of_error he).1 (by decide)

/-- The compacted content, copied element by element. -/
theorem MessageBuffer.Rep.ensure_forward (h : Rep b) (hno : ¬ CompactsUp b len) :
    Post (fun f => f = .badAlloc ∨ sizeMod ≤ b.readableBytes + len + 2 * kBufferOffset)
      (fun b' => b'.bytes = b.bytes) (b.ensureWritableBytesBy copyForward len) := by
  have heq : b.ensureWritableBytesBy copyForward len = b.ensureWritableBytesBy move len :=
    h.ensureWritableBytesBy_congr fun hle hc =>
      h.copyForward_legal (h.compaction_legal hno hle hc)
  rw [heq, ensureWritableBytesBy_move]
  by_cases hfit : EnsureFits b len
  · exact (h.ensureWritableBytes hfit).mono (fun _ hf => Or.inl hf.1) fun _ hen => hen.bytes_eq
  · rcases EnsureFits.breaks h hfit with he | ⟨b', he, -, hbe⟩
    · rw [he]
      right
      by_contra hlt
      exact hfit ((h.ensureFits_iff (not_or.mp hfit).1).mpr (by omega)).1
    · rw [he]
      exact hbe

/-- The prepended content, shifted element by element. -/
theorem MessageBuffer.Rep.pushFront_forward (h : Rep b) (hx : xs.length ≤ kAllocLimit)
    (hno : ¬ ShiftsInto b xs.length) :
    Post (· = .badAlloc) (fun b' => b'.bytes = xs ++ b.bytes) (b.pushFrontBy copyForward xs) := by
  have heq : b.pushFrontBy copyForward xs = b.pushFrontBy move xs :=
    h.pushFrontBy_congr hx fun hres hshift =>
      h.copyForward_legal fun hin => hno ⟨by omega, hshift, by omega⟩
  rw [heq, pushFrontBy_move]
  exact (h.pushFront hx).mono (fun _ hf => hf.1) fun _ hbe => hbe.bytes_eq

/-- **When the copies are legal.** On every reachable buffer, the `std::copy`
executed by `ensureWritableBytes(len)` meets the precondition exactly when
no wrapped sum makes it compact to the right, and that of `pushFront`
exactly when the shift is at least as long as the content. Legal copies
done element by element give the compacted and the prepended content. -/
theorem copies_legal_iff (h : Reached b) (len : UInt64) (v : View) :
    (b.ensureWritableBytesBy copyAsserting len.toNat ≠ .error .assertion ↔
      ¬ CompactsUp b len.toNat) ∧
    (b.pushFrontBy copyAsserting v.bytes ≠ .error .assertion ↔ ¬ ShiftsInto b v.bytes.length) ∧
    (¬ CompactsUp b len.toNat →
      Post (fun f => f = .badAlloc ∨ sizeMod ≤ b.readableBytes + len.toNat + 2 * kBufferOffset)
        (fun b' => b'.bytes = b.bytes) (b.ensureWritableBytesBy copyForward len.toNat)) ∧
    (¬ ShiftsInto b v.bytes.length →
      Post (· = .badAlloc) (fun b' => b'.bytes = v.bytes ++ b.bytes)
        (b.pushFrontBy copyForward v.bytes)) :=
  ⟨h.rep.ensure_asserting_iff _, h.rep.pushFront_asserting_iff v.fits,
    h.rep.ensure_forward, h.rep.pushFront_forward v.fits⟩

/-- The bytes 1 to 8. -/
def oneToEight : View := ⟨[1, 2, 3, 4, 5, 6, 7, 8], by decide⟩

/-- A buffer of 8 bytes after `pushFront` has used up the reserve. -/
def noReserve : MessageBuffer := ⟨0, 8, 8, [1, 2, 3, 4, 5, 6, 7, 8] ++ List.replicate 8 0⟩

theorem reached_noReserve : Reached noReserve := by
  refine Reached.of_run [.construct 8, .pushFront 0 oneToEight] ?_
    (.cons ⟨BufStore.live_of_returned rfl, rfl⟩
      (.cons ⟨BufStore.live_of_returned rfl, rfl⟩ (.nil _))) List.mem_cons_self
  intro op hop s
  rcases List.mem_cons.mp hop with rfl | hop
  · exact (by decide : (8 : UInt64).toNat + kBufferOffset < sizeMod)
  · obtain rfl := List.mem_singleton.mp hop
    trivial

/-- A second `pushFront` of eight bytes shifts by the whole content. -/
theorem copies_legal_eight :
    ∃ b', noReserve.pushFrontBy copyForward oneToEight.bytes = .ok b' ∧
      b'.bytes = oneToEight.bytes ++ noReserve.bytes := by
  have hpost := (copies_legal_iff reached_noReserve 0 oneToEight).2.2.2
    fun h => absurd h.2.2 (by decide)
  cases hres : noReserve.pushFrontBy copyForward oneToEight.bytes with
  | ok b' => exact ⟨b', rfl, hpost.of_ok hres⟩
  | error f =>
      have hok : (noReserve.pushFrontBy copyForward oneToEight.bytes).isOk = true := by decide
      rw [hres] at hok
      cases hok

/-- `b.pushFront("\t")` shifts the eight bytes by one: the destination starts
inside the source, and a copy in increasing order repeats the first byte. -/
theorem pushFront_overlaps :
    Reached noReserve ∧
      noReserve.pushFrontBy copyAsserting [9] = .error .assertion ∧
      (noReserve.pushFrontBy copyForward [9]).map bytes = .ok [9, 1, 1, 1, 1, 1, 1, 1, 1] ∧
      (noReserve.pushFront [9]).map bytes = .ok [9, 1, 2, 3, 4, 5, 6, 7, 8] :=
  ⟨reached_noReserve, by decide, by decide, by decide⟩

end Netpoll
