import Netpoll.BufferSeq

/-!
# What a reachable `MessageBuffer` promises

`Reached b` says that some program over the public interface, in bounds
so far, holds the buffer `b`. Two promises of the interface are settled
for all of these buffers.

`ensureWritableBytes(len)` makes room for `len` bytes and keeps the
readable ones, exactly when the sizes it adds up do not wrap; the
recursion through `pushBack` is one level deep in any case.

The accessors that assert their bound before they touch the storage are
run with a reader that refuses every byte outside `[head, tail)`. The
two `operator[]` need more than their own assertion, which admits the
offset `readableBytes()`.
-/

namespace Netpoll

open MessageBuffer

variable {b b' : MessageBuffer}

/-- `b` is one of the buffers of a program that has been in bounds so far. -/
def Reached (b : MessageBuffer) : Prop :=
  ∃ ops s, Throughout BufStep BufStore.Sound BufStore.empty ops ∧
    Run BufStep BufStore.empty ops s ∧ b ∈ s.bufs

theorem Reached.rep (h : Reached b) : Rep b := by
  obtain ⟨ops, s, hsound, hrun, hb⟩ := h
  have hguard := (BufStore.sound_iff_guard ops).mp hsound
  have hgood := (hguard.guarded List.prefix_rfl hrun).invariant (I := BufStore.Good)
    (fun _ _ _ h hs => BufStore.good_step h hs.2 hs.1) BufStore.good_empty
  exact hgood.rep b hb

/-- A program whose operations need nothing in order to stay in bounds. -/
theorem Reached.of_run (ops : List BufOp) {s : BufStore} (hops : ∀ op ∈ ops, ∀ s, BufGuard s op)
    (hrun : Run BufStep BufStore.empty ops s) (hb : b ∈ s.bufs) : Reached b :=
  ⟨ops, s, (BufStore.sound_iff_guard ops).mpr (everyStep_of_labels hops), hrun, hb⟩

/-! ## `ensureWritableBytes` -/

/-- What `ensureWritableBytes(len)` promises of the buffer it leaves. -/
def RoomFor (b : MessageBuffer) (len : Nat) (b' : MessageBuffer) : Prop :=
  len ≤ b'.writableBytes ∧ b'.bytes = b.bytes ∧ InBounds b'

/-- A fresh buffer reports the length it was built with as writable, also
if the storage size has wrapped. -/
theorem new_writable {len : Nat} (hlen : len < sizeMod) (h : MessageBuffer.new len = .ok b) :
    b.writableBytes = len := by
  have hk := offset_le
  have hl := limit_lt
  simp only [MessageBuffer.new] at h
  split at h
  · cases h
  · obtain rfl := Except.ok.inj h
    simp only [writableBytes, List.length_replicate, subSz, addSz]
    rw [Nat.mod_add_mod, show len + kBufferOffset + (sizeMod - kBufferOffset) = len + sizeMod by
      omega, Nat.add_mod_right, Nat.mod_eq_of_lt hlen]

theorem MessageBuffer.Rep.replacement_room (h : Rep b) (len : Nat)
    (hnew : MessageBuffer.new (b.grownLen len) = .ok b') : b.readableBytes ≤ b'.writableBytes := by
  have hge := h.grownLen_ge len
  have hr := h.readable_eq
  have h2 := h.tail_le
  rw [new_writable (grownLen_lt b len) hnew]
  omega

theorem MessageBuffer.Rep.ensureWritable_depth (h : Rep b) (len d : Nat) :
    b.ensureWritable (d + 2) len = b.ensureWritable 2 len := by
  rw [ensureWritable, ensureWritable]
  split
  · rfl
  · split
    · rfl
    · cases hnew : MessageBuffer.new (b.grownLen len) with
      | error f => rfl
      | ok nb =>
          have hroom := h.replacement_room len hnew
          rw [ok_bind, ok_bind, ensureWritable_of_le hroom, ensureWritable_of_le hroom]

/-- No storage provides room for a request so large that its sum wraps. -/
theorem MessageBuffer.Rep.writable_lt_of_wraps (h : Rep b) (h' : Rep b') {len : Nat}
    (hwrap : sizeMod ≤ kBufferOffset + b.readableBytes + len) : b'.writableBytes < len := by
  have hw := h'.writable_eq
  have h3 := h'.size_le
  have hr := h.readable_le
  have hl := limit_lt
  have hk := offset_le
  omega

/-- In plain numbers: the sizes fit if twice the reserve, the readable
bytes and the request add up without wrapping. -/
theorem MessageBuffer.Rep.ensureFits_iff (h : Rep b) {len : Nat} (hle : ¬ len ≤ b.writableBytes) :
    (EnsureFits b len ∧ kBufferOffset + b.readableBytes + len < sizeMod) ↔
      b.readableBytes + len + 2 * kBufferOffset < sizeMod := by
  have hneed : kBufferOffset + b.readableBytes + len < sizeMod →
      kBufferOffset + b.readableBytes + len ≤ b.grownLen len := h.need_le_grownLen
  have hgl := h.grownLen_le len
  have hw := h.writable_eq
  have hr := h.readable_eq
  obtain ⟨h1, h2, h3, -⟩ := h
  have hl := limit_lt
  have hk := offset_le
  have hsum : addSz b.head b.writableBytes = b.head + b.writableBytes := addSz_eq (by omega)
  simp only [EnsureFits, or_iff_right hle, hsum]
  constructor
  · rintro ⟨hif, hlt⟩
    have hneed := hneed hlt
    rw [addSz_eq (by omega)] at hif
    split at hif <;> omega
  · intro hlt
    rw [addSz_eq (by omega)]
    refine ⟨?_, by omega⟩
    split
    · omega
    · have hmul : mulSz b.buffer.length 2 = b.buffer.length * 2 := mulSz_eq (by omega)
      simp only [grownLen, addSz_eq (show kBufferOffset + b.readableBytes < sizeMod by omega),
        addSz_eq (show kBufferOffset + b.readableBytes + len < sizeMod by omega), hmul]
      split <;> omega

theorem MessageBuffer.Rep.ensureWritableBytes_fault (h : Rep b) {len : Nat} {f : Fault}
    (he : b.ensureWritableBytes len = .error f) : f = .badAlloc ∨ f = .outOfBounds := by
  by_cases hfit : EnsureFits b len
  · exact Or.inl ((h.ensureWritableBytes hfit).of_error he).1
  · rcases EnsureFits.breaks h hfit with hb | ⟨b', hb, -⟩ <;> rw [hb] at he <;> cases he
    exact Or.inr rfl

/-- The room is to come from a replacement, and its size, wrapped or not, is
beyond what the allocator gives. -/
def Refuses (b : MessageBuffer) (len : Nat) : Prop :=
  addSz b.head b.writableBytes < addSz len kBufferOffset ∧
    kAllocLimit < addSz (b.grownLen len) kBufferOffset

theorem MessageBuffer.store_ne_badAlloc (b : MessageBuffer) (p : Nat) (xs : List Byte) :
    b.store p xs ≠ .error .badAlloc := by
  unfold store
  split <;> simp

theorem MessageBuffer.Rep.ensureWritableBytes_eq_badAlloc (h : Rep b) {len : Nat}
    (hle : ¬ len ≤ b.writableBytes) :
    b.ensureWritableBytes len = .error .badAlloc ↔ Refuses b len := by
  rw [MessageBuffer.ensureWritableBytes, show (4 : Nat) = 2 + 1 + 1 from rfl, ensureWritable,
    if_neg hle, Refuses]
  by_cases hc : addSz len kBufferOffset ≤ addSz b.head b.writableBytes
  · rw [if_pos hc]
    refine iff_of_false (fun he => ?_) fun hr => absurd hr.1 (Nat.not_lt.mpr hc)
    rw [move, h.load_all, ok_bind] at he
    cases hst : b.store kBufferOffset b.bytes with
    | error f =>
        rw [hst, error_bind] at he
        exact b.store_ne_badAlloc _ _ (hst.trans (congrArg Except.error (Except.error.inj he)))
    | ok b' =>
        rw [hst] at he
        cases he
  · rw [if_neg hc, and_iff_right (Nat.not_le.mp hc)]
    by_cases hbig : kAllocLimit < addSz (b.grownLen len) kBufferOffset
    · refine iff_of_true ?_ hbig
      rw [MessageBuffer.new]
      simp only [if_pos hbig, error_bind]
    · refine iff_of_false (fun he => ?_) hbig
      obtain ⟨nb, hnew⟩ : ∃ nb, MessageBuffer.new (b.grownLen len) = .ok nb := by
        rw [MessageBuffer.new]
        simp only [if_neg hbig]
        exact ⟨_, rfl⟩
      rw [hnew, ok_bind, ensureWritable_of_le (h.replacement_room len hnew), ok_bind, append,
        h.load_all, ok_bind] at he
      cases hst : nb.store nb.tail b.bytes with
      | error f =>
          rw [hst, error_bind] at he
          exact nb.store_ne_badAlloc _ _ (hst.trans (congrArg Except.error (Except.error.inj he)))
      | ok b' =>
          rw [hst] at he
          cases he

/-- A request whose sum wraps is refused by the allocator, or answered
without the room or with a broken buffer. -/
theorem MessageBuffer.Rep.not_roomFor (h : Rep b) {len : Nat} (hle : ¬ len ≤ b.writableBytes)
    (hwrap : ¬ b.readableBytes + len + 2 * kBufferOffset < sizeMod)
    (hkept : Post (· = .badAlloc) (RoomFor b len) (b.ensureWritableBytes len)) :
    b.ensureWritableBytes len = .error .badAlloc := by
  by_cases hfit : EnsureFits b len
  · have hsum : sizeMod ≤ kBufferOffset + b.readableBytes + len := by
      by_contra hlt
      exact hwrap ((h.ensureFits_iff hle).mp ⟨hfit, by omega⟩)
    cases hr : b.ensureWritableBytes len with
    | error f => rw [hkept.of_error hr]
    | ok b' =>
        have hlt := h.writable_lt_of_wraps ((h.ensureWritableBytes hfit).of_ok hr).rep hsum
        have hroom := (hkept.of_ok hr).1
        omega
  · rcases EnsureFits.breaks h hfit with hr | ⟨b', hr, hnb, -⟩
    · exact absurd (hkept.of_error hr) (by decide)
    · exact absurd (hkept.of_ok hr).2.2 hnb

/-- **`ensureWritableBytes` keeps its promise unless a size wraps.** On every
reachable buffer and for every `size_t` length, the call either throws or
leaves room for the length and the same readable bytes, exactly when the
room was there, or the length, the readable bytes and twice the reserve
add up below `2 ^ 64`, or the size of the replacement is beyond what the
allocator gives. In any case the call on the replacement buffer is the last
one. -/
theorem ensureWritableBytes_keeps_iff (h : Reached b) (len : UInt64) :
    (Post (· = .badAlloc) (RoomFor b len.toNat) (b.ensureWritableBytes len.toNat) ↔
      len.toNat ≤ b.writableBytes ∨
        b.readableBytes + len.toNat + 2 * kBufferOffset < sizeMod ∨ Refuses b len.toNat) ∧
      (∀ d, b.ensureWritable (d + 2) len.toNat = b.ensureWritableBytes len.toNat) ∧
      b.ensureWritableBytes len.toNat ≠ .error .stackOverflow := by
  have hrep := h.rep
  refine ⟨⟨fun hkept => ?_, fun hcond => ?_⟩, fun d => ?_, fun he => ?_⟩
  · by_cases hle : len.toNat ≤ b.writableBytes
    · exact Or.inl hle
    by_cases hlt : b.readableBytes + len.toNat + 2 * kBufferOffset < sizeMod
    · exact Or.inr (Or.inl hlt)
    have hbad := hrep.not_roomFor hle hlt hkept
    exact Or.inr (Or.inr ((hrep.ensureWritableBytes_eq_badAlloc hle).mp hbad))
  · by_cases hle : len.toNat ≤ b.writableBytes
    · rw [MessageBuffer.ensureWritableBytes, ensureWritable_of_le hle]
      exact ⟨hle, rfl, hrep.head_le, hrep.tail_le⟩
    rcases hcond.resolve_left hle with hlt | hrefuses
    · obtain ⟨hfit, hsum⟩ := (hrep.ensureFits_iff hle).mpr hlt
      exact (hrep.ensureWritableBytes hfit).mono (fun _ hf => hf.1)
        fun b' hen => ⟨hen.room hsum, hen.bytes_eq, hen.rep.head_le, hen.rep.tail_le⟩
    · rw [(hrep.ensureWritableBytes_eq_badAlloc hle).mpr hrefuses]
      exact rfl
  · rw [hrep.ensureWritable_depth]
    exact (hrep.ensureWritable_depth len.toNat 2).symm
  · rcases hrep.ensureWritableBytes_fault he with hf | hf <;> cases hf

/-- `MessageBuffer b(8);`. -/
def freshEight : MessageBuffer := ⟨8, 8, 8, List.replicate 16 0⟩

theorem reached_freshEight : Reached freshEight := by
  refine Reached.of_run [.construct 8] ?_ (.cons ⟨?_, rfl⟩ (.nil _)) List.mem_cons_self
  · intro op hop s
    obtain rfl := List.mem_singleton.mp hop
    exact (by decide : (8 : UInt64).toNat + kBufferOffset < sizeMod)
  · exact fun f hf => nomatch hf

/-- The promise at an ordinary request. -/
theorem ensureWritableBytes_keeps_hundred :
    ∃ b', freshEight.ensureWritableBytes 100 = .ok b' ∧ RoomFor freshEight 100 b' := by
  have hpost : Post (· = .badAlloc) (RoomFor freshEight 100) (freshEight.ensureWritableBytes 100) :=
    (ensureWritableBytes_keeps_iff reached_freshEight 100).1.mpr (Or.inr (Or.inl (by decide)))
  cases hres : freshEight.ensureWritableBytes 100 with
  | ok b' => exact ⟨b', rfl, hpost.of_ok hres⟩
  | error f =>
      have hok : (freshEight.ensureWritableBytes 100).isOk = true := by decide +kernel
      rw [hres] at hok
      cases hok

/-- `MessageBuffer b(8); b.ensureWritableBytes(2 ^ 64 - 8);` returns: the sum
with the reserve wraps to 0, so the compaction branch is taken, and the
8 writable bytes stay 8. -/
theorem ensureWritableBytes_wraps :
    Reached freshEight ∧
      freshEight.ensureWritableBytes (2 ^ 64 - 8) = .ok freshEight ∧
      freshEight.writableBytes = 8 :=
  ⟨reached_freshEight, by decide +kernel, by decide⟩

/-! ## Checked accessors -/

namespace MessageBuffer

/-- A way to read `n` bytes of storage from an index on. -/
abbrev Reader := MessageBuffer → Nat → Nat → Except Fault (List Byte)

/-- A reader that refuses every byte outside `[head, tail)`. -/
def loadReadable : Reader := fun b p n =>
  if b.head ≤ p ∧ p + n ≤ b.tail then .ok (slice b.buffer p (p + n)) else .error .outOfBounds

/-- `peekString(size)`. -/
def peekString (rd : Reader) (b : MessageBuffer) (size : Nat) : Except Fault (List Byte) :=
  if b.readableBytes ≥ size then rd b b.head size else .error .assertion

/-- `peekInt8/16/32/64()`, up to the conversion of the bytes read. -/
def peekWord (rd : Reader) (b : MessageBuffer) (w : Nat) : Except Fault (List Byte) :=
  if b.readableBytes ≥ w then rd b b.head w else .error .assertion

/-- `operator[](size_t) const`: the byte at `peek() + offset`. -/
def index (rd : Reader) (b : MessageBuffer) (offset : Nat) : Except Fault (List Byte) :=
  if b.readableBytes ≥ offset then rd b (b.head + offset) 1 else .error .assertion

/-- `operator[](size_t)`: the byte at `begin()[m_head + offset]`. -/
def indexRef (rd : Reader) (b : MessageBuffer) (offset : Nat) : Except Fault (List Byte) :=
  if b.readableBytes ≥ offset then rd b (addSz b.head offset) 1 else .error .assertion

end MessageBuffer

theorem peekInt_eq_peekWord (b : MessageBuffer) (w : Nat) :
    b.peekInt w = (peekWord load b w).map netValue := by
  simp only [peekInt, peekWord]
  split
  · cases b.load b.head w <;> rfl
  · rfl

/-- The accessors that assert a bound, with their arguments. -/
inductive Accessor where
  | peekString (size : UInt64)
  | peekInt (w : IntWidth)
  | index (offset : UInt64)
  | indexRef (offset : UInt64)
  | retrieveUntil («end» : Nat)
  | unwrite (offset : UInt64)
  | hasWritten (len : UInt64)

namespace Accessor

/-- The buffer after the call, with the reader that the call uses. -/
def exec (rd : Reader) (b : MessageBuffer) : Accessor → Except Fault MessageBuffer
  | .peekString size => (MessageBuffer.peekString rd b size.toNat).map fun _ => b
  | .peekInt w => (peekWord rd b w.bytes).map fun _ => b
  | .index offset => (MessageBuffer.index rd b offset.toNat).map fun _ => b
  | .indexRef offset => (MessageBuffer.indexRef rd b offset.toNat).map fun _ => b
  | .retrieveUntil «end» => b.retrieveUntil «end»
  | .unwrite offset => b.unwrite offset.toNat
  | .hasWritten len => b.hasWritten len.toNat

/-- The accessor reads and exposes readable bytes only and leaves the
buffer in bounds, or its assertion fails. -/
def Confined (b : MessageBuffer) (a : Accessor) : Prop :=
  Post (· = .assertion) InBounds (a.exec loadReadable b)

/-- What an accessor needs besides its assertion. -/
def Needs (b : MessageBuffer) : Accessor → Prop
  | .index offset | .indexRef offset => offset.toNat ≠ b.readableBytes
  | .retrieveUntil «end» => «end» = b.tail → kBufferOffset ≤ b.shrunkSize
  | _ => True

end Accessor

theorem loadReadable_load {p n : Nat} {xs : List Byte} (h : Rep b)
    (hx : loadReadable b p n = .ok xs) : b.load p n = .ok xs := by
  have h2 := h.tail_le
  simp only [loadReadable] at hx
  split at hx
  · rw [load, if_pos (Or.inr (by omega))]
    exact hx
  · cases hx

theorem loadReadable_head (h : Rep b) {n : Nat} (hn : n ≤ b.readableBytes) :
    loadReadable b b.head n = .ok (slice b.buffer b.head (b.head + n)) := by
  have hr := h.readable_eq
  have h1 := h.head_le
  exact if_pos ⟨Nat.le_refl _, by omega⟩

theorem confined_peek (h : Rep b) (n : Nat) :
    Post (· = .assertion) InBounds
      ((if b.readableBytes ≥ n then loadReadable b b.head n
        else .error .assertion : Except Fault (List Byte)).map fun _ => b) := by
  split
  · rename_i hn
    rw [loadReadable_head h hn]
    exact ⟨h.head_le, h.tail_le⟩
  · exact rfl

theorem confined_index_iff (h : Rep b) (n : Nat) :
    Post (· = .assertion) InBounds
      ((if b.readableBytes ≥ n then loadReadable b (b.head + n) 1
        else .error .assertion : Except Fault (List Byte)).map fun _ => b) ↔
      n ≠ b.readableBytes := by
  have hr := h.readable_eq
  have h1 := h.head_le
  by_cases hn : b.readableBytes ≥ n
  · rw [if_pos hn, loadReadable]
    by_cases hlt : n < b.readableBytes
    · rw [if_pos ⟨by omega, by omega⟩]
      exact ⟨fun _ => by omega, fun _ => ⟨h.head_le, h.tail_le⟩⟩
    · rw [if_neg (by omega)]
      refine ⟨fun hpost => ?_, fun hne => absurd hn (by omega)⟩
      exact absurd (show Fault.outOfBounds = .assertion from hpost) (by decide)
  · rw [if_neg hn]
    exact ⟨fun _ => by omega, fun _ => rfl⟩

theorem indexRef_eq_index (h : Rep b) (rd : Reader) (n : Nat) :
    MessageBuffer.indexRef rd b n = MessageBuffer.index rd b n := by
  have hr := h.readable_le
  have h2 := h.tail_le
  have h3 := h.size_le
  have h1 := h.head_le
  have hl := limit_lt
  simp only [MessageBuffer.indexRef, MessageBuffer.index]
  split
  · rw [addSz_eq (by omega)]
  · rfl

theorem confined_retrieveUntil_iff (h : Rep b) (e : Nat) :
    Post (· = .assertion) InBounds (b.retrieveUntil e) ↔
      (e = b.tail → kBufferOffset ≤ b.shrunkSize) := by
  have hr := h.readable_eq
  have h1 := h.head_le
  by_cases hin : b.head ≤ e ∧ e ≤ b.tail
  · obtain ⟨k, rfl⟩ := Nat.exists_eq_add_of_le hin.1
    have hk : k ≤ b.readableBytes := by omega
    by_cases hsafe : b.readableBytes ≤ k → kBufferOffset ≤ b.shrunkSize
    · obtain ⟨b', he, hbe⟩ := h.retrieveUntil hk hsafe
      rw [he]
      exact ⟨fun _ heq => hsafe (by omega), fun _ => ⟨hbe.rep.head_le, hbe.rep.tail_le⟩⟩
    · have hnb := EmptiesSafely.not_inBounds h hsafe
      have hl := limit_lt
      have h2 := h.tail_le
      have h3 := h.size_le
      rw [retrieveUntil, if_pos hin, subSz_eq (by omega) (by omega), Nat.add_sub_cancel_left]
      obtain ⟨hall, hlt⟩ := Classical.not_imp.mp hsafe
      exact ⟨fun hb => absurd hb hnb, fun himp => absurd (himp (by omega)) hlt⟩
  · rw [retrieveUntil, if_neg hin]
    exact ⟨fun _ heq => absurd ⟨by omega, by omega⟩ hin, fun _ => rfl⟩

theorem confined_unwrite (h : Rep b) (n : Nat) :
    Post (· = .assertion) InBounds (b.unwrite n) := by
  by_cases hn : n ≤ b.readableBytes
  · obtain ⟨b', he, hbe⟩ := h.unwrite hn
    rw [he]
    exact ⟨hbe.rep.head_le, hbe.rep.tail_le⟩
  · rw [unwrite, if_neg (by omega)]
    exact rfl

theorem confined_hasWritten (h : Rep b) (n : Nat) :
    Post (· = .assertion) InBounds (b.hasWritten n) := by
  by_cases hn : n ≤ b.writableBytes
  · obtain ⟨b', _, he, hbe⟩ := h.hasWritten hn
    rw [he]
    exact ⟨hbe.rep.head_le, hbe.rep.tail_le⟩
  · rw [hasWritten, if_neg hn]
    exact rfl

/-- A call that succeeds on the readable bytes is the call on the storage. -/
theorem Accessor.exec_load (h : Rep b) (a : Accessor) (hx : a.exec loadReadable b = .ok b') :
    a.exec load b = .ok b' := by
  have hread : ∀ (n p w : Nat),
      (if b.readableBytes ≥ n then loadReadable b p w
        else .error .assertion : Except Fault (List Byte)).map (fun _ => b) = .ok b' →
      (if b.readableBytes ≥ n then b.load p w
        else .error .assertion : Except Fault (List Byte)).map (fun _ => b) = .ok b' := by
    intro n p w
    split
    · cases hl : loadReadable b p w with
      | ok xs => rw [loadReadable_load h hl]; exact id
      | error f => intro hf; cases hf
    · exact id
  cases a with
  | peekString size => exact hread _ _ _ hx
  | peekInt w => exact hread _ _ _ hx
  | index offset => exact hread _ _ _ hx
  | indexRef offset => exact hread _ _ _ hx
  | retrieveUntil e => exact hx
  | unwrite offset => exact hx
  | hasWritten len => exact hx

/-- **Which accessors their assertions confine.** On every reachable
buffer, an accessor whose assertion passes touches readable bytes only
and leaves the buffer in bounds, exactly when it is not `operator[]` at
the offset `readableBytes()`, nor a `retrieveUntil(beginWrite())` that
shrinks the storage below the reserve. -/
theorem accessor_confined_iff (h : Reached b) (a : Accessor) :
    (a.Confined b ↔ a.Needs b) ∧
      ∀ b', a.exec loadReadable b = .ok b' → a.exec load b = .ok b' := by
  have hrep := h.rep
  refine ⟨?_, fun b' hx => a.exec_load hrep hx⟩
  cases a with
  | peekString size => exact iff_of_true (confined_peek hrep _) trivial
  | peekInt w => exact iff_of_true (confined_peek hrep _) trivial
  | index offset => exact confined_index_iff hrep _
  | indexRef offset =>
      have hidx := confined_index_iff hrep offset.toNat
      rw [← MessageBuffer.index, ← indexRef_eq_index hrep] at hidx
      exact hidx
  | retrieveUntil e => exact confined_retrieveUntil_iff hrep e
  | unwrite offset => exact iff_of_true (confined_unwrite hrep _) trivial
  | hasWritten len => exact iff_of_true (confined_hasWritten hrep _) trivial

/-- A buffer of 8 bytes, full after one `pushBack`. -/
def fullEight : MessageBuffer := ⟨8, 16, 8, List.replicate 8 0 ++ List.replicate 8 1⟩

theorem reached_fullEight : Reached fullEight := by
  refine Reached.of_run [.construct 8, .pushBack 0 BufStore.eight] ?_
    (.cons ⟨BufStore.live_of_returned rfl, rfl⟩
      (.cons ⟨BufStore.live_of_returned rfl, rfl⟩ (.nil _))) ?_
  · intro op hop s
    rcases List.mem_cons.mp hop with rfl | hop
    · exact (by decide : (8 : UInt64).toNat + kBufferOffset < sizeMod)
    · obtain rfl := List.mem_singleton.mp hop
      trivial
  · exact List.mem_cons_self

/-- On a full buffer the last byte is inside. -/
theorem accessor_confined_last : (Accessor.index 7).Confined fullEight :=
  (accessor_confined_iff reached_fullEight (.index 7)).1.mpr
    (by decide : (7 : UInt64).toNat ≠ fullEight.readableBytes)

/-- On a full buffer `b[b.readableBytes()]` passes its assertion and is
the byte behind the storage. -/
theorem accessor_not_confined :
    ¬ (Accessor.index 8).Confined fullEight ∧
      (Accessor.index 8).exec load fullEight = .error .outOfBounds ∧
      (Accessor.indexRef 8).exec load fullEight = .error .outOfBounds :=
  ⟨fun h => Fault.noConfusion (show Fault.outOfBounds = .assertion from h), by decide, by decide⟩

end Netpoll
