import Netpoll.BufferRep
import Netpoll.Runs

/-!
# Programs over `MessageBuffer`s

A program holds any number of buffers and applies the public interface
to them, in any order: constructors, copies, moves, swaps and the
member functions. `BufStore.exec` is one operation; a step exists as long
as nothing died (an assertion failed, or memory outside a storage vector
was touched). An operation that throws leaves the program alive.

`sound_iff_guard` settles when the representation invariant survives
such a program. Three operations can break it, and `BufGuard` is what
each of them needs: the constructor a length that does not wrap, an
operation that empties a buffer a storage that is still as long as the
reserve once `retrieveAll` has shrunk it, and `ensureWritableBytes` a
request whose size computation does not wrap into the wrong branch.
-/

namespace Netpoll

open MessageBuffer

/-- An unsigned integer of one of the four widths. -/
inductive NetInt where
  | i8 (v : UInt8)
  | i16 (v : UInt16)
  | i32 (v : UInt32)
  | i64 (v : UInt64)
deriving DecidableEq

/-- The widths, in bytes, that `readIntN` is defined for. -/
inductive IntWidth where
  | w8 | w16 | w32 | w64
deriving Repr, DecidableEq

def IntWidth.bytes : IntWidth → Nat
  | .w8 => 1
  | .w16 => 2
  | .w32 => 4
  | .w64 => 8

def NetInt.pushBack (b : MessageBuffer) : NetInt → Except Fault MessageBuffer
  | .i8 v => b.pushBackInt8 v
  | .i16 v => b.pushBackInt16 v
  | .i32 v => b.pushBackInt32 v
  | .i64 v => b.pushBackInt64 v

def NetInt.pushFront (b : MessageBuffer) : NetInt → Except Fault MessageBuffer
  | .i8 v => b.pushFrontInt8 v
  | .i16 v => b.pushFrontInt16 v
  | .i32 v => b.pushFrontInt32 v
  | .i64 v => b.pushFrontInt64 v

def IntWidth.read (b : MessageBuffer) : IntWidth → Except Fault (Nat × MessageBuffer)
  | .w8 => b.readInt8
  | .w16 => b.readInt16
  | .w32 => b.readInt32
  | .w64 => b.readInt64

/-- The public interface. Buffers are named by their position in the
store; `retrieveUntil i k` passes the pointer `peek() + k`. -/
inductive BufOp where
  | construct (len : UInt64)
  | copyConstruct (i : Nat)
  | moveConstruct (i : Nat)
  | copyAssign (i j : Nat)
  | moveAssign (i j : Nat)
  | swap (i j : Nat)
  | pushBack (i : Nat) (v : View)
  | pushBackBuffer (i j : Nat)
  | pushFront (i : Nat) (v : View)
  | pushBackInt (i : Nat) (v : NetInt)
  | pushFrontInt (i : Nat) (v : NetInt)
  | retrieve (i : Nat) (n : UInt64)
  | retrieveAll (i : Nat)
  | retrieveUntil (i k : Nat)
  | read (i : Nat) (n : UInt64)
  | readAll (i : Nat)
  | readInt (i : Nat) (w : IntWidth)
  | unwrite (i : Nat) (n : UInt64)
  | hasWritten (i : Nat) (n : UInt64)
  | ensureWritableBytes (i : Nat) (n : UInt64)
  | readFd (i : Nat) (offer : Option (List Byte))

/-- How the last operation ended. -/
inductive Outcome where
  | returned (out : List Byte)
  | returnedInt (v : Nat)
  | threw
  | died (f : Fault)
deriving Repr, DecidableEq

structure BufStore where
  bufs : List MessageBuffer
  last : Outcome
deriving Repr, DecidableEq

namespace BufStore

def empty : BufStore := ⟨[], .returned []⟩

/-- An exception leaves the program alive; the other faults do not. -/
def ending : Fault → Outcome
  | .badAlloc => .threw
  | f => .died f

/-- Go on with the result, or end without any change. -/
def settle {α : Type} (s : BufStore) (r : Except Fault α) (k : α → BufStore) : BufStore :=
  match r with
  | .ok a => k a
  | .error f => ⟨s.bufs, ending f⟩

/-- Apply a member function without result to buffer `i`. -/
def on (s : BufStore) (i : Nat) (f : MessageBuffer → Except Fault MessageBuffer) :
    Option BufStore :=
  (s.bufs[i]?).map fun b => s.settle (f b) fun b' => ⟨s.bufs.set i b', .returned []⟩

def exec (s : BufStore) : BufOp → Option BufStore
  | .construct len =>
      some (s.settle (MessageBuffer.new len.toNat) fun b => ⟨s.bufs ++ [b], .returned []⟩)
  | .copyConstruct i => (s.bufs[i]?).map fun b => ⟨s.bufs ++ [b], .returned []⟩
  | .moveConstruct i =>
      (s.bufs[i]?).map fun b => ⟨s.bufs.set i blank ++ [b], .returned []⟩
  | .copyAssign i j => do
      let _ ← s.bufs[i]?
      let b ← s.bufs[j]?
      return ⟨s.bufs.set i b, .returned []⟩
  | .moveAssign i j | .swap i j => do
      let a ← s.bufs[i]?
      let b ← s.bufs[j]?
      return ⟨(s.bufs.set i b).set j a, .returned []⟩
  | .pushBack i v => s.on i (·.pushBack v.bytes)
  | .pushBackBuffer i j =>
      if i = j then s.on i (·.pushBackSelf)
      else do
        let buf ← s.bufs[j]?
        s.on i (·.pushBackBuffer buf)
  | .pushFront i v => s.on i (·.pushFront v.bytes)
  | .pushBackInt i v => s.on i (NetInt.pushBack · v)
  | .pushFrontInt i v => s.on i (NetInt.pushFront · v)
  | .retrieve i n => s.on i fun b => .ok (b.retrieve n.toNat)
  | .retrieveAll i => s.on i fun b => .ok b.retrieveAll
  | .retrieveUntil i k => s.on i fun b => b.retrieveUntil (b.head + k)
  | .read i n =>
      (s.bufs[i]?).map fun b =>
        s.settle (b.read n.toNat) fun r => ⟨s.bufs.set i r.2, .returned r.1⟩
  | .readAll i =>
      (s.bufs[i]?).map fun b => s.settle b.readAll fun r => ⟨s.bufs.set i r.2, .returned r.1⟩
  | .readInt i w =>
      (s.bufs[i]?).map fun b =>
        s.settle (IntWidth.read b w) fun r => ⟨s.bufs.set i r.2, .returnedInt r.1⟩
  | .unwrite i n => s.on i (·.unwrite n.toNat)
  | .hasWritten i n => s.on i (·.hasWritten n.toNat)
  | .ensureWritableBytes i n => s.on i (·.ensureWritableBytes n.toNat)
  | .readFd i offer =>
      (s.bufs[i]?).map fun b =>
        match b.readFd offer with
        | (b', none) => ⟨s.bufs.set i b', .returned []⟩
        | (b', some f) => ⟨s.bufs.set i b', ending f⟩

end BufStore

/-- One operation of a program that is still alive. -/
def BufStep (s : BufStore) (op : BufOp) (s' : BufStore) : Prop :=
  (∀ f, s.last ≠ .died f) ∧ s.exec op = some s'

/-- `m_head <= m_tail <= m_buffer.size()`. -/
def InBounds (b : MessageBuffer) : Prop :=
  b.head ≤ b.tail ∧ b.tail ≤ b.buffer.length

instance (b : MessageBuffer) : Decidable (InBounds b) := by
  unfold InBounds; infer_instance

/-- Neither `readableBytes()` nor `writableBytes()` underflows. -/
def NoUnderflow (b : MessageBuffer) : Prop :=
  b.head + b.readableBytes = b.tail ∧ b.tail + b.writableBytes = b.buffer.length

instance (b : MessageBuffer) : Decidable (NoUnderflow b) := by
  unfold NoUnderflow; infer_instance

/-- Every buffer is in bounds, and the last operation stayed in bounds. -/
def BufStore.Sound (s : BufStore) : Prop :=
  (∀ b ∈ s.bufs, InBounds b ∧ NoUnderflow b) ∧ s.last ≠ .died .outOfBounds

instance (s : BufStore) : Decidable s.Sound := by
  unfold BufStore.Sound; infer_instance

/-- Emptying `b` by retrieving `n` bytes leaves room for the reserve. -/
def EmptiesSafely (b : MessageBuffer) (n : Nat) : Prop :=
  b.readableBytes ≤ n → kBufferOffset ≤ b.shrunkSize

/-- What an operation needs in order to keep all buffers in bounds. -/
def BufGuard (s : BufStore) : BufOp → Prop
  | .construct len => len.toNat + kBufferOffset < sizeMod
  | .ensureWritableBytes i n => ∀ b, s.bufs[i]? = some b → EnsureFits b n.toNat
  | .retrieve i n | .read i n => ∀ b, s.bufs[i]? = some b → EmptiesSafely b n.toNat
  | .retrieveAll i | .readAll i =>
      ∀ b, s.bufs[i]? = some b → EmptiesSafely b b.readableBytes
  | .retrieveUntil i k => ∀ b, s.bufs[i]? = some b → b.readableBytes = k → EmptiesSafely b k
  | .readInt i w =>
      ∀ b, s.bufs[i]? = some b → b.readableBytes = w.bytes → EmptiesSafely b w.bytes
  | _ => True

/-! ## Guarded operations keep every buffer `Rep` -/

theorem assertion_ne_outOfBounds : Fault.assertion ≠ .outOfBounds := nofun

theorem ne_outOfBounds_of_badAlloc {f : Fault} (h : f = .badAlloc) : f ≠ .outOfBounds := by
  rw [h]
  nofun

namespace BufStore

/-- The invariant that carries a program. -/
structure Good (s : BufStore) : Prop where
  rep : ∀ b ∈ s.bufs, Rep b
  alive : s.last ≠ .died .outOfBounds

theorem Good.sound {s : BufStore} (h : Good s) : s.Sound := by
  refine ⟨fun b hb => ?_, h.alive⟩
  have hr := (h.rep b hb).readable_eq
  have hw := (h.rep b hb).writable_eq
  have h1 := (h.rep b hb).head_le
  have h2 := (h.rep b hb).tail_le
  exact ⟨⟨h1, h2⟩, by omega, by omega⟩

theorem good_empty : Good empty where
  rep _ hb := nomatch hb
  alive := nofun

theorem Good.get {s : BufStore} (h : Good s) {i : Nat} {b : MessageBuffer}
    (hb : s.bufs[i]? = some b) : Rep b :=
  h.rep b (List.mem_of_getElem? hb)

theorem Good.set {s : BufStore} (h : Good s) {i : Nat} {b : MessageBuffer} (hb : Rep b) :
    ∀ c ∈ s.bufs.set i b, Rep c := by
  intro c hc
  rcases List.mem_or_eq_of_mem_set hc with hc | rfl
  · exact h.rep c hc
  · exact hb

theorem Good.push {s : BufStore} (h : Good s) {b : MessageBuffer} (hb : Rep b) :
    ∀ c ∈ s.bufs ++ [b], Rep c := by
  intro c hc
  rcases List.mem_append.mp hc with hc | hc
  · exact h.rep c hc
  · obtain rfl := List.mem_singleton.mp hc
    exact hb

theorem ending_ne {f : Fault} (hf : f ≠ .outOfBounds) : ending f ≠ .died .outOfBounds := by
  cases f <;> simp_all [ending]

theorem Good.settle {α : Type} {s : BufStore} (h : Good s) {r : Except Fault α}
    {k : α → BufStore} (hr : Post (· ≠ .outOfBounds) (fun a => Good (k a)) r) :
    Good (s.settle r k) := by
  cases r with
  | ok a => exact hr
  | error f => exact ⟨h.rep, ending_ne hr⟩

theorem Good.on {s s' : BufStore} (h : Good s) {i : Nat}
    {f : MessageBuffer → Except Fault MessageBuffer}
    (hf : ∀ b, s.bufs[i]? = some b → Post (· ≠ .outOfBounds) Rep (f b))
    (hs : s.on i f = some s') : Good s' := by
  obtain ⟨b, hb, rfl⟩ := Option.map_eq_some_iff.mp hs
  refine h.settle ((hf b hb).mono (fun _ hf => hf) fun b' hb' => ?_)
  exact ⟨h.set hb', by simp⟩

end BufStore

theorem Becomes.post {b : MessageBuffer} {xs : List Byte} {r : Except Fault MessageBuffer}
    {n : Nat} (h : Post (Refused b n) (Becomes b xs) r) : Post (· ≠ .outOfBounds) Rep r :=
  h.mono (fun _ he => ne_outOfBounds_of_badAlloc he.1) fun _ hb => hb.rep

theorem netBytes_length (w v : Nat) : (netBytes w v).length = w := by
  simp [netBytes]

theorem netBytes_fits {w : Nat} (hw : w ≤ 8) (v : Nat) : (netBytes w v).length ≤ kAllocLimit := by
  rw [netBytes_length]
  exact Nat.le_trans hw (by decide)

theorem NetInt.pushBack_post {b : MessageBuffer} (h : Rep b) (v : NetInt) :
    Post (· ≠ .outOfBounds) Rep (NetInt.pushBack b v) := by
  have hw : ∀ w u, w ≤ 8 → Post (· ≠ .outOfBounds) Rep (b.pushBack (netBytes w u)) :=
    fun w u hw => Becomes.post (h.pushBack (netBytes_fits hw u))
  cases v <;> exact hw _ _ (by omega)

theorem NetInt.pushFront_post {b : MessageBuffer} (h : Rep b) (v : NetInt) :
    Post (· ≠ .outOfBounds) Rep (NetInt.pushFront b v) := by
  have hw : ∀ w u, w ≤ 8 → Post (· ≠ .outOfBounds) Rep (b.pushFront (netBytes w u)) :=
    fun w u hw => Becomes.post (h.pushFront (netBytes_fits hw u))
  cases v <;> exact hw _ _ (by omega)

theorem IntWidth.read_eq (b : MessageBuffer) (w : IntWidth) :
    IntWidth.read b w = b.readInt w.bytes := by
  cases w <;> rfl

theorem MessageBuffer.Rep.readInt {b : MessageBuffer} (h : Rep b) (w : Nat) :
    (b.readInt w = .error .assertion ∧ b.readableBytes < w) ∨
      (b.readInt w = .ok (netValue (b.bytes.take w), b.retrieve w) ∧ w ≤ b.readableBytes) := by
  by_cases hw : w ≤ b.readableBytes
  · right
    exact ⟨by rw [MessageBuffer.readInt, h.peekInt hw]; rfl, hw⟩
  · left
    refine ⟨?_, by omega⟩
    rw [MessageBuffer.readInt, MessageBuffer.peekInt, if_neg hw]
    rfl

namespace BufStore

/-- The step lemma: an operation that meets its guard keeps the store good. -/
theorem good_step {s s' : BufStore} {op : BufOp} (h : Good s) (hg : BufGuard s op)
    (hs : BufStep s op s') : Good s' := by
  obtain ⟨-, hs⟩ := hs
  cases op with
  | construct len =>
      obtain rfl := Option.some.inj hs
      refine h.settle ((new_fresh hg).mono (fun _ he => ne_outOfBounds_of_badAlloc he.1)
        fun b hb => ?_)
      exact ⟨h.push hb.rep, by simp⟩
  | copyConstruct i =>
      obtain ⟨b, hb, rfl⟩ := Option.map_eq_some_iff.mp hs
      exact ⟨h.push (h.get hb), by simp⟩
  | moveConstruct i =>
      obtain ⟨b, hb, rfl⟩ := Option.map_eq_some_iff.mp hs
      have hset : Good ⟨s.bufs.set i blank, .returned []⟩ := ⟨h.set blank_rep, by simp⟩
      exact ⟨hset.push (h.get hb), by simp⟩
  | copyAssign i j =>
      obtain ⟨a, -, hs⟩ := Option.bind_eq_some_iff.mp hs
      obtain ⟨b, hb, hs⟩ := Option.bind_eq_some_iff.mp hs
      obtain rfl := Option.some.inj hs
      exact ⟨h.set (h.get hb), by simp⟩
  | moveAssign i j | swap i j =>
      obtain ⟨a, ha, hs⟩ := Option.bind_eq_some_iff.mp hs
      obtain ⟨b, hb, hs⟩ := Option.bind_eq_some_iff.mp hs
      obtain rfl := Option.some.inj hs
      have hset : Good ⟨s.bufs.set i b, .returned []⟩ := ⟨h.set (h.get hb), by simp⟩
      exact ⟨hset.set (h.get ha), by simp⟩
  | pushBack i v => exact h.on (fun b hb => Becomes.post ((h.get hb).pushBack v.fits)) hs
  | pushBackBuffer i j =>
      simp only [exec] at hs
      split at hs
      · exact h.on (fun b hb => Becomes.post (h.get hb).pushBackSelf) hs
      · obtain ⟨buf, hbuf, hs⟩ := Option.bind_eq_some_iff.mp hs
        exact h.on (fun b hb => Becomes.post ((h.get hb).pushBackBuffer (h.get hbuf))) hs
  | pushFront i v => exact h.on (fun b hb => Becomes.post ((h.get hb).pushFront v.fits)) hs
  | pushBackInt i v => exact h.on (fun b hb => NetInt.pushBack_post (h.get hb) v) hs
  | pushFrontInt i v => exact h.on (fun b hb => NetInt.pushFront_post (h.get hb) v) hs
  | retrieve i n =>
      refine h.on (fun b hb => post_ok.mpr ?_) hs
      exact ((h.get hb).retrieve _ (hg b hb)).rep
  | retrieveAll i =>
      refine h.on (fun b hb => post_ok.mpr ?_) hs
      exact ((h.get hb).retrieveAll (hg b hb (Nat.le_refl _))).rep
  | retrieveUntil i k =>
      refine h.on (fun b hb => ?_) hs
      by_cases hk : k ≤ b.readableBytes
      · obtain ⟨b', hr, hbe⟩ := (h.get hb).retrieveUntil hk fun hle =>
          hg b hb (Nat.le_antisymm hle hk) hle
        rw [hr]
        exact hbe.rep
      · rw [(h.get hb).retrieveUntil_fails hk]
        exact assertion_ne_outOfBounds
  | read i n =>
      obtain ⟨b, hb, rfl⟩ := Option.map_eq_some_iff.mp hs
      obtain ⟨b', hr, hbe⟩ := (h.get hb).read n.toNat (hg b hb)
      rw [hr]
      exact h.settle ⟨h.set hbe.rep, by simp⟩
  | readAll i =>
      obtain ⟨b, hb, rfl⟩ := Option.map_eq_some_iff.mp hs
      obtain ⟨b', hr, hbe⟩ := (h.get hb).read b.readableBytes (hg b hb)
      rw [MessageBuffer.readAll, hr]
      exact h.settle ⟨h.set hbe.rep, by simp⟩
  | readInt i w =>
      obtain ⟨b, hb, rfl⟩ := Option.map_eq_some_iff.mp hs
      rw [IntWidth.read_eq]
      rcases (h.get hb).readInt w.bytes with ⟨hr, -⟩ | ⟨hr, hle⟩ <;> rw [hr]
      · exact h.settle assertion_ne_outOfBounds
      · have hsafe : EmptiesSafely b w.bytes := fun hge =>
          hg b hb (Nat.le_antisymm hge hle) hge
        exact h.settle ⟨h.set ((h.get hb).retrieve _ hsafe).rep, by simp⟩
  | unwrite i n =>
      refine h.on (fun b hb => ?_) hs
      by_cases hn : n.toNat ≤ b.readableBytes
      · obtain ⟨b', hr, hbe⟩ := (h.get hb).unwrite hn
        rw [hr]
        exact hbe.rep
      · rw [unwrite_fails hn]
        exact assertion_ne_outOfBounds
  | hasWritten i n =>
      refine h.on (fun b hb => ?_) hs
      by_cases hn : n.toNat ≤ b.writableBytes
      · obtain ⟨b', _, hr, hbe⟩ := (h.get hb).hasWritten hn
        rw [hr]
        exact hbe.rep
      · rw [hasWritten_fails hn]
        exact assertion_ne_outOfBounds
  | ensureWritableBytes i n =>
      refine h.on (fun b hb => ?_) hs
      exact ((h.get hb).ensureWritableBytes (hg b hb)).mono
        (fun _ he => ne_outOfBounds_of_badAlloc he.1) fun _ hen => hen.rep
  | readFd i offer =>
      obtain ⟨b, hb, rfl⟩ := Option.map_eq_some_iff.mp hs
      have hfill := (h.get hb).readFd offer
      split
      · rename_i b' hr
        rw [hr] at hfill
        exact ⟨h.set hfill.rep, by simp⟩
      · rename_i b' f hr
        rw [hr] at hfill
        obtain ⟨⟨rfl, -⟩, k, hbe⟩ := hfill
        exact ⟨h.set hbe.rep, ending_ne (ne_outOfBounds_of_badAlloc rfl)⟩

end BufStore

/-! ## An unguarded operation breaks a buffer at once -/

theorem EmptiesSafely.not_inBounds {b : MessageBuffer} (h : Rep b) {n : Nat}
    (hn : ¬ EmptiesSafely b n) : ¬ InBounds (b.retrieve n) := by
  obtain ⟨hall, hlt⟩ := Classical.not_imp.mp hn
  rw [MessageBuffer.retrieve, if_pos hall]
  rintro ⟨-, htail⟩
  rw [h.retrieveAll_size, retrieveAll_tail] at htail
  exact hlt htail

theorem new_wraps {len : Nat} (hlen : len < sizeMod) (h : ¬ len + kBufferOffset < sizeMod) :
    ∃ b, MessageBuffer.new len = .ok b ∧ b.head = kBufferOffset ∧ b.tail = kBufferOffset ∧
      b.buffer.length < kBufferOffset := by
  have hk := offset_le
  have hl := limit_lt
  have hsz : addSz len kBufferOffset = len + kBufferOffset - sizeMod := by
    rw [addSz, Nat.mod_eq_sub_mod (by omega), Nat.mod_eq_of_lt (by omega)]
  refine ⟨⟨kBufferOffset, kBufferOffset, len,
    List.replicate (addSz len kBufferOffset) 0⟩, ?_, rfl, rfl, ?_⟩
  · simp only [MessageBuffer.new]
    rw [if_neg (by omega)]
  · simp only [List.length_replicate]; omega

theorem grownLen_lt (b : MessageBuffer) (len : Nat) : b.grownLen len < sizeMod := by
  simp only [grownLen]
  split
  · exact Nat.mod_lt _ (by decide)
  · exact addSz_lt _ _

/-- Only an empty write past the end of the storage does no harm. -/
theorem store_past {b : MessageBuffer} {p : Nat} {xs : List Byte}
    (h : b.buffer.length < p + xs.length) :
    b.store p xs = .error .outOfBounds ∨ xs = [] ∧ b.store p xs = .ok b := by
  by_cases hx : xs.length = 0
  · obtain rfl := List.length_eq_zero_iff.mp hx
    exact Or.inr ⟨rfl, by rw [store, if_pos (Or.inl hx), splice_nil]⟩
  · exact Or.inl (by rw [store, if_neg (by omega)])

theorem not_inBounds_of_short {b : MessageBuffer} (htail : b.tail = kBufferOffset)
    (hlen : b.buffer.length < kBufferOffset) : ¬ InBounds b := by
  rintro ⟨-, hle⟩
  omega

/-- `ensureWritableBytes` outside its guard writes past the storage, or
leaves a storage shorter than the reserve. -/
theorem EnsureFits.breaks {b : MessageBuffer} (h : Rep b) {len : Nat}
    (hn : ¬ EnsureFits b len) :
    b.ensureWritableBytes len = .error .outOfBounds ∨
      ∃ b', b.ensureWritableBytes len = .ok b' ∧ ¬ InBounds b' ∧ b'.bytes = b.bytes := by
  obtain ⟨hle, hif⟩ := not_or.mp hn
  have hw := h.writable_eq
  have hr := h.readable_eq
  have hlen := h.bytes_length
  have hload := h.load_all
  obtain ⟨h1, h2, h3, -⟩ := h
  have hl := limit_lt
  have hk : 0 < kBufferOffset := by decide
  rw [MessageBuffer.ensureWritableBytes, show (4 : Nat) = 2 + 1 + 1 from rfl,
    ensureWritable, if_neg hle]
  by_cases hc : addSz len kBufferOffset ≤ addSz b.head b.writableBytes
  · rw [if_pos hc] at hif ⊢
    rw [move, hload, ok_bind]
    have hpast : b.buffer.length < kBufferOffset + b.bytes.length := by omega
    rcases store_past hpast with hst | ⟨hnil, hst⟩ <;> rw [hst]
    · exact Or.inl rfl
    · have hzero : b.bytes.length = 0 := List.length_eq_zero_iff.mpr hnil
      have hend : addSz kBufferOffset (subSz b.tail b.head) = kBufferOffset := by
        rw [subSz_eq h1 (by omega), show b.tail - b.head = 0 by omega]
        rfl
      refine Or.inr ⟨_, rfl, not_inBounds_of_short hend (by change b.buffer.length < _; omega), ?_⟩
      simp only [bytes, hend, slice_self]
      exact hnil.symm
  · rw [if_neg hc] at hif ⊢
    obtain ⟨nb, hnew, hhd, htl, hsz⟩ := new_wraps (grownLen_lt b len) hif
    -- the wrapped size makes the writable part look almost endless
    have hwr : b.readableBytes ≤ nb.writableBytes := by
      have hk := offset_le
      rw [writableBytes, subSz, htl, Nat.mod_eq_of_lt (by omega)]
      omega
    rw [hnew, ok_bind, ensureWritable_of_le hwr, ok_bind, append, hload, ok_bind]
    have hpast : nb.buffer.length < nb.tail + b.bytes.length := by omega
    rcases store_past hpast with hst | ⟨hnil, hst⟩ <;> rw [hst]
    · exact Or.inl rfl
    · have hzero : b.bytes.length = 0 := List.length_eq_zero_iff.mpr hnil
      have hend : addSz nb.tail b.readableBytes = kBufferOffset := by
        rw [htl, show b.readableBytes = 0 by omega]
        rfl
      refine Or.inr ⟨_, rfl, not_inBounds_of_short hend hsz, ?_⟩
      simp only [bytes, hend, hhd, slice_self]
      exact hnil.symm

namespace BufStore

theorem not_sound_of_mem {s : BufStore} {b : MessageBuffer} (hb : b ∈ s.bufs)
    (hn : ¬ InBounds b) : ¬ s.Sound := fun hs => hn (hs.1 b hb).1

theorem mem_set_of_get {s : BufStore} {i : Nat} {b : MessageBuffer} (hb : s.bufs[i]? = some b)
    (b' : MessageBuffer) : b' ∈ s.bufs.set i b' :=
  List.mem_set (List.getElem?_eq_some_iff.mp hb).1 b'

theorem on_breaks {s s' : BufStore} {i : Nat} {b b' : MessageBuffer}
    {f : MessageBuffer → Except Fault MessageBuffer} (hs : s.on i f = some s')
    (hb : s.bufs[i]? = some b) (hf : f b = .ok b') (hn : ¬ InBounds b') : ¬ s'.Sound := by
  simp only [on, hb, Option.map_some, Option.some.injEq, hf] at hs
  subst hs
  exact not_sound_of_mem (mem_set_of_get hb b') hn

theorem not_sound_step {s s' : BufStore} {op : BufOp} (h : Good s) (hg : ¬ BufGuard s op)
    (hs : BufStep s op s') : ¬ s'.Sound := by
  obtain ⟨-, hs⟩ := hs
  cases op with
  | construct len =>
      obtain ⟨b, hnew, -, htl, hsz⟩ := new_wraps len.toNat_lt hg
      obtain rfl := Option.some.inj hs
      rw [hnew]
      refine not_sound_of_mem (List.mem_append.mpr (Or.inr (List.mem_singleton.mpr rfl))) ?_
      rintro ⟨-, htail⟩
      omega
  | ensureWritableBytes i n =>
      simp only [BufGuard, not_forall] at hg
      obtain ⟨b, hb, hn⟩ := hg
      rcases EnsureFits.breaks (h.get hb) hn with hr | ⟨b', hr, hnb, -⟩
      · simp only [exec, on, hb, Option.map_some, Option.some.injEq] at hs
        rw [hr] at hs
        subst hs
        exact fun hs => hs.2 rfl
      · exact on_breaks hs hb hr hnb
  | retrieve i n =>
      simp only [BufGuard, not_forall] at hg
      obtain ⟨b, hb, hn⟩ := hg
      exact on_breaks hs hb rfl (EmptiesSafely.not_inBounds (h.get hb) hn)
  | retrieveAll i =>
      simp only [BufGuard, not_forall] at hg
      obtain ⟨b, hb, hn⟩ := hg
      have hnb := EmptiesSafely.not_inBounds (h.get hb) hn
      rw [MessageBuffer.retrieve, if_pos (Nat.le_refl _)] at hnb
      exact on_breaks hs hb rfl hnb
  | retrieveUntil i k =>
      simp only [BufGuard, not_forall] at hg
      obtain ⟨b, hb, rfl, hn⟩ := hg
      exact on_breaks hs hb ((h.get hb).retrieveUntil_eq (Nat.le_refl _))
        (EmptiesSafely.not_inBounds (h.get hb) hn)
  | read i n =>
      simp only [BufGuard, not_forall] at hg
      obtain ⟨b, hb, hn⟩ := hg
      obtain ⟨hall, -⟩ := Classical.not_imp.mp hn
      simp only [exec, hb, Option.map_some, Option.some.injEq] at hs
      have hrd : b.read n.toNat = .ok (b.bytes, b.retrieve n.toNat) := by
        rw [MessageBuffer.retrieve, if_pos hall]
        exact (h.get hb).read_all hall
      rw [hrd] at hs
      subst hs
      exact not_sound_of_mem (mem_set_of_get hb _) (EmptiesSafely.not_inBounds (h.get hb) hn)
  | readAll i =>
      simp only [BufGuard, not_forall] at hg
      obtain ⟨b, hb, hn⟩ := hg
      simp only [exec, hb, Option.map_some, Option.some.injEq] at hs
      rw [MessageBuffer.readAll, (h.get hb).read_all (Nat.le_refl _)] at hs
      subst hs
      have hnb := EmptiesSafely.not_inBounds (h.get hb) hn
      rw [MessageBuffer.retrieve, if_pos (Nat.le_refl _)] at hnb
      exact not_sound_of_mem (mem_set_of_get hb _) hnb
  | readInt i w =>
      simp only [BufGuard, not_forall] at hg
      obtain ⟨b, hb, heq, hn⟩ := hg
      simp only [exec, hb, Option.map_some, Option.some.injEq] at hs
      rw [IntWidth.read_eq] at hs
      rcases (h.get hb).readInt w.bytes with ⟨-, hlt⟩ | ⟨hr, -⟩
      · omega
      · rw [hr] at hs
        subst hs
        exact not_sound_of_mem (mem_set_of_get hb _) (EmptiesSafely.not_inBounds (h.get hb) hn)
  | _ => exact absurd trivial hg

/-- **When the representation invariant holds.** Along any sequence of
public operations, every buffer stays in bounds, no size computation
underflows and nothing is written outside the storage, exactly when every
operation meets its guard. -/
theorem sound_iff_guard (ops : List BufOp) :
    Throughout BufStep Sound empty ops ↔ EveryStep BufStep BufGuard empty ops :=
  throughout_iff_everyStep good_empty (fun _ _ _ h hg hs => good_step h hg hs)
    (fun _ h => h.sound) (fun _ _ _ h hg hs => not_sound_step h hg hs)

theorem live_of_returned {s : BufStore} {out : List Byte} (h : s.last = .returned out) :
    ∀ f, s.last ≠ .died f := by
  intro f hf
  rw [h] at hf
  cases hf

/-- `MessageBuffer b(0); b.retrieveAll();` shrinks the storage to nothing
and puts both indices at 8; so does emptying a moved-from buffer. -/
theorem not_sound_retrieveAll :
    ¬ Throughout BufStep Sound empty [.construct 0, .retrieveAll 0] ∧
      ¬ Throughout BufStep Sound empty [.construct 8, .moveConstruct 0, .retrieveAll 0] := by
  constructor
  · intro h
    have hsound := h _ _ (List.prefix_refl _)
      (.cons ⟨live_of_returned rfl, rfl⟩ (.cons ⟨live_of_returned rfl, rfl⟩ (.nil _)))
    exact absurd hsound (by decide)
  · intro h
    have hsound := h _ _ (List.prefix_refl _) (.cons ⟨live_of_returned rfl, rfl⟩
      (.cons ⟨live_of_returned rfl, rfl⟩ (.cons ⟨live_of_returned rfl, rfl⟩ (.nil _))))
    exact absurd hsound (by decide)

end BufStore

end Netpoll
