import Netpoll.BufferStore

/-!
# A `MessageBuffer` is a byte sequence

The abstract model of a program over buffers is a list of byte
sequences, and `seqExec` says what each operation of the interface means
for them: appending, prepending, dropping a front or a back, copying.
Nothing of the layout (reserve, compaction, reallocation, the overflow
buffer of `readFd`) is visible there.

`BufStore.refines_iff_guard` is the refinement for whole programs: every
step maps to the abstract step under `BufStore.abs`, exactly as long as
no size handed to the constructor or to `ensureWritableBytes` wraps the
`size_t` computations. The only other end of a step is an exception, and
that only if the storage asked for is beyond the allocation limit.
-/

namespace Netpoll

open MessageBuffer

def NetInt.bytes : NetInt → List Byte
  | .i8 v => netBytes 1 v.toNat
  | .i16 v => netBytes 2 v.toNat
  | .i32 v => netBytes 4 v.toNat
  | .i64 v => netBytes 8 v.toNat

/-- The interface without moves and without `hasWritten`, whose bytes
come from elsewhere; the constructor takes at least the reserve. -/
def BufOp.InSeq : BufOp → Prop
  | .construct len => kBufferOffset ≤ len.toNat
  | .moveConstruct _ | .moveAssign _ _ | .hasWritten _ _ => False
  | _ => True

/-- One operation of that part of the interface. -/
def SeqBufStep : BufStore → BufOp → BufStore → Prop :=
  Guarded BufStep fun _ op => op.InSeq

/-! ## The abstract model -/

/-- Replace sequence `i` by its image under `g`. -/
def edit (seqs : List (List Byte)) (i : Nat) (g : List Byte → List Byte) :
    Option (List (List Byte)) :=
  (seqs[i]?).map fun x => seqs.set i (g x)

/-- Replace sequence `i` if `ok` holds of it; otherwise an assertion fails. -/
def editIf (seqs : List (List Byte)) (i : Nat) (ok : List Byte → Bool)
    (g : List Byte → List Byte) (out : List Byte → Outcome) :
    Option (List (List Byte) × Outcome) :=
  (seqs[i]?).map fun x => if ok x then (seqs.set i (g x), out x) else (seqs, .died .assertion)

/-- What an operation does to the sequences and what it returns; `recv`
is what `readv` delivered, `none` if it failed. -/
def seqExec (seqs : List (List Byte)) (recv : Option (List Byte)) :
    BufOp → Option (List (List Byte) × Outcome)
  | .construct _ => some (seqs ++ [[]], .returned [])
  | .copyConstruct i => (seqs[i]?).map fun x => (seqs ++ [x], .returned [])
  | .copyAssign i j => do
      let _ ← seqs[i]?
      let y ← seqs[j]?
      return (seqs.set i y, .returned [])
  | .swap i j => do
      let x ← seqs[i]?
      let y ← seqs[j]?
      return ((seqs.set i y).set j x, .returned [])
  | .pushBack i v => (edit seqs i (· ++ v.bytes)).map (·, .returned [])
  | .pushBackBuffer i j => do
      let y ← seqs[j]?
      (edit seqs i (· ++ y)).map (·, .returned [])
  | .pushFront i v => (edit seqs i (v.bytes ++ ·)).map (·, .returned [])
  | .pushBackInt i v => (edit seqs i (· ++ v.bytes)).map (·, .returned [])
  | .pushFrontInt i v => (edit seqs i (v.bytes ++ ·)).map (·, .returned [])
  | .retrieve i n => (edit seqs i (·.drop n.toNat)).map (·, .returned [])
  | .retrieveAll i => (edit seqs i fun _ => []).map (·, .returned [])
  | .retrieveUntil i k =>
      editIf seqs i (fun x => k ≤ x.length) (·.drop k) fun _ => .returned []
  | .read i n => editIf seqs i (fun _ => true) (·.drop n.toNat) fun x => .returned (x.take n.toNat)
  | .readAll i => editIf seqs i (fun _ => true) (fun _ => []) .returned
  | .readInt i w =>
      editIf seqs i (fun x => w.bytes ≤ x.length) (·.drop w.bytes)
        fun x => .returnedInt (netValue (x.take w.bytes))
  | .unwrite i n =>
      editIf seqs i (fun x => n.toNat ≤ x.length) (fun x => x.take (x.length - n.toNat))
        fun _ => .returned []
  | .ensureWritableBytes i _ => (edit seqs i id).map (·, .returned [])
  | .readFd i _ => (edit seqs i (· ++ recv.getD [])).map (·, .returned [])
  | .moveConstruct _ | .moveAssign _ _ | .hasWritten _ _ => none

/-- The sequences after an operation that threw: `readFd` may have kept
a front part of what it received, the others change nothing. -/
def SeqThrown (seqs : List (List Byte)) (recv : Option (List Byte)) (seqs' : List (List Byte)) :
    BufOp → Prop
  | .readFd i _ => ∃ k, edit seqs i (· ++ (recv.getD []).take k) = some seqs'
  | _ => seqs' = seqs

namespace BufStore

/-- The sequences that the buffers of a store hold. -/
def abs (s : BufStore) : List (List Byte) := s.bufs.map bytes

/-- What `readv` delivers in `op`. -/
def recv (s : BufStore) : BufOp → Option (List Byte)
  | .readFd i offer => (s.bufs[i]?).bind (·.received offer)
  | _ => none

def storage (s : BufStore) (i : Nat) : Nat := (s.bufs[i]?).elim 0 (·.buffer.length)

/-- A bound on the storage that `op` may have to allocate, up to the
two reserves. -/
def request (s : BufStore) : BufOp → Nat
  | .construct len => len.toNat
  | .pushBack i v | .pushFront i v => 2 * s.storage i + v.bytes.length
  | .pushBackBuffer i j => 2 * s.storage i + s.storage j
  | .pushBackInt i _ | .pushFrontInt i _ => 2 * s.storage i + 8
  | .ensureWritableBytes i n => 2 * s.storage i + n.toNat
  | .readFd i _ => 2 * s.storage i + kExtBuffer
  | _ => 0

/-- The step from `s` to `s'` is the abstract step under `abs`, with the
same result; or it threw because the storage asked for is too large. -/
def Refines (s : BufStore) (op : BufOp) (s' : BufStore) : Prop :=
  (∀ b ∈ s'.bufs, InBounds b) ∧
    (seqExec s.abs (s.recv op) op = some (s'.abs, s'.last) ∨
      s'.last = .threw ∧ SeqThrown s.abs (s.recv op) s'.abs op ∧
        kAllocLimit < s.request op + 2 * kBufferOffset)

/-- What an operation needs in order to refine the abstract one. -/
def SeqGuard (s : BufStore) : BufOp → Prop
  | .construct len => len.toNat + kBufferOffset < sizeMod
  | .ensureWritableBytes i n => ∀ b, s.bufs[i]? = some b → EnsureFits b n.toNat
  | _ => True

/-! ## A guarded step refines -/

/-- The invariant that carries a program: every buffer is `Sized`. -/
def AllSized (s : BufStore) : Prop := ∀ b ∈ s.bufs, Sized b

variable {s s' : BufStore} {op : BufOp} {i j : Nat} {b : MessageBuffer}

theorem allSized_empty : AllSized empty := fun _ hb => nomatch hb

theorem AllSized.get (h : AllSized s) (hb : s.bufs[i]? = some b) : Sized b :=
  h b (List.mem_of_getElem? hb)

theorem AllSized.set (h : AllSized s) (hb : Sized b) (o : Outcome) :
    AllSized ⟨s.bufs.set i b, o⟩ := by
  intro c hc
  rcases List.mem_or_eq_of_mem_set hc with hc | rfl
  · exact h c hc
  · exact hb

theorem AllSized.push (h : AllSized s) (hb : Sized b) (o : Outcome) :
    AllSized ⟨s.bufs ++ [b], o⟩ := by
  intro c hc
  rcases List.mem_append.mp hc with hc | hc
  · exact h c hc
  · obtain rfl := List.mem_singleton.mp hc
    exact hb

theorem AllSized.inBounds (h : AllSized s) : ∀ b ∈ s.bufs, InBounds b :=
  fun b hb => ⟨(h b hb).head_le, (h b hb).tail_le⟩

theorem abs_get (hb : s.bufs[i]? = some b) : s.abs[i]? = some b.bytes := by
  simp [abs, hb]

theorem abs_set (bufs : List MessageBuffer) (b : MessageBuffer) (o : Outcome) :
    (⟨bufs.set i b, o⟩ : BufStore).abs = (bufs.map bytes).set i b.bytes :=
  List.map_set

theorem abs_push (bufs : List MessageBuffer) (b : MessageBuffer) (o : Outcome) :
    (⟨bufs ++ [b], o⟩ : BufStore).abs = bufs.map bytes ++ [b.bytes] := by
  simp [abs]

theorem storage_get (hb : s.bufs[i]? = some b) : s.storage i = b.buffer.length := by
  simp [storage, hb]

/-- A member function without result, which becomes `g` or throws under
the condition `E`. -/
theorem AllSized.on (h : AllSized s) {f : MessageBuffer → Except Fault MessageBuffer}
    {g : List Byte → List Byte} {E : Prop}
    (hf : ∀ b, s.bufs[i]? = some b →
      Post (fun f => f = .badAlloc ∧ E) (Becomes b (g b.bytes)) (f b))
    (hs : s.on i f = some s') :
    AllSized s' ∧
      ((edit s.abs i g).map (·, Outcome.returned []) = some (s'.abs, s'.last) ∨
        s'.last = .threw ∧ s'.abs = s.abs ∧ E) := by
  obtain ⟨b, hb, rfl⟩ := Option.map_eq_some_iff.mp hs
  have hpost := hf b hb
  cases hr : f b with
  | ok b' =>
      have hbe := hpost.of_ok hr
      refine ⟨h.set (hbe.sized (h.get hb)) _, Or.inl ?_⟩
      simp only [edit, abs_get hb, Option.map_some, settle]
      rw [abs_set, hbe.bytes_eq]
      rfl
  | error e =>
      obtain ⟨rfl, hE⟩ := hpost.of_error hr
      exact ⟨h, Or.inr ⟨rfl, rfl, hE⟩⟩

theorem AllSized.on_total (h : AllSized s) {f : MessageBuffer → MessageBuffer}
    {g : List Byte → List Byte}
    (hf : ∀ b, s.bufs[i]? = some b → Becomes b (g b.bytes) (f b))
    (hs : s.on i (fun b => .ok (f b)) = some s') :
    AllSized s' ∧ (edit s.abs i g).map (·, Outcome.returned []) = some (s'.abs, s'.last) := by
  obtain ⟨hsz, heq | ⟨-, -, hE⟩⟩ := h.on (E := False) (fun b hb => post_ok.mpr (hf b hb)) hs
  · exact ⟨hsz, heq⟩
  · exact hE.elim

theorem AllSized.settle {α : Type} (h : AllSized s) (hb : s.bufs[i]? = some b)
    {r : Except Fault α} {k : α → BufStore} {ok : List Byte → Bool}
    {g : List Byte → List Byte} {out : List Byte → Outcome}
    (hr : if ok b.bytes
      then ∃ a b', r = .ok a ∧ k a = ⟨s.bufs.set i b', out b.bytes⟩ ∧ Becomes b (g b.bytes) b'
      else r = .error .assertion) :
    AllSized (s.settle r k) ∧
      editIf s.abs i ok g out = some ((s.settle r k).abs, (s.settle r k).last) := by
  simp only [editIf, abs_get hb, Option.map_some]
  by_cases hok : ok b.bytes
  · rw [if_pos hok] at hr
    obtain ⟨a, b', rfl, hk, hbe⟩ := hr
    simp only [BufStore.settle, hk]
    refine ⟨h.set (hbe.sized (h.get hb)) _, ?_⟩
    rw [if_pos hok, abs_set, hbe.bytes_eq]
    rfl
  · rw [if_neg hok] at hr
    subst hr
    refine ⟨h, ?_⟩
    rw [if_neg hok]
    rfl

theorem AllSized.settle_le {α : Type} (h : AllSized s) (hb : s.bufs[i]? = some b) {n : Nat}
    {r : Except Fault α} {k : α → BufStore} {g : List Byte → List Byte}
    {out : List Byte → Outcome}
    (hok : n ≤ b.readableBytes →
      ∃ a b', r = .ok a ∧ k a = ⟨s.bufs.set i b', out b.bytes⟩ ∧ Becomes b (g b.bytes) b')
    (hbad : ¬ n ≤ b.readableBytes → r = .error .assertion) :
    AllSized (s.settle r k) ∧
      editIf s.abs i (fun x => n ≤ x.length) g out =
        some ((s.settle r k).abs, (s.settle r k).last) := by
  have hlen := (h.get hb).bytes_length
  refine h.settle hb ?_
  by_cases hn : n ≤ b.readableBytes
  · rw [if_pos (by rw [hlen]; exact decide_eq_true hn)]
    exact hok hn
  · rw [if_neg (by rw [hlen]; simpa using hn)]
    exact hbad hn

theorem AllSized.refines (h : AllSized s' ∧ seqExec s.abs (s.recv op) op = some (s'.abs, s'.last)) :
    AllSized s' ∧ s.Refines op s' :=
  ⟨h.1, h.1.inBounds, Or.inl h.2⟩

theorem AllSized.refines_or (hop : ∀ c c' r, SeqThrown c r c' op ↔ c' = c)
    (h : AllSized s' ∧ (seqExec s.abs (s.recv op) op = some (s'.abs, s'.last) ∨
      s'.last = .threw ∧ s'.abs = s.abs ∧ kAllocLimit < s.request op + 2 * kBufferOffset)) :
    AllSized s' ∧ s.Refines op s' := by
  refine ⟨h.1, h.1.inBounds, h.2.imp_right fun ⟨hl, ha, hE⟩ => ⟨hl, (hop _ _ _).mpr ha, hE⟩⟩

theorem netInt_bytes_length (v : NetInt) : v.bytes.length ≤ 8 := by
  cases v <;> simp only [NetInt.bytes, netBytes_length] <;> decide

/-- What a growing member function of buffer `i` needs, at a demand of
at most `n` bytes. -/
theorem Refused.beyond {f : Fault} {m n : Nat} (hb : s.bufs[i]? = some b) (hmn : m ≤ n)
    (h : Refused b m f) :
    f = .badAlloc ∧ kAllocLimit < 2 * s.storage i + n + 2 * kBufferOffset := by
  rw [storage_get hb]
  exact ⟨h.1, by have := h.2; omega⟩

theorem AllSized.grow (h : AllSized s) {f : MessageBuffer → Except Fault MessageBuffer}
    {g : List Byte → List Byte} {m n : Nat} (hmn : m ≤ n)
    (hf : ∀ b, s.bufs[i]? = some b → Post (Refused b m) (Becomes b (g b.bytes)) (f b))
    (hs : s.on i f = some s') :
    AllSized s' ∧
      ((edit s.abs i g).map (·, Outcome.returned []) = some (s'.abs, s'.last) ∨
        s'.last = .threw ∧ s'.abs = s.abs ∧
          kAllocLimit < 2 * s.storage i + n + 2 * kBufferOffset) :=
  h.on (fun b hb => (hf b hb).mono (fun _ he => Refused.beyond hb hmn he) fun _ hbe => hbe) hs

theorem readable_le_storage (h : Sized b) (hb : s.bufs[i]? = some b) :
    b.readableBytes ≤ s.storage i := by
  rw [storage_get hb, h.readable_eq]
  have := h.tail_le
  omega

theorem allSized_construct {len : UInt64} (h : AllSized s)
    (hg : s.SeqGuard (.construct len)) (hin : (BufOp.construct len).InSeq)
    (hs : s.exec (.construct len) = some s') : AllSized s' ∧ s.Refines (.construct len) s' := by
  obtain rfl := Option.some.inj hs
  refine AllSized.refines_or (fun _ _ _ => Iff.rfl) ?_
  have hnew := new_fresh hg
  cases hr : MessageBuffer.new len.toNat with
  | ok b =>
      have hfr := hnew.of_ok hr
      refine ⟨h.push (hfr.sized hin) _, Or.inl ?_⟩
      simp only [seqExec, settle, abs_push, hfr.bytes_eq]
      rfl
  | error f =>
      obtain ⟨rfl, hlim⟩ := hnew.of_error hr
      exact ⟨h, Or.inr ⟨rfl, rfl, by simp only [request]; omega⟩⟩

/-- The appended buffer may be the buffer itself. -/
theorem allSized_pushBackBuffer (h : AllSized s) (hs : s.exec (.pushBackBuffer i j) = some s') :
    AllSized s' ∧ s.Refines (.pushBackBuffer i j) s' := by
  refine AllSized.refines_or (fun _ _ _ => Iff.rfl) ?_
  simp only [exec] at hs
  split at hs
  · rename_i hij
    subst hij
    obtain ⟨b, hb, -⟩ := Option.map_eq_some_iff.mp hs
    simp only [seqExec, abs_get hb, request]
    refine h.grow (g := (· ++ b.bytes)) (readable_le_storage (h.get hb) hb) (fun b' hb' => ?_) hs
    obtain rfl : b = b' := Option.some.inj (hb.symm.trans hb')
    exact (h.get hb).pushBackSelf
  · obtain ⟨buf, hbuf, hs⟩ := Option.bind_eq_some_iff.mp hs
    simp only [seqExec, abs_get hbuf, request]
    exact h.grow (g := (· ++ buf.bytes)) (readable_le_storage (h.get hbuf) hbuf)
      (fun b hb => (h.get hb).pushBackBuffer (h.get hbuf).toRep) hs

/-- `readFd` may keep a front part of what it received before it throws. -/
theorem allSized_readFd {offer : Option (List Byte)} (h : AllSized s)
    (hs : s.exec (.readFd i offer) = some s') : AllSized s' ∧ s.Refines (.readFd i offer) s' := by
  obtain ⟨b, hb, rfl⟩ := Option.map_eq_some_iff.mp hs
  have hfill := (h.get hb).readFd offer
  have hrecv : s.recv (.readFd i offer) = b.received offer := by simp [recv, hb]
  split
  · rename_i b' he
    rw [he] at hfill
    refine AllSized.refines ⟨h.set (hfill.sized (h.get hb)) _, ?_⟩
    simp only [seqExec, edit, abs_get hb, Option.map_some, hrecv]
    rw [abs_set, hfill.bytes_eq]
    rfl
  · rename_i b' f he
    rw [he] at hfill
    obtain ⟨href, k, hbe⟩ := hfill
    obtain ⟨rfl, hlim⟩ := Refused.beyond hb (Nat.le_refl _) href
    have hsz := h.set (i := i) (hbe.sized (h.get hb)) (ending .badAlloc)
    refine ⟨hsz, hsz.inBounds, Or.inr ⟨rfl, ⟨k, ?_⟩, hlim⟩⟩
    simp only [edit, abs_get hb, Option.map_some, hrecv]
    rw [abs_set, hbe.bytes_eq]
    rfl

/-- The step lemma: a guarded operation refines the abstract one. -/
theorem allSized_step (h : AllSized s) (hg : s.SeqGuard op) (hs : SeqBufStep s op s') :
    AllSized s' ∧ s.Refines op s' := by
  obtain ⟨⟨-, hs⟩, hin⟩ := hs
  have hle8 : 8 ≤ kAllocLimit := by decide
  cases op with
  | construct len => exact allSized_construct h hg hin hs
  | copyConstruct i =>
      obtain ⟨b, hb, rfl⟩ := Option.map_eq_some_iff.mp hs
      refine AllSized.refines ⟨h.push (h.get hb) _, ?_⟩
      simp only [seqExec, abs_get hb, Option.map_some, abs_push]
      rfl
  | copyAssign i j =>
      obtain ⟨a, ha, hs⟩ := Option.bind_eq_some_iff.mp hs
      obtain ⟨b, hb, hs⟩ := Option.bind_eq_some_iff.mp hs
      obtain rfl := Option.some.inj hs
      refine AllSized.refines ⟨h.set (h.get hb) _, ?_⟩
      simp only [seqExec, abs_get ha, abs_get hb, abs_set]
      rfl
  | swap i j =>
      obtain ⟨a, ha, hs⟩ := Option.bind_eq_some_iff.mp hs
      obtain ⟨b, hb, hs⟩ := Option.bind_eq_some_iff.mp hs
      obtain rfl := Option.some.inj hs
      refine AllSized.refines ⟨(h.set (h.get hb) (.returned [])).set (h.get ha) _, ?_⟩
      simp only [seqExec, abs_get ha, abs_get hb, abs_set, List.map_set]
      rfl
  | pushBack i v =>
      exact AllSized.refines_or (fun _ _ _ => Iff.rfl)
        (h.grow (Nat.le_refl _) (fun b hb => (h.get hb).pushBack v.fits) hs)
  | pushBackBuffer i j => exact allSized_pushBackBuffer h hs
  | pushFront i v =>
      exact AllSized.refines_or (fun _ _ _ => Iff.rfl)
        (h.grow (Nat.le_refl _) (fun b hb => (h.get hb).pushFront v.fits) hs)
  | pushBackInt i v =>
      have hv := netInt_bytes_length v
      refine AllSized.refines_or (fun _ _ _ => Iff.rfl) (h.grow hv (fun b hb => ?_) hs)
      have hpush := (h.get hb).pushBack (show v.bytes.length ≤ kAllocLimit by omega)
      cases v <;> exact hpush
  | pushFrontInt i v =>
      have hv := netInt_bytes_length v
      refine AllSized.refines_or (fun _ _ _ => Iff.rfl) (h.grow hv (fun b hb => ?_) hs)
      have hpush := (h.get hb).pushFront (show v.bytes.length ≤ kAllocLimit by omega)
      cases v <;> exact hpush
  | retrieve i n =>
      refine AllSized.refines (h.on_total (fun b hb => ?_) hs)
      exact (h.get hb).retrieve _ fun _ => (h.get hb).shrunkSize_ge
  | retrieveAll i =>
      refine AllSized.refines (h.on_total (fun b hb => ?_) hs)
      exact (h.get hb).retrieveAll (h.get hb).shrunkSize_ge
  | retrieveUntil i k =>
      obtain ⟨b, hb, rfl⟩ := Option.map_eq_some_iff.mp hs
      refine AllSized.refines (h.settle_le hb (fun hk => ?_) fun hk => ?_)
      · obtain ⟨b', he, hbe⟩ := (h.get hb).retrieveUntil hk fun _ => (h.get hb).shrunkSize_ge
        exact ⟨b', b', he, rfl, hbe⟩
      · exact (h.get hb).toRep.retrieveUntil_fails hk
  | read i n =>
      obtain ⟨b, hb, rfl⟩ := Option.map_eq_some_iff.mp hs
      refine AllSized.refines (h.settle hb ?_)
      obtain ⟨b', he, hbe⟩ := (h.get hb).read n.toNat fun _ => (h.get hb).shrunkSize_ge
      rw [if_pos rfl]
      exact ⟨_, b', he, rfl, hbe⟩
  | readAll i =>
      obtain ⟨b, hb, rfl⟩ := Option.map_eq_some_iff.mp hs
      refine AllSized.refines (h.settle hb ?_)
      rw [if_pos rfl]
      exact ⟨_, b.retrieveAll, (h.get hb).read_all (Nat.le_refl _), rfl,
        (h.get hb).retrieveAll (h.get hb).shrunkSize_ge⟩
  | readInt i w =>
      obtain ⟨b, hb, rfl⟩ := Option.map_eq_some_iff.mp hs
      rw [IntWidth.read_eq]
      rcases (h.get hb).toRep.readInt w.bytes with ⟨he, hlt⟩ | ⟨he, hle⟩
      · exact AllSized.refines (h.settle_le hb (fun hn => absurd hn (by omega)) fun _ => he)
      · refine AllSized.refines (h.settle_le hb (fun _ => ?_) fun hn => absurd hle hn)
        exact ⟨_, b.retrieve w.bytes, he, rfl,
          (h.get hb).retrieve _ fun _ => (h.get hb).shrunkSize_ge⟩
  | unwrite i n =>
      obtain ⟨b, hb, rfl⟩ := Option.map_eq_some_iff.mp hs
      refine AllSized.refines (h.settle_le hb (fun hn => ?_) fun hn => ?_)
      · obtain ⟨b', he, hbe⟩ := (h.get hb).unwrite hn
        exact ⟨b', b', he, rfl, hbe⟩
      · exact unwrite_fails hn
  | ensureWritableBytes i n =>
      refine AllSized.refines_or (fun _ _ _ => Iff.rfl)
        (h.grow (Nat.le_refl _) (fun b hb => ?_) hs)
      exact ((h.get hb).ensureWritableBytes (hg b hb)).mono (fun _ he => he)
        fun _ hen => hen.becomes (h.get hb).toRep
  | readFd i offer => exact allSized_readFd h hs
  | moveConstruct | moveAssign | hasWritten => exact hin.elim

/-! ## An unguarded step does not -/

theorem not_refines_of_mem (hb : b ∈ s'.bufs) (hn : ¬ InBounds b) : ¬ s.Refines op s' :=
  fun hr => hn (hr.1 b hb)

theorem not_refines_step (h : AllSized s) (hg : ¬ s.SeqGuard op) (hs : SeqBufStep s op s') :
    ¬ s.Refines op s' := by
  obtain ⟨⟨-, hs⟩, -⟩ := hs
  cases op with
  | construct len =>
      obtain ⟨b, hnew, -, htl, hsz⟩ := new_wraps len.toNat_lt hg
      obtain rfl := Option.some.inj hs
      rw [hnew]
      refine not_refines_of_mem (List.mem_append.mpr (Or.inr (List.mem_singleton.mpr rfl))) ?_
      rintro ⟨-, htail⟩
      omega
  | ensureWritableBytes i n =>
      simp only [SeqGuard, not_forall] at hg
      obtain ⟨b, hb, hn⟩ := hg
      simp only [exec, on, hb, Option.map_some, Option.some.injEq] at hs
      subst hs
      rcases EnsureFits.breaks (h.get hb).toRep hn with he | ⟨b', he, hnb, -⟩
      · rw [he]
        rintro ⟨-, heq | ⟨hthrew, -, -⟩⟩
        · simp only [seqExec, edit, abs_get hb, Option.map_some, Option.some.injEq,
            Prod.mk.injEq] at heq
          exact absurd heq.2 (by simp [settle, ending])
        · exact absurd hthrew (by simp [settle, ending])
      · rw [he]
        exact not_refines_of_mem (mem_set_of_get hb b') hnb
  | _ => exact absurd trivial hg

/-- **The buffers refine byte sequences.** Along any sequence of
operations, every step is the abstract step on the sequences held (or an
exception over the allocation limit), exactly when no step hands the
constructor or `ensureWritableBytes` a length that wraps. -/
theorem refines_iff_guard (ops : List BufOp) :
    EveryStep SeqBufStep (fun s op => ∀ s', SeqBufStep s op s' → s.Refines op s') empty ops ↔
      EveryStep SeqBufStep SeqGuard empty ops := by
  refine everyStep_iff_everyStep allSized_empty ?_ ?_
  · intro s op s' h hg hs
    exact allSized_step h hg hs
  · intro s op s' h hg hs
    exact not_refines_step h hg hs

/-- Eight bytes, as a `StringView`. -/
def eight : View := ⟨List.replicate 8 1, by decide⟩

/-- A full buffer without reserve is asked for `2 ^ 64 - 8` writable
bytes: the sum with the reserve wraps to 0, the compaction branch is
taken and moves the 16 readable bytes to index 8 of a storage of 16. -/
theorem not_refines_ensureWritableBytes :
    ¬ EveryStep SeqBufStep (fun s op => ∀ s', SeqBufStep s op s' → s.Refines op s') empty
      [.construct 8, .pushFront 0 eight, .pushBack 0 eight,
        .ensureWritableBytes 0 (0 - 8)] := by
  intro h
  let full : BufStore := ⟨[⟨0, 16, 8, List.replicate 16 1⟩], .returned []⟩
  have hrun : Run SeqBufStep empty [.construct 8, .pushFront 0 eight, .pushBack 0 eight] full :=
    .cons ⟨⟨live_of_returned rfl, rfl⟩, (by decide : 8 ≤ (8 : UInt64).toNat)⟩
      (.cons ⟨⟨live_of_returned rfl, rfl⟩, trivial⟩
      (.cons ⟨⟨live_of_returned rfl, by decide⟩, trivial⟩ (.nil _)))
  have hstep : SeqBufStep full (.ensureWritableBytes 0 (0 - 8))
      ⟨full.bufs, .died .outOfBounds⟩ := ⟨⟨live_of_returned rfl, by decide⟩, trivial⟩
  have href := h _ _ _ _ (List.prefix_refl _) hrun hstep _ hstep
  rcases href.2 with heq | ⟨hthrew, -, -⟩
  · exact absurd (congrArg (Option.map Prod.snd) heq) (by decide)
  · cases hthrew

end BufStore

end Netpoll
