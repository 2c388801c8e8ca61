import Mathlib.Logic.Function.Iterate
import Netpoll.Cascade
import Netpoll.TimingWheel

/-!
# When a wheel releases an entry

An entry that is inserted once and held by nobody else sits in exactly
one bucket of the wheel (`Sole`), wrapped in as many `CallbackEntry`s as
its queue is coarser than the finest one (`Nested`). From the bucket, the
wrapping and the counter one can read off the tick of its release
(`due`), and no tick and no other insertion changes that tick: this is
the invariant `Fate` of a run.

At the insertion that tick is `T + d`, plus the error of converting `d`
to `float`, plus the drift of the cascade. The re-insertion slot
`(delay + t % B) % B` is the digit of the tick aimed at, while the finer
queue has already rotated for the current tick, so each cascade lands
one slot late, or `B - 1` slots early when `B` divides the aim.
-/

namespace Netpoll

namespace TimingWheel

variable {E : Type} {w : TimingWheel E} {e : E} {i j r slot : Nat} {p q : EntryPtr E}

/-! ## Buckets -/

theorem holds_iff : w.Holds e ↔ ∃ j r p, p ∈ w.bucket j r ∧ p.target = e := by
  constructor
  · rintro ⟨queue, hqueue, b, hb, p, hp, rfl⟩
    obtain ⟨j, hj⟩ := List.mem_iff_getElem?.mp hqueue
    obtain ⟨r, hr⟩ := List.mem_iff_getElem?.mp hb
    refine ⟨j, r, p, ?_, rfl⟩
    simpa [bucket, List.getD_eq_getElem?_getD, hj, hr] using hp
  · rintro ⟨j, r, p, hp, rfl⟩
    rw [bucket, List.getD_eq_getElem?_getD, List.getD_eq_getElem?_getD] at hp
    cases hj : w.taskQueues[j]? with
    | none => simp [hj] at hp
    | some queue =>
        cases hr : queue[r]? with
        | none => simp [hj, hr] at hp
        | some b =>
            refine ⟨queue, List.mem_of_getElem? hj, b, List.mem_of_getElem? hr, p, ?_, rfl⟩
            simpa [hj, hr] using hp

theorem lt_of_mem_bucket (h : p ∈ w.bucket j r) :
    j < w.queueNum ∧ r < w.bucketsNumPerQueue := by
  rw [bucket, List.getD_eq_getElem?_getD, List.getD_eq_getElem?_getD] at h
  cases hj : w.taskQueues[j]? with
  | none => simp [hj] at h
  | some queue =>
      have hlen := w.length_queue queue (List.mem_of_getElem? hj)
      refine ⟨(List.getElem?_eq_some_iff.mp hj).1, ?_⟩
      by_contra hr
      have hnone : queue[r]? = none := List.getElem?_eq_none (by omega)
      simp [hj, hnone] at h

theorem bucket_new (maxTimeout B : Nat) (hB : 1 < B) :
    (new E maxTimeout B hB).bucket j r = [] := by
  rw [bucket, new, List.getD_eq_getElem?_getD, List.getD_eq_getElem?_getD,
    List.getElem?_replicate]
  split
  · rw [Option.getD_some, List.getElem?_replicate]
    split <;> rfl
  · simp

theorem queueNum_modifyQueue (w : TimingWheel E) (i : Nat) (f hf) :
    (w.modifyQueue i f hf).queueNum = w.queueNum := by
  simp [queueNum, modifyQueue]

theorem bucket_modifyQueue (w : TimingWheel E) (i : Nat) (f hf) (hi : i < w.queueNum) :
    (w.modifyQueue i f hf).bucket j r =
      if j = i then (f (w.taskQueues.getD i [])).getD r [] else w.bucket j r := by
  simp only [bucket, modifyQueue, List.getD_eq_getElem?_getD, List.getElem?_modify]
  by_cases hij : j = i
  · subst hij
    rw [List.getElem?_eq_getElem hi]
    simp
  · simp [hij, Ne.symm hij]

theorem length_getD (hi : i < w.queueNum) :
    (w.taskQueues.getD i []).length = w.bucketsNumPerQueue := by
  rw [List.getD_eq_getElem?_getD, List.getElem?_eq_getElem hi, Option.getD_some]
  exact w.length_queue _ (List.getElem_mem hi)

theorem callbackSlot_lt (w : TimingWheel E) (delay t : Nat) :
    callbackSlot w.bucketsNumPerQueue delay t < w.bucketsNumPerQueue :=
  Nat.mod_lt _ (by have := w.one_lt_buckets; omega)

/-! ### Inserting -/

section Insert

variable [DecidableEq E]

@[simp] theorem bucketsNumPerQueue_insertAt :
    (w.insertAt i slot p).bucketsNumPerQueue = w.bucketsNumPerQueue := rfl

@[simp] theorem ticksCounter_insertAt :
    (w.insertAt i slot p).ticksCounter = w.ticksCounter := rfl

@[simp] theorem queueNum_insertAt : (w.insertAt i slot p).queueNum = w.queueNum :=
  queueNum_modifyQueue ..

theorem mem_bucket_insertAt :
    q ∈ (w.insertAt i slot p).bucket j r ↔
      q ∈ w.bucket j r ∨
        (q = p ∧ j = i ∧ r = slot ∧ i < w.queueNum ∧ slot < w.bucketsNumPerQueue) := by
  by_cases hi : i < w.queueNum
  · have hlen := length_getD hi
    rw [insertAt, bucket_modifyQueue _ _ _ _ hi]
    by_cases hji : j = i
    · subst hji
      generalize hqueue : w.taskQueues.getD j [] = queue at hlen
      rw [if_pos rfl, List.getD_eq_getElem?_getD, List.getElem?_modify, bucket, hqueue,
        List.getD_eq_getElem?_getD]
      by_cases hr : slot = r
      · subst hr
        by_cases hslot : slot < w.bucketsNumPerQueue
        · rw [List.getElem?_eq_getElem (by omega)]
          simp [hi, hslot, or_comm]
        · rw [List.getElem?_eq_none (by omega)]
          simp [hslot]
      · simp [hr, Ne.symm hr]
    · simp [hji]
  · have hsame : w.taskQueues.modify i (fun q => q.modify slot (List.insert p)) =
        w.taskQueues := List.modify_eq_self (by simpa [queueNum] using hi)
    simp [insertAt, modifyQueue, bucket, hsame, hi]

/-! ### Rotating -/

theorem destruct_frame (w : TimingWheel E) (p : EntryPtr E) :
    (w.destruct p).bucketsNumPerQueue = w.bucketsNumPerQueue ∧
      (w.destruct p).ticksCounter = w.ticksCounter ∧ (w.destruct p).queueNum = w.queueNum := by
  cases p with
  | entry => exact ⟨rfl, rfl, rfl⟩
  | callbackEntry delay i t p =>
      rw [destruct]
      split
      · exact ⟨rfl, rfl, queueNum_insertAt⟩
      · exact ⟨rfl, rfl, rfl⟩

theorem foldl_destruct_frame (l : List (EntryPtr E)) (w : TimingWheel E) :
    (l.foldl destruct w).bucketsNumPerQueue = w.bucketsNumPerQueue ∧
      (l.foldl destruct w).ticksCounter = w.ticksCounter ∧
      (l.foldl destruct w).queueNum = w.queueNum := by
  induction l generalizing w with
  | nil => exact ⟨rfl, rfl, rfl⟩
  | cons p l ih =>
      obtain ⟨hB, hT, hQ⟩ := destruct_frame w p
      rw [List.foldl_cons, ← hB, ← hT, ← hQ]
      exact ih _

@[simp] theorem bucketsNumPerQueue_rotate :
    (w.rotate i).bucketsNumPerQueue = w.bucketsNumPerQueue := (foldl_destruct_frame _ _).1

@[simp] theorem ticksCounter_rotate : (w.rotate i).ticksCounter = w.ticksCounter :=
  (foldl_destruct_frame _ _).2.1

@[simp] theorem queueNum_rotate : (w.rotate i).queueNum = w.queueNum :=
  (foldl_destruct_frame _ _).2.2.trans (queueNum_modifyQueue ..)

theorem mem_bucket_destruct :
    q ∈ (w.destruct p).bucket j r ↔
      q ∈ w.bucket j r ∨ ∃ delay t, p = .callbackEntry delay j t q ∧ 0 < delay ∧
        r = callbackSlot w.bucketsNumPerQueue delay t ∧ j < w.queueNum := by
  cases p with
  | entry => simp [destruct]
  | callbackEntry delay i t p =>
      have hslot := callbackSlot_lt w delay t
      rw [destruct]
      split
      case isTrue hd =>
        rw [mem_bucket_insertAt]
        constructor
        · rintro (h | ⟨rfl, rfl, rfl, hi, -⟩)
          · exact Or.inl h
          · exact Or.inr ⟨delay, t, rfl, hd, rfl, hi⟩
        · rintro (h | ⟨_, _, heq, -, hr, hj⟩)
          · exact Or.inl h
          · cases heq
            exact Or.inr ⟨rfl, rfl, hr, hj, hslot⟩
      case isFalse hd =>
        constructor
        · exact Or.inl
        · rintro (h | ⟨_, _, heq, hpos, -⟩)
          · exact h
          · cases heq
            exact absurd hpos hd

theorem mem_bucket_foldl_destruct (l : List (EntryPtr E)) (w : TimingWheel E) :
    q ∈ (l.foldl destruct w).bucket j r ↔
      q ∈ w.bucket j r ∨ ∃ delay t, .callbackEntry delay j t q ∈ l ∧ 0 < delay ∧
        r = callbackSlot w.bucketsNumPerQueue delay t ∧ j < w.queueNum := by
  induction l generalizing w with
  | nil => simp
  | cons p l ih =>
      obtain ⟨hB, -, hQ⟩ := destruct_frame w p
      rw [List.foldl_cons, ih, mem_bucket_destruct, hB, hQ]
      constructor
      · rintro ((h | ⟨delay, t, rfl, h⟩) | ⟨delay, t, hmem, h⟩)
        · exact Or.inl h
        · exact Or.inr ⟨delay, t, List.mem_cons_self .., h⟩
        · exact Or.inr ⟨delay, t, List.mem_cons_of_mem _ hmem, h⟩
      · rintro (h | ⟨delay, t, hmem, h⟩)
        · exact Or.inl (Or.inl h)
        · rcases List.mem_cons.mp hmem with heq | hmem
          · exact Or.inl (Or.inr ⟨delay, t, heq.symm, h⟩)
          · exact Or.inr ⟨delay, t, hmem, h⟩

/-- What a rotation of queue `i` does: the queue moves up by one bucket,
and the `CallbackEntry`s of its front bucket re-insert what they hold. -/
theorem mem_bucket_rotate (hi : i < w.queueNum) :
    q ∈ (w.rotate i).bucket j r ↔
      q ∈ w.bucket j (if j = i then r + 1 else r) ∨
        ∃ delay t, .callbackEntry delay j t q ∈ w.bucket i 0 ∧ 0 < delay ∧
          r = callbackSlot w.bucketsNumPerQueue delay t ∧ j < w.queueNum := by
  rw [rotate, mem_bucket_foldl_destruct, queueNum_modifyQueue, bucket_modifyQueue _ _ _ _ hi]
  refine or_congr_left ?_
  by_cases hji : j = i
  · subst hji
    have hlen := length_getD hi
    rw [if_pos rfl, if_pos rfl, bucket]
    generalize w.taskQueues.getD j [] = queue at hlen
    rw [List.getD_eq_getElem?_getD, List.getD_eq_getElem?_getD, List.getElem?_append]
    split
    case isTrue hr => rw [List.getElem?_tail]
    case isFalse hr =>
      -- past the old queue there is only the new, empty bucket
      rw [List.length_tail] at hr
      rw [List.getElem?_eq_none (show queue.length ≤ r + 1 by omega), List.getElem?_singleton]
      split <;> rfl
  · rw [if_neg hji, if_neg hji]

end Insert

/-! ## The place of an entry -/

/-- The only reference to `e` is `p`, in bucket `r` of queue `j`. -/
def Sole (w : TimingWheel E) (e : E) (j r : Nat) (p : EntryPtr E) : Prop :=
  ∀ j' r' q, (q ∈ w.bucket j' r' ∧ q.target = e) ↔ (j' = j ∧ r' = r ∧ q = p)

/-- The wheel has no reference to `e`. -/
def Absent (w : TimingWheel E) (e : E) : Prop := ∀ j r q, q ∈ w.bucket j r → q.target ≠ e

theorem Sole.mem (h : w.Sole e j r p) : p ∈ w.bucket j r := ((h j r p).mpr ⟨rfl, rfl, rfl⟩).1

theorem Sole.target_eq (h : w.Sole e j r p) : p.target = e := ((h j r p).mpr ⟨rfl, rfl, rfl⟩).2

theorem Sole.holds (h : w.Sole e j r p) : w.Holds e := holds_iff.mpr ⟨j, r, p, h.mem, h.target_eq⟩

theorem Absent.not_holds (h : w.Absent e) : ¬ w.Holds e := by
  rw [holds_iff]
  rintro ⟨j, r, p, hp, hpe⟩
  exact h j r p hp hpe

section Moves

variable [DecidableEq E] {k : Nat}

theorem Sole.insertAt (h : w.Sole e j r p) (hq : q.target ≠ e) (i slot : Nat) :
    (w.insertAt i slot q).Sole e j r p := by
  intro j' r' q'
  rw [mem_bucket_insertAt, ← h j' r' q']
  constructor
  · rintro ⟨hmem | ⟨rfl, -⟩, htarget⟩
    · exact ⟨hmem, htarget⟩
    · exact absurd htarget hq
  · rintro ⟨hmem, htarget⟩
    exact ⟨Or.inl hmem, htarget⟩

theorem Absent.insertAt (h : w.Absent e) (hq : q.target ≠ e) (i slot : Nat) :
    (w.insertAt i slot q).Absent e := by
  intro j r q' hmem
  rcases mem_bucket_insertAt.mp hmem with hmem | ⟨rfl, -⟩
  · exact h j r q' hmem
  · exact hq

theorem Absent.sole_insertAt (h : w.Absent e) (hp : p.target = e) (hi : i < w.queueNum)
    (hslot : slot < w.bucketsNumPerQueue) : (w.insertAt i slot p).Sole e i slot p := by
  intro j r q
  rw [mem_bucket_insertAt]
  constructor
  · rintro ⟨hmem | ⟨rfl, rfl, rfl, -⟩, htarget⟩
    · exact absurd htarget (h j r q hmem)
    · exact ⟨rfl, rfl, rfl⟩
  · rintro ⟨rfl, rfl, rfl⟩
    exact ⟨Or.inr ⟨rfl, rfl, rfl, hi, hslot⟩, hp⟩

theorem Absent.rotate (h : w.Absent e) (hk : k < w.queueNum) : (w.rotate k).Absent e := by
  intro j r q hmem
  rcases (mem_bucket_rotate hk).mp hmem with hmem | ⟨delay, t, hmem, -⟩
  · exact h _ _ _ hmem
  · exact h k 0 (.callbackEntry delay j t q) hmem

/-- Every rotation leaves an entry alone that is not in the front bucket
of that queue, except that its own queue moves up. -/
theorem Sole.rotate (h : w.Sole e j r p) (hk : k < w.queueNum)
    (hr : j = k → r ≠ 0) : (w.rotate k).Sole e j (if j = k then r - 1 else r) p := by
  intro j' r' q
  rw [mem_bucket_rotate hk]
  constructor
  · rintro ⟨hmem | ⟨delay, t, hmem, -⟩, htarget⟩
    · obtain ⟨rfl, hr', rfl⟩ := (h _ _ _).mp ⟨hmem, htarget⟩
      refine ⟨rfl, ?_, rfl⟩
      split_ifs at hr' ⊢ <;> omega
    · obtain ⟨rfl, rfl, -⟩ := (h k 0 _).mp ⟨hmem, htarget⟩
      exact absurd rfl (hr rfl)
  · rintro ⟨rfl, rfl, rfl⟩
    refine ⟨Or.inl ?_, h.target_eq⟩
    have hback : (if j' = k then (if j' = k then r - 1 else r) + 1
        else if j' = k then r - 1 else r) = r := by
      split_ifs with hjk
      · have := hr hjk
        omega
      · rfl
    rw [hback]
    exact h.mem

theorem Sole.rotate_entry (h : w.Sole e j 0 (.entry e)) : (w.rotate j).Absent e := by
  have hj := (lt_of_mem_bucket h.mem).1
  intro j' r' q hmem htarget
  rcases (mem_bucket_rotate hj).mp hmem with hmem | ⟨delay, t, hmem, -⟩
  · obtain ⟨rfl, hr, -⟩ := (h _ _ _).mp ⟨hmem, htarget⟩
    simp at hr
  · obtain ⟨-, -, heq⟩ := (h j 0 _).mp ⟨hmem, htarget⟩
    cases heq

theorem Sole.rotate_callbackEntry {delay t : Nat}
    (h : w.Sole e j 0 (.callbackEntry delay i t p)) (hd : 0 < delay) (hi : i < w.queueNum) :
    (w.rotate j).Sole e i (callbackSlot w.bucketsNumPerQueue delay t) p := by
  have hj := (lt_of_mem_bucket h.mem).1
  intro j' r' q
  rw [mem_bucket_rotate hj]
  constructor
  · rintro ⟨hmem | ⟨delay', t', hmem, -, hr, -⟩, htarget⟩
    · obtain ⟨rfl, hr, -⟩ := (h _ _ _).mp ⟨hmem, htarget⟩
      simp at hr
    · obtain ⟨-, -, heq⟩ := (h j 0 _).mp ⟨hmem, htarget⟩
      cases heq
      exact ⟨rfl, hr, rfl⟩
  · rintro ⟨rfl, rfl, rfl⟩
    exact ⟨Or.inr ⟨delay, t, h.mem, hd, rfl, hi⟩, h.target_eq⟩

/-! ## A tick -/

theorem tickLoop_frame (t rem i pow : Nat) (w : TimingWheel E) :
    (tickLoop t rem i pow w).bucketsNumPerQueue = w.bucketsNumPerQueue ∧
      (tickLoop t rem i pow w).ticksCounter = w.ticksCounter ∧
      (tickLoop t rem i pow w).queueNum = w.queueNum := by
  induction rem generalizing i pow w with
  | zero => exact ⟨rfl, rfl, rfl⟩
  | succ rem ih =>
      obtain ⟨hB, hT, hQ⟩ := ih (i + 1) (pow * w.bucketsNumPerQueue)
        (if t % pow = 0 then w.rotate i else w)
      rw [tickLoop, hB, hT, hQ]
      split
      · exact ⟨bucketsNumPerQueue_rotate, ticksCounter_rotate, queueNum_rotate⟩
      · exact ⟨rfl, rfl, rfl⟩

@[simp] theorem bucketsNumPerQueue_tick : w.tick.bucketsNumPerQueue = w.bucketsNumPerQueue :=
  (tickLoop_frame ..).1

@[simp] theorem ticksCounter_tick : w.tick.ticksCounter = w.ticksCounter + 1 :=
  (tickLoop_frame ..).2.1

@[simp] theorem queueNum_tick : w.tick.queueNum = w.queueNum := (tickLoop_frame ..).2.2

theorem tickLoop_add (t a b i pow : Nat) (w : TimingWheel E) :
    tickLoop t (a + b) i pow w =
      tickLoop t b (i + a) (pow * w.bucketsNumPerQueue ^ a) (tickLoop t a i pow w) := by
  induction a generalizing i pow w with
  | zero => simp [tickLoop]
  | succ a ih =>
      have hB : (if t % pow = 0 then w.rotate i else w).bucketsNumPerQueue =
          w.bucketsNumPerQueue := by
        split
        · exact bucketsNumPerQueue_rotate
        · rfl
      rw [Nat.succ_add, tickLoop, tickLoop, ih, hB, Nat.pow_succ']
      congr 1
      · omega
      · exact Nat.mul_assoc ..

theorem Absent.tickLoop (h : w.Absent e) (t rem i pow : Nat) (hi : i + rem ≤ w.queueNum) :
    (tickLoop t rem i pow w).Absent e := by
  induction rem generalizing i pow w with
  | zero => exact h
  | succ rem ih =>
      rw [TimingWheel.tickLoop]
      split
      · exact ih (h.rotate (by omega)) _ _ (by rw [queueNum_rotate]; omega)
      · exact ih h _ _ (by omega)

theorem Sole.tickLoop (h : w.Sole e j r p) (t rem i pow : Nat) (hi : i + rem ≤ w.queueNum)
    (hj : j < i ∨ i + rem ≤ j) : (tickLoop t rem i pow w).Sole e j r p := by
  induction rem generalizing i pow w with
  | zero => exact h
  | succ rem ih =>
      have hne : j ≠ i := by omega
      rw [TimingWheel.tickLoop]
      split
      · have hrot := h.rotate (k := i) (by omega) (fun hji => absurd hji hne)
        rw [if_neg hne] at hrot
        exact ih hrot _ _ (by rw [queueNum_rotate]; omega) (by omega)
      · exact ih h _ _ (by omega) (by omega)

/-- The wheel in the middle of a tick, before queue `j` is visited. -/
def midTick (w : TimingWheel E) (j : Nat) : TimingWheel E :=
  TimingWheel.tickLoop (w.ticksCounter + 1) j 0 1 { w with ticksCounter := w.ticksCounter + 1 }

@[simp] theorem bucketsNumPerQueue_midTick :
    (w.midTick j).bucketsNumPerQueue = w.bucketsNumPerQueue := (tickLoop_frame ..).1

@[simp] theorem queueNum_midTick : (w.midTick j).queueNum = w.queueNum := (tickLoop_frame ..).2.2

theorem Sole.midTick (h : w.Sole e j r p) : (w.midTick j).Sole e j r p := by
  have hj := (lt_of_mem_bucket h.mem).1
  let w₀ : TimingWheel E := { w with ticksCounter := w.ticksCounter + 1 }
  have h₀ : w₀.Sole e j r p := h
  exact h₀.tickLoop _ _ _ _ (by rw [Nat.zero_add]; exact hj.le) (Or.inr (by omega))

theorem tick_eq (hj : j < w.queueNum) :
    w.tick = TimingWheel.tickLoop (w.ticksCounter + 1) (w.queueNum - (j + 1)) (j + 1)
      (w.bucketsNumPerQueue ^ j * w.bucketsNumPerQueue)
      (if (w.ticksCounter + 1) % w.bucketsNumPerQueue ^ j = 0 then (w.midTick j).rotate j
        else w.midTick j) := by
  have hsum : w.queueNum = j + ((w.queueNum - (j + 1)) + 1) := by omega
  rw [tick]
  conv_lhs => rw [hsum]
  rw [tickLoop_add, TimingWheel.tickLoop, Nat.zero_add, Nat.one_mul, ← midTick,
    bucketsNumPerQueue_midTick]

end Moves

end TimingWheel

/-! ## The tick of the release -/

/-- The tick at which the pointers of bucket `r` of queue `j` are dropped,
when the counter is at `t`: queue `j` rotates at the multiples of `B ^ j`. -/
def dropTick (B t j r : Nat) : Nat := (t / B ^ j + r + 1) * B ^ j

/-- A pointer for queue `j`: every `CallbackEntry` in it re-inserts into
the queue below its own. -/
def EntryPtr.Nested {E : Type} : EntryPtr E → Nat → Prop
  | .entry _, _ => True
  | .callbackEntry delay i _ p, j => 0 < delay ∧ i + 1 = j ∧ p.Nested i

/-- The tick at which the entry behind a pointer is released, when the
pointer itself is dropped at tick `P`. -/
def EntryPtr.due {E : Type} (B : Nat) : EntryPtr E → Nat → Nat
  | .entry _, P => P
  | .callbackEntry delay i t p, P => p.due B (dropTick B P i (TimingWheel.callbackSlot B delay t))

section DropTick

variable {B : Nat}

theorem lt_dropTick (hB : 0 < B) (t j r : Nat) : t < dropTick B t j r := by
  have hpos : 0 < B ^ j := Nat.pow_pos hB
  calc t < (t / B ^ j + 1) * B ^ j := (Nat.div_lt_iff_lt_mul hpos).mp (Nat.lt_succ_self _)
    _ ≤ dropTick B t j r := Nat.mul_le_mul_right _ (by omega)

theorem EntryPtr.le_due {E : Type} (hB : 0 < B) (p : EntryPtr E) (P : Nat) : P ≤ p.due B P := by
  induction p generalizing P with
  | entry => exact le_rfl
  | callbackEntry delay i t p ih => exact (lt_dropTick hB P i _).le.trans (ih _)

theorem dropTick_succ_of_mod_ne {t j : Nat} (h : (t + 1) % B ^ j ≠ 0) (r : Nat) :
    dropTick B (t + 1) j r = dropTick B t j r := by
  have hdvd : ¬ B ^ j ∣ t + 1 := fun hd => h (Nat.mod_eq_zero_of_dvd hd)
  rw [dropTick, Nat.succ_div, if_neg hdvd]
  rfl

theorem dropTick_succ_of_mod_eq {t j : Nat} (h : (t + 1) % B ^ j = 0) (r : Nat) :
    dropTick B (t + 1) j r = dropTick B t j (r + 1) := by
  rw [dropTick, dropTick, Nat.succ_div, if_pos (Nat.dvd_of_mod_eq_zero h)]
  congr 1
  omega

theorem dropTick_zero {t j : Nat} (h : (t + 1) % B ^ j = 0) : dropTick B t j 0 = t + 1 := by
  have hdvd := Nat.dvd_of_mod_eq_zero h
  have hdiv : (t + 1) / B ^ j = t / B ^ j + 1 := by rw [Nat.succ_div, if_pos hdvd]
  rw [dropTick, Nat.add_zero, ← hdiv, Nat.div_mul_cancel hdvd]

end DropTick

namespace TimingWheel

variable {E : Type} {w : TimingWheel E} {e : E} {R : Nat}

/-- The wheel holds `e` once, and will release it at tick `R`. -/
def Waits (w : TimingWheel E) (e : E) (R : Nat) : Prop :=
  ∃ j r p, w.Sole e j r p ∧ p.Nested j ∧
    p.due w.bucketsNumPerQueue (dropTick w.bucketsNumPerQueue w.ticksCounter j r) = R

/-- Release at tick `R`: the wheel holds `e` until then and not after. -/
def Fate (w : TimingWheel E) (e : E) (R : Nat) : Prop :=
  w.Waits e R ∨ (R ≤ w.ticksCounter ∧ w.Absent e)

theorem Waits.lt (h : w.Waits e R) : w.ticksCounter < R := by
  obtain ⟨j, r, p, -, -, rfl⟩ := h
  have hB : 0 < w.bucketsNumPerQueue := by have := w.one_lt_buckets; omega
  exact (lt_dropTick hB _ j r).trans_le (p.le_due hB _)

theorem Fate.holds_iff (h : w.Fate e R) : w.Holds e ↔ w.ticksCounter < R := by
  rcases h with h | ⟨hR, h⟩
  · obtain ⟨j, r, p, hsole, -⟩ := id h
    exact iff_of_true hsole.holds h.lt
  · exact iff_of_false h.not_holds (by omega)

section Tick

variable [DecidableEq E]

/-- One tick: queue `j` does not rotate, or moves up, or drops the bucket
of `e`. -/
theorem Waits.tick (h : w.Waits e R) :
    w.tick.Waits e R ∨ (R = w.ticksCounter + 1 ∧ w.tick.Absent e) := by
  obtain ⟨j, r, p, hsole, hnest, hdue⟩ := h
  have hj := (lt_of_mem_bucket hsole.mem).1
  have hrest : j + 1 + (w.queueNum - (j + 1)) ≤ w.queueNum := by omega
  by_cases hmod : (w.ticksCounter + 1) % w.bucketsNumPerQueue ^ j = 0
  case neg =>
    have htick := tick_eq hj
    rw [if_neg hmod] at htick
    refine Or.inl ⟨j, r, p, ?_, hnest, ?_⟩
    · rw [htick]
      exact hsole.midTick.tickLoop _ _ _ _ (by rw [queueNum_midTick]; exact hrest)
        (Or.inl (by omega))
    · rw [bucketsNumPerQueue_tick, ticksCounter_tick, dropTick_succ_of_mod_ne hmod, hdue]
  case pos =>
    have htick := tick_eq hj
    rw [if_pos hmod] at htick
    have hrest' : j + 1 + (w.queueNum - (j + 1)) ≤ ((w.midTick j).rotate j).queueNum := by
      rw [queueNum_rotate, queueNum_midTick]
      exact hrest
    cases r with
    | succ r =>
        have hrot := hsole.midTick.rotate (k := j) (by rwa [queueNum_midTick]) (fun _ => by omega)
        rw [if_pos rfl, Nat.add_sub_cancel] at hrot
        refine Or.inl ⟨j, r, p, ?_, hnest, ?_⟩
        · rw [htick]
          exact hrot.tickLoop _ _ _ _ hrest' (Or.inl (by omega))
        · rw [bucketsNumPerQueue_tick, ticksCounter_tick, dropTick_succ_of_mod_eq hmod, hdue]
    | zero =>
        rw [dropTick_zero hmod] at hdue
        cases p with
        | entry e' =>
            obtain rfl : e' = e := hsole.target_eq
            refine Or.inr ⟨hdue.symm, ?_⟩
            rw [htick]
            exact hsole.midTick.rotate_entry.tickLoop _ _ _ _ hrest'
        | callbackEntry delay i t p =>
            obtain ⟨hd, rfl, hnest⟩ := hnest
            have hrot := hsole.midTick.rotate_callbackEntry hd
              (by rw [queueNum_midTick]; omega)
            rw [bucketsNumPerQueue_midTick] at hrot
            refine Or.inl ⟨i, callbackSlot w.bucketsNumPerQueue delay t, p, ?_, hnest, ?_⟩
            · rw [htick]
              exact hrot.tickLoop _ _ _ _ hrest' (Or.inl (by omega))
            · rw [bucketsNumPerQueue_tick, ticksCounter_tick]
              exact hdue

theorem Absent.tick (h : w.Absent e) : w.tick.Absent e := by
  let w₀ : TimingWheel E := { w with ticksCounter := w.ticksCounter + 1 }
  have h₀ : w₀.Absent e := h
  exact h₀.tickLoop _ _ _ _ (by rw [Nat.zero_add]; exact le_rfl)

theorem Fate.tick (h : w.Fate e R) : w.tick.Fate e R := by
  rcases h with h | ⟨hR, h⟩
  · rcases h.tick with h' | ⟨rfl, h'⟩
    · exact Or.inl h'
    · exact Or.inr ⟨ticksCounter_tick.ge, h'⟩
  · exact Or.inr ⟨by rw [ticksCounter_tick]; omega, h.tick⟩

end Tick

/-! ## An insertion -/

section Inserting

variable [DecidableEq E]

theorem insertLoop_cases (w : TimingWheel E) (rem i delay t : Nat) (p : EntryPtr E) :
    w.insertLoop rem i delay t p = w ∨
      ∃ j slot q, q.target = p.target ∧ w.insertLoop rem i delay t p = w.insertAt j slot q := by
  induction rem generalizing i delay t p with
  | zero => exact Or.inl rfl
  | succ rem ih =>
      rw [insertLoop]
      split_ifs
      · exact Or.inr ⟨_, _, p, rfl, rfl⟩
      · exact ih ..
      · exact Or.inr ⟨_, _, p, rfl, rfl⟩

theorem insertEntry_cases (w : TimingWheel E) (delay : Nat) (e : E) :
    w.insertEntry delay e = w ∨
      ∃ j slot q, q.target = e ∧ w.insertEntry delay e = w.insertAt j slot q := by
  rw [insertEntry]
  split
  · exact Or.inl rfl
  · exact insertLoop_cases ..

theorem Fate.insertEntry (h : w.Fate e R) {e' : E} (he : e' ≠ e) (delay : Nat) :
    (w.insertEntry delay e').Fate e R := by
  rcases insertEntry_cases w delay e' with heq | ⟨i, slot, q, rfl, heq⟩
  · rw [heq]
    exact h
  · rw [heq]
    rcases h with ⟨j, r, p, hsole, hnest, hdue⟩ | ⟨hR, h⟩
    · exact Or.inl ⟨j, r, p, hsole.insertAt he i slot, hnest, hdue⟩
    · exact Or.inr ⟨hR, h.insertAt he i slot⟩

theorem Absent.exec (h : w.Absent e) {a : WheelAct E} (ha : ¬ a.Inserts e) :
    (w.exec a).Absent e := by
  cases a with
  | tick => exact h.tick
  | insertEntry delay e' =>
      rw [TimingWheel.exec]
      rcases insertEntry_cases w delay e' with heq | ⟨i, slot, q, rfl, heq⟩
      · rw [heq]
        exact h
      · rw [heq]
        exact h.insertAt ha i slot

theorem Fate.exec (h : w.Fate e R) {a : WheelAct E} (ha : ¬ a.Inserts e) :
    (w.exec a).Fate e R := by
  cases a with
  | tick => exact h.tick
  | insertEntry delay e' => exact h.insertEntry ha delay

theorem exec_frame (w : TimingWheel E) (a : WheelAct E) :
    (w.exec a).bucketsNumPerQueue = w.bucketsNumPerQueue ∧
      (w.exec a).queueNum = w.queueNum := by
  cases a with
  | tick => exact ⟨bucketsNumPerQueue_tick, queueNum_tick⟩
  | insertEntry delay e =>
      rcases insertEntry_cases w delay e with heq | ⟨i, slot, q, -, heq⟩
      · rw [exec, heq]
        exact ⟨rfl, rfl⟩
      · rw [exec, heq]
        exact ⟨rfl, queueNum_insertAt⟩

/-- A round that wraps is not the last one, and its sums do not overflow. -/
theorem wrap_sums {B rem delay : Nat} (hB : 1 < B) (hlt : B < delay)
    (hfit : delay ≤ B ^ (rem + 1)) (hroom : delay + B ≤ sizeMod) (t : Nat) :
    0 < rem ∧ addSz delay (t % B) = delay + t % B ∧
      subSz (addSz delay (t % B)) 1 = delay + t % B - 1 := by
  have hmod : t % B < B := Nat.mod_lt t (by omega)
  have hsum : addSz delay (t % B) = delay + t % B := addSz_eq (by omega)
  refine ⟨?_, hsum, hsum ▸ subSz_eq (by omega) (by omega)⟩
  rcases Nat.eq_zero_or_pos rem with rfl | hrem
  · rw [Nat.zero_add, Nat.pow_one] at hfit
    omega
  · exact hrem

/-- Where the loop of an insertion puts the pointer, and when its entry is
due from there. -/
theorem insertLoop_lands (w : TimingWheel E) {B rem i delay t : Nat} {p : EntryPtr E}
    (hB : w.bucketsNumPerQueue = B) (hrem : i + rem = w.queueNum) (hrem0 : 0 < rem)
    (hpos : 0 < delay) (hfit : delay ≤ B ^ rem) (hsize : delay < sizeMod)
    (hwrap : B < delay → delay + B ≤ sizeMod) (hnest : p.Nested i) :
    ∃ j r q, w.insertLoop rem i delay t p = w.insertAt j r q ∧ i ≤ j ∧ j < w.queueNum ∧
      r < B ∧ q.target = p.target ∧ q.Nested j ∧
      q.due B ((t / B ^ (j - i) + r + 1) * B ^ j) =
        p.due B (cascade B (level B rem t delay) (t + delay) * B ^ i) := by
  have hB1 : 1 < B := hB ▸ w.one_lt_buckets
  induction rem generalizing i delay t p with
  | zero => omega
  | succ rem ih =>
      rw [insertLoop, hB]
      by_cases hround : delay ≤ B
      · have hslot : subSz delay 1 = delay - 1 := subSz_eq (by omega) hsize
        refine ⟨i, delay - 1, p, ?_, le_rfl, by omega, by omega, rfl, hnest, ?_⟩
        · rw [if_pos hround, hslot]
        · rw [level, if_pos hround, cascade, Nat.sub_self, Nat.pow_zero, Nat.div_one,
            Nat.add_assoc, Nat.sub_add_cancel hpos]
      · have hlt : B < delay := by omega
        have hroom := hwrap hlt
        obtain ⟨hrem', hsum, hdelay⟩ := wrap_sums hB1 hlt hfit hroom t
        have hlast : i < w.queueNum - 1 := by omega
        have hless := coarsen_lt hB1 hlt t
        obtain ⟨j, r, q, heq, hij, hj, hr, htarget, hq, hdue⟩ :=
          ih (i := i + 1) (t := t / B) (p := .callbackEntry delay i t p) (by omega) hrem'
            (coarsen_pos (by omega) hlt t) (coarsen_le (by omega) hfit t) (by omega)
            (fun _ => by omega) ⟨hpos, rfl, hnest⟩
        refine ⟨j, r, q, ?_, by omega, hj, hr, htarget, hq, ?_⟩
        · rw [if_neg hround, if_pos hlast, hdelay, heq]
        · -- one more level: the aim of the coarser queue, then the digit of this one
          have hexp : j - i = j - (i + 1) + 1 := by omega
          have hdiv : t / B ^ (j - i) = t / B / B ^ (j - (i + 1)) := by
            rw [hexp, Nat.pow_succ', Nat.div_div_eq_div_mul]
          have hslot : callbackSlot B delay t = (t + delay) % B := by
            rw [callbackSlot, hsum, Nat.add_mod_mod, Nat.add_comm]
          rw [hdiv, hdue, EntryPtr.due, dropTick, hslot, coarsen_aim (by omega) t hpos, level,
            if_neg hround, cascade, Nat.pow_succ', ← Nat.mul_assoc,
            Nat.mul_div_cancel _ (Nat.pow_pos (by omega))]

/-! ## Sizing -/

theorem le_pow_sizingLoop {B : Nat} (hB : 1 < B) {m fuel n : Nat} (hfuel : m ≤ fuel + B ^ n) :
    m ≤ B ^ sizingLoop B m fuel n (B ^ n) := by
  induction fuel generalizing n with
  | zero => simpa [sizingLoop] using hfuel
  | succ fuel ih =>
      rw [sizingLoop]
      split
      case isTrue hlt =>
        rw [← Nat.pow_succ]
        have hgrow : B ^ n < B ^ (n + 1) := Nat.pow_lt_pow_right hB (Nat.lt_succ_self n)
        exact ih (by omega)
      case isFalse hle => omega

theorem sizingLoop_pos {B m fuel n : Nat} (hn : 0 < n) (ticksNum : Nat) :
    0 < sizingLoop B m fuel n ticksNum := by
  induction fuel generalizing n ticksNum with
  | zero => exact hn
  | succ fuel ih =>
      rw [sizingLoop]
      split
      · exact ih (Nat.succ_pos n) _
      · exact hn

/-- The wheel has as many queues as its longest timeout needs. -/
theorem toFloat_le_pow_sizing {B : Nat} (hB : 1 < B) (maxTimeout : Nat) :
    toFloat maxTimeout ≤ B ^ sizing maxTimeout B := by
  have h : toFloat maxTimeout ≤
      B ^ sizingLoop B (toFloat maxTimeout) (toFloat maxTimeout) 1 (B ^ 1) :=
    le_pow_sizingLoop hB (Nat.le_add_right ..)
  rwa [Nat.pow_one] at h

theorem rotations_eq (delay : Nat) : rotations delay = toFloat delay := by
  rw [rotations, Nat.mod_one, if_pos rfl, Nat.add_zero]

/-- No sum of an insertion wraps: a `float` below `2 ^ 64` is `2 ^ 40` away
from it, and a wheel with two queues or more has fewer buckets than that. -/
theorem toFloat_add_le {B Q d : Nat} (hB : 1 < B) (hfit : B ^ Q < sizeMod)
    (hd : toFloat d ≤ B ^ Q) (hlt : B < toFloat d) : toFloat d + B ≤ sizeMod := by
  have hQ : 2 ≤ Q := by
    by_contra hQ
    have hle : B ^ Q ≤ B ^ 1 := Nat.pow_le_pow_right (by omega) (by omega)
    rw [Nat.pow_one] at hle
    omega
  have hsmall : B < 2 ^ 32 := by
    by_contra hbig
    have hsquare : (2 ^ 32) ^ 2 ≤ B ^ 2 := Nat.pow_le_pow_left (by omega) 2
    have hle : B ^ 2 ≤ B ^ Q := Nat.pow_le_pow_right (by omega) hQ
    have hmod : sizeMod = (2 ^ 32) ^ 2 := by decide
    omega
  have hgap : toFloat d + 2 ^ 40 ≤ 2 ^ (24 + 40) :=
    roundBits_add_le (by omega) (lt_of_le_of_lt hd hfit)
  have hmod : sizeMod = 2 ^ (24 + 40) := rfl
  omega

/-- The release tick of an entry, read off at its insertion. -/
theorem Absent.waits_insertEntryInLoop {B maxTimeout d : Nat} (h : w.Absent e)
    (hB : w.bucketsNumPerQueue = B) (hQ : w.queueNum = sizing maxTimeout B)
    (hfit : B ^ sizing maxTimeout B < sizeMod) (hd1 : 1 ≤ d) (hd : d ≤ maxTimeout) :
    (w.insertEntryInLoop d e).Waits e
      (cascade B (level B (sizing maxTimeout B) w.ticksCounter (toFloat d))
        (w.ticksCounter + toFloat d)) := by
  have hB1 : 1 < B := hB ▸ w.one_lt_buckets
  have hle : toFloat d ≤ B ^ sizing maxTimeout B :=
    (roundBits_mono (by omega) hd).trans (toFloat_le_pow_sizing hB1 maxTimeout)
  obtain ⟨j, r, q, heq, -, hj, hr, htarget, hnest, hdue⟩ :=
    w.insertLoop_lands (i := 0) (t := w.ticksCounter) (p := .entry e) hB
      ((Nat.zero_add _).trans hQ.symm) (sizingLoop_pos (by omega) _)
      (roundBits_pos (p := 24) (by omega) hd1) hle (lt_of_le_of_lt hle hfit)
      (toFloat_add_le hB1 hfit hle) trivial
  have heq' : w.insertEntryInLoop d e = w.insertAt j r q := by
    rw [insertEntryInLoop, rotations_eq, hQ]
    exact heq
  rw [heq']
  refine ⟨j, r, q, h.sole_insertAt htarget hj (hB.symm ▸ hr), hnest, ?_⟩
  rw [bucketsNumPerQueue_insertAt, ticksCounter_insertAt, hB, dropTick]
  rw [Nat.sub_zero, Nat.pow_zero, Nat.mul_one] at hdue
  exact hdue

end Inserting

/-! ## Release in time -/

theorem not_inserts_ticks (e : E) (n : Nat) :
    ∀ a ∈ List.replicate n (WheelAct.tick : WheelAct E), ¬ a.Inserts e := by
  intro a ha
  rw [List.eq_of_mem_replicate ha]
  exact id

section InTime

variable [DecidableEq E]

/-- `e`, inserted into `w` with delay `d`, is released not before tick
`T + d` and not after tick `T + d + 1`, whatever else is inserted. -/
def InTime (w : TimingWheel E) (d : Nat) (e : E) : Prop :=
  ∀ ls w', (∀ a ∈ ls, ¬ a.Inserts e) → Run WheelStep (w.insertEntryInLoop d e) ls w' →
    (w'.ticksCounter < w.ticksCounter + d → w'.Holds e) ∧
      (w.ticksCounter + d + 1 ≤ w'.ticksCounter → ¬ w'.Holds e)

/-- The distance of the release from tick `T + d` in a wheel of `Q` queues:
the error of the `float`, and the drift of the cascade. -/
def slip (B Q T d : Nat) : Int :=
  ((toFloat d : Int) - d) + drift B (level B Q T (toFloat d)) (T + toFloat d)

theorem slip_iff_aligned {B Q T d : Nat} (hB : 1 < B) (hd : d < 2 ^ 24) :
    (0 ≤ slip B Q T d ∧ slip B Q T d ≤ 1) ↔ Aligned B (level B Q T d) (T + d) := by
  have hexact : toFloat d = d := roundBits_eq_self hd
  rw [slip, hexact, sub_self, zero_add, drift_iff_aligned hB]

theorem run_ticks (w : TimingWheel E) (n : Nat) :
    Run WheelStep w (List.replicate n .tick) (TimingWheel.tick^[n] w) := by
  induction n generalizing w with
  | zero => exact .nil w
  | succ n ih => exact .cons rfl (ih w.tick)

theorem ticksCounter_ticks (w : TimingWheel E) (n : Nat) :
    (TimingWheel.tick^[n] w).ticksCounter = w.ticksCounter + n := by
  induction n generalizing w with
  | zero => rfl
  | succ n ih =>
      rw [Function.iterate_succ_apply, ih, ticksCounter_tick]
      omega

theorem Fate.run {w' : TimingWheel E} {ls : List (WheelAct E)} (h : w.Fate e R)
    (hls : ∀ a ∈ ls, ¬ a.Inserts e) (hrun : Run WheelStep w ls w') : w'.Fate e R :=
  hrun.invariant_of_labels (I := fun w => w.Fate e R) (P := fun a => ¬ a.Inserts e)
    (fun _ _ _ ha hs heq => heq ▸ Fate.exec hs ha) hls h

theorem ticksCounter_insertEntryInLoop (w : TimingWheel E) (d : Nat) (e : E) :
    (w.insertEntryInLoop d e).ticksCounter = w.ticksCounter := by
  rcases insertLoop_cases w w.queueNum 0 (rotations d) w.ticksCounter (.entry e) with
    heq | ⟨i, slot, q, -, heq⟩
  · rw [insertEntryInLoop, heq]
  · rw [insertEntryInLoop, heq, ticksCounter_insertAt]

theorem inTime_iff_of_waits {d : Nat} (h : (w.insertEntryInLoop d e).Waits e R) :
    w.InTime d e ↔ w.ticksCounter + d ≤ R ∧ R ≤ w.ticksCounter + d + 1 := by
  have hR := h.lt
  rw [ticksCounter_insertEntryInLoop] at hR
  have hheld : ∀ ls w', (∀ a ∈ ls, ¬ a.Inserts e) →
      Run WheelStep (w.insertEntryInLoop d e) ls w' → (w'.Holds e ↔ w'.ticksCounter < R) :=
    fun ls w' hls hrun => (Fate.run (Or.inl h) hls hrun).holds_iff
  -- the wheel ticks on by itself: every counter value is reached
  have hreach : ∀ T, w.ticksCounter ≤ T →
      (TimingWheel.tick^[T - w.ticksCounter] (w.insertEntryInLoop d e)).ticksCounter = T := by
    intro T hT
    rw [ticksCounter_ticks, ticksCounter_insertEntryInLoop]
    omega
  constructor
  · intro htime
    constructor
    · by_contra hearly
      have hrun := run_ticks (w.insertEntryInLoop d e) (R - w.ticksCounter)
      have hlt := (hheld _ _ (not_inserts_ticks e _) hrun).mp
        ((htime _ _ (not_inserts_ticks e _) hrun).1 (by rw [hreach R hR.le]; omega))
      rw [hreach R hR.le] at hlt
      omega
    · by_contra hlate
      have hT := hreach (w.ticksCounter + d + 1) (by omega)
      have hrun := run_ticks (w.insertEntryInLoop d e)
        (w.ticksCounter + d + 1 - w.ticksCounter)
      have hgone := (htime _ _ (not_inserts_ticks e _) hrun).2 hT.ge
      rw [hheld _ _ (not_inserts_ticks e _) hrun, hT] at hgone
      omega
  · rintro ⟨hlo, hhi⟩ ls w' hls hrun
    rw [hheld ls w' hls hrun]
    omega

theorem frame_of_run {maxTimeout B : Nat} {hB : 1 < B} {ls : List (WheelAct E)}
    (hrun : Run WheelStep (new E maxTimeout B hB) ls w) :
    w.bucketsNumPerQueue = B ∧ w.queueNum = sizing maxTimeout B := by
  refine hrun.invariant (I := fun w => w.bucketsNumPerQueue = B ∧
    w.queueNum = sizing maxTimeout B) ?_ ⟨rfl, List.length_replicate⟩
  rintro w a w' ⟨h1, h2⟩ rfl
  obtain ⟨hB', hQ'⟩ := exec_frame w a
  exact ⟨hB'.trans h1, hQ'.trans h2⟩

theorem absent_of_run {maxTimeout B : Nat} {hB : 1 < B} {ls : List (WheelAct E)}
    (hrun : Run WheelStep (new E maxTimeout B hB) ls w) (hls : ∀ a ∈ ls, ¬ a.Inserts e) :
    w.Absent e := by
  refine hrun.invariant_of_labels (I := fun w => w.Absent e) (P := fun a => ¬ a.Inserts e)
    (fun _ _ _ ha hs heq => heq ▸ Absent.exec hs ha) hls ?_
  intro j r q hq
  rw [bucket_new] at hq
  cases hq

/-- A wheel releases an entry in time exactly when the error of the
`float` and the drift of the cascade add up to zero or one. -/
theorem inTime_iff {maxTimeout B d : Nat} {hB : 1 < B} {ls : List (WheelAct E)}
    (hfit : B ^ sizing maxTimeout B < sizeMod)
    (hrun : Run WheelStep (new E maxTimeout B hB) ls w) (hls : ∀ a ∈ ls, ¬ a.Inserts e)
    (hd1 : 1 ≤ d) (hd : d ≤ maxTimeout) :
    w.InTime d e ↔ 0 ≤ slip B (sizing maxTimeout B) w.ticksCounter d ∧
      slip B (sizing maxTimeout B) w.ticksCounter d ≤ 1 := by
  obtain ⟨hB', hQ⟩ := frame_of_run hrun
  have hpos : 0 < toFloat d := roundBits_pos (by omega) hd1
  have hwaits := (absent_of_run hrun hls).waits_insertEntryInLoop hB' hQ hfit hd1 hd
  have hR := cascade_level (show 0 < B by omega) (sizing maxTimeout B) (t := w.ticksCounter) hpos
  rw [inTime_iff_of_waits hwaits, slip]
  generalize cascade B _ _ = R at hR
  push_cast at hR
  omega

theorem inTime_three_of_new : (new Unit 3 2 (by decide)).InTime 3 () :=
  (inTime_iff (by decide +kernel) (.nil _) (by simp) (by decide) (by decide)).mpr
    (by decide +kernel)

/-- One cascade is enough for a release before its time: two buckets per
queue, and a delay of three ticks inserted after the first tick is over
at tick 3. Two cascades can be late by more than one tick: a delay of
seven ticks, inserted before the first tick, still runs after tick 8. -/
theorem not_inTime_cascade :
    ¬ (new Unit 3 2 (by decide)).tick.InTime 3 () ∧ ¬ (new Unit 8 2 (by decide)).InTime 7 () := by
  constructor
  · intro h
    have hheld := (h _ _ (not_inserts_ticks () 2) (run_ticks _ 2)).1 (by decide +kernel)
    exact absurd hheld (by decide +kernel)
  · intro h
    have hgone := (h _ _ (not_inserts_ticks () 8) (run_ticks _ 8)).2 (by decide +kernel)
    exact hgone (by decide +kernel)

end InTime

end TimingWheel

end Netpoll
