import Mathlib.Data.Rat.Floor
import Netpoll.WheelRelease

/-!
# Inserting into a wheel

`insertEntryInLoop` first converts its delay to a number of ticks and then
visits the queues from the finest one on. `insertRounds` records what the
rounds of that loop compute and which branch each of them takes;
`insertLoop_eq_replay` says that the loop does just that to the wheel. In
a wheel that the constructor sized for the delay, the rounds end with a
placement and none of their `size_t` expressions wraps (`Fits`).

The conversion is modelled for any tick interval (`ticks`): the quotient is
the one by the interval, computed in `float`, and the remainder the one by
the integer part of the interval, computed in `size_t`.
-/

namespace Netpoll

namespace TimingWheel

/-! ## The rounds of the loop -/

/-- What a round does with the entry. -/
inductive Branch where
  | place (slot : Nat)
  /-- The entry is wrapped in a `CallbackEntry` and goes to the next queue. -/
  | wrap
  /-- The comment of the source: the delay is too long. -/
  | tooLong
  deriving DecidableEq, Repr

/-- A round of the loop with the values of its variables. -/
structure Round where
  i : Nat
  delay : Nat
  t : Nat
  branch : Branch
  deriving DecidableEq, Repr

/-- The rounds of `insertEntryInLoop` with `rem` of `Q` queues still to visit. -/
def insertRounds (B Q : Nat) : (rem i delay t : Nat) → List Round
  | 0, _, _, _ => []
  | rem + 1, i, delay, t =>
      if delay ≤ B then [⟨i, delay, t, .place (subSz delay 1)⟩]
      else if i < Q - 1 then
        ⟨i, delay, t, .wrap⟩ ::
          insertRounds B Q rem (i + 1) (subSz (addSz delay (t % B)) 1 / B) (t / B)
      else [⟨i, delay, t, .tooLong⟩]

section Replay

variable {E : Type} [DecidableEq E]

/-- What the rounds do to the wheel. -/
def replay (w : TimingWheel E) : List Round → EntryPtr E → TimingWheel E
  | [], _ => w
  | ⟨i, delay, t, b⟩ :: rounds, p =>
      match b with
      | .place slot => w.insertAt i slot p
      | .wrap => w.replay rounds (.callbackEntry delay i t p)
      | .tooLong => w.insertAt i (w.bucketsNumPerQueue - 1) p

theorem insertLoop_eq_replay (w : TimingWheel E) (rem i delay t : Nat) (p : EntryPtr E) :
    w.insertLoop rem i delay t p =
      w.replay (insertRounds w.bucketsNumPerQueue w.queueNum rem i delay t) p := by
  induction rem generalizing i delay t p with
  | zero => rfl
  | succ rem ih =>
      rw [insertLoop, insertRounds]
      split_ifs
      · rfl
      · rw [replay, ih]
      · rfl

/-- The rounds of `w.insertEntryInLoop d e`, whatever the entry. -/
def rounds (w : TimingWheel E) (d : Nat) : List Round :=
  insertRounds w.bucketsNumPerQueue w.queueNum w.queueNum 0 (rotations d) w.ticksCounter

end Replay

/-- No expression of the round wraps or leaves the range of its index. -/
structure Round.Exact (B Q : Nat) (r : Round) : Prop where
  queue : r.i < Q
  pos : 1 ≤ r.delay
  slot : subSz r.delay 1 = r.delay - 1
  callback : callbackSlot B r.delay r.t < B
  /-- The round that places the entry does not compute the next delay. -/
  carry : r.branch = .wrap → addSz r.delay (r.t % B) = r.delay + r.t % B ∧
    subSz (addSz r.delay (r.t % B)) 1 = r.delay + r.t % B - 1

/-- The rounds wrap the entry and then place it, in a bucket that exists. -/
structure Fits (B Q : Nat) (rounds : List Round) : Prop where
  exact : ∀ r ∈ rounds, r.Exact B Q
  stops : ∃ wraps last, rounds = wraps ++ [last] ∧ (∀ r ∈ wraps, r.branch = .wrap) ∧
    last.branch = .place (last.delay - 1) ∧ 1 ≤ last.delay ∧ last.delay ≤ B

section Fits

variable {B Q : Nat}

theorem Fits.place {i delay : Nat} (t : Nat) (hB : 1 < B) (hi : i < Q) (hpos : 1 ≤ delay)
    (hround : delay ≤ B) (hsize : delay < sizeMod) :
    Fits B Q [⟨i, delay, t, .place (subSz delay 1)⟩] := by
  have hslot : subSz delay 1 = delay - 1 := subSz_eq hpos hsize
  refine ⟨List.forall_mem_singleton.mpr ?_, [], _, rfl, by simp, ?_, hpos, hround⟩
  · exact ⟨hi, hpos, hslot, Nat.mod_lt _ (by omega), fun h => Branch.noConfusion h⟩
  · exact congrArg Branch.place hslot

theorem Fits.wrap {i delay t : Nat} {rounds : List Round} (hB : 1 < B) (hi : i < Q)
    (hpos : 1 ≤ delay) (hsum : delay + t % B < sizeMod) (h : Fits B Q rounds) :
    Fits B Q (⟨i, delay, t, .wrap⟩ :: rounds) := by
  obtain ⟨wraps, last, rfl, hwraps, hlast⟩ := h.stops
  refine ⟨List.forall_mem_cons.mpr ⟨?_, h.exact⟩,
    _ :: wraps, last, rfl, List.forall_mem_cons.mpr ⟨rfl, hwraps⟩, hlast⟩
  have hadd : addSz delay (t % B) = delay + t % B := addSz_eq hsum
  refine ⟨hi, hpos, subSz_eq hpos ?_, Nat.mod_lt _ (by omega), fun _ => ⟨hadd, ?_⟩⟩
  · exact lt_of_le_of_lt (Nat.le_add_right ..) hsum
  · change subSz (addSz delay (t % B)) 1 = delay + t % B - 1
    rw [hadd]
    exact subSz_eq (by omega) hsum

/-- By induction on the queues left: a delay of at most `B ^ rem` ticks
leaves one of at most `B ^ (rem - 1)` units of the next queue. -/
theorem insertRounds_fits (hB : 1 < B) {rem i delay t : Nat} (hrem : i + rem = Q)
    (hrem0 : 0 < rem) (hpos : 0 < delay) (hfit : delay ≤ B ^ rem) (hsize : delay < sizeMod)
    (hwrap : B < delay → delay + B ≤ sizeMod) : Fits B Q (insertRounds B Q rem i delay t) := by
  induction rem generalizing i delay t with
  | zero => omega
  | succ rem ih =>
      rw [insertRounds]
      by_cases hround : delay ≤ B
      · rw [if_pos hround]
        exact Fits.place t hB (by omega) hpos hround hsize
      · have hlt : B < delay := by omega
        have hmod : t % B < B := Nat.mod_lt t (by omega)
        have hroom := hwrap hlt
        obtain ⟨hrem', -, hnext⟩ := wrap_sums hB hlt hfit hroom t
        have hless := coarsen_lt hB hlt t
        rw [if_neg hround, if_pos (by omega), hnext]
        refine Fits.wrap hB (by omega) hpos (by omega) ?_
        exact ih (by omega) hrem' (coarsen_pos (by omega) hlt t) (coarsen_le (by omega) hfit t)
          (by omega) (fun _ => by omega)

end Fits

variable {E : Type} [DecidableEq E]

/-- Rounds that fit put the entry, however wrapped, into the bucket that the
last of them names. -/
theorem Fits.placed {B : Nat} {w : TimingWheel E} {rounds : List Round}
    (hB : w.bucketsNumPerQueue = B) (h : Fits B w.queueNum rounds) (p : EntryPtr E) :
    ∃ r ∈ rounds, r.branch = .place (r.delay - 1) ∧
      ∃ q ∈ (w.replay rounds p).bucket r.i (r.delay - 1), q.target = p.target := by
  obtain ⟨wraps, last, rfl, hwraps, hlast, hpos, hle⟩ := h.stops
  have hi : last.i < w.queueNum := (h.exact last (by simp)).queue
  refine ⟨last, by simp, hlast, ?_⟩
  clear h
  induction wraps generalizing p with
  | nil =>
      obtain ⟨i, delay, t, branch⟩ := last
      obtain rfl : branch = .place (delay - 1) := hlast
      refine ⟨p, mem_bucket_insertAt.mpr (Or.inr ⟨rfl, rfl, rfl, hi, ?_⟩), rfl⟩
      simp only at hpos hle
      omega
  | cons r wraps ih =>
      obtain ⟨i, delay, t, branch⟩ := r
      obtain rfl : branch = .wrap := hwraps _ List.mem_cons_self
      exact ih (.callbackEntry delay i t p) fun r hr => hwraps r (List.mem_cons_of_mem _ hr)

/-- A wheel is large enough for the timeouts it was built for: whatever the
tick counter and the contents, the loop of an insertion places the entry,
no expression of it wraps, and the entry is in the bucket afterwards. -/
theorem insertion_fits {maxTimeout B d : Nat} (w : TimingWheel E)
    (hB : w.bucketsNumPerQueue = B) (hQ : w.queueNum = sizing maxTimeout B)
    (hfit : B ^ sizing maxTimeout B < sizeMod) (hd1 : 1 ≤ d) (hd : d ≤ maxTimeout) (e : E) :
    Fits B w.queueNum (w.rounds d) ∧
      w.insertEntryInLoop d e = w.replay (w.rounds d) (.entry e) ∧
      ∃ r ∈ w.rounds d, r.branch = .place (r.delay - 1) ∧
        ∃ p ∈ (w.insertEntryInLoop d e).bucket r.i (r.delay - 1), p.target = e := by
  have hreplay : w.insertEntryInLoop d e = w.replay (w.rounds d) (.entry e) :=
    insertLoop_eq_replay ..
  suffices hfits : Fits B w.queueNum (w.rounds d) from
    ⟨hfits, hreplay, hreplay ▸ hfits.placed hB (.entry e)⟩
  have hB1 : 1 < B := hB ▸ w.one_lt_buckets
  have hle : toFloat d ≤ B ^ sizing maxTimeout B :=
    (roundBits_mono (by omega) hd).trans (toFloat_le_pow_sizing hB1 maxTimeout)
  rw [rounds, rotations_eq, hB, hQ]
  exact insertRounds_fits hB1 (Nat.zero_add _) (sizingLoop_pos (by omega) _)
    (roundBits_pos (p := 24) (by omega) hd1) hle (lt_of_le_of_lt hle hfit)
    (toFloat_add_le hB1 hfit hle)

/-- Two queues of two buckets: after one tick, a delay of four ticks is
carried into the second queue. -/
theorem insertion_fits_four :
    let w := (new Unit 4 2 (by decide)).tick
    Fits 2 w.queueNum (w.rounds 4) ∧ w.rounds 4 = [⟨0, 4, 1, .wrap⟩, ⟨1, 2, 0, .place 1⟩] :=
  ⟨(@insertion_fits Unit _ 4 2 4 _ (by decide +kernel) (by decide +kernel) (by decide +kernel)
    (by decide) (by decide) ()).1, by decide +kernel⟩

/-! ## Delays in ticks -/

/-- `static_cast<size_t>` of a value that is not negative; there is no
result when the value does not fit. -/
def toSize (x : ℚ) : Option Nat := if ⌊x⌋₊ < sizeMod then some ⌊x⌋₊ else none

/-- `delay / m_ticksInterval`: the delay is converted to `float`, and the
quotient is rounded to one. A quotient beyond the range of `float` is beyond
that of `size_t` as well, and one that is subnormal is cut to zero. -/
def floatQuotient (ticksInterval : ℚ) (delay : Nat) : ℚ :=
  roundRat 24 (toFloat delay / ticksInterval)

/-- The first statement of `insertEntryInLoop`. A remainder by zero has no
result. -/
def ticks (ticksInterval : ℚ) (delay : Nat) : Option Nat := do
  let quotient ← toSize (floatQuotient ticksInterval delay)
  let divisor ← toSize ticksInterval
  if divisor = 0 then none
  else some (addSz quotient (if delay % divisor ≠ 0 then 1 else 0))

section Ticks

variable {I : ℚ} {d n : Nat}

theorem toSize_of_lt {x : ℚ} (h : ⌊x⌋₊ < sizeMod) : toSize x = some ⌊x⌋₊ := if_pos h

theorem toSize_eq_some {x : ℚ} {n : Nat} (h : toSize x = some n) : n = ⌊x⌋₊ ∧ ⌊x⌋₊ < sizeMod := by
  unfold toSize at h
  split at h
  next hlt => exact ⟨(Option.some.inj h).symm, hlt⟩
  · cases h

theorem ticks_eq_some_iff {n : Nat} :
    ticks I d = some n ↔ ⌊floatQuotient I d⌋₊ < sizeMod ∧ ⌊I⌋₊ < sizeMod ∧ ⌊I⌋₊ ≠ 0 ∧
      n = addSz ⌊floatQuotient I d⌋₊ (if ⌊I⌋₊ ∣ d then 0 else 1) := by
  have hrem : (if d % ⌊I⌋₊ ≠ 0 then 1 else 0) = if ⌊I⌋₊ ∣ d then 0 else 1 := by
    rw [ite_not]
    simp only [Nat.dvd_iff_mod_eq_zero]
  constructor
  · intro h
    obtain ⟨q, hq, h⟩ := Option.bind_eq_some_iff.mp h
    obtain ⟨k, hk, h⟩ := Option.bind_eq_some_iff.mp h
    obtain ⟨rfl, hqlt⟩ := toSize_eq_some hq
    obtain ⟨rfl, hklt⟩ := toSize_eq_some hk
    rw [Option.ite_none_left_eq_some, Option.some.injEq, hrem] at h
    exact ⟨hqlt, hklt, h.1, h.2.symm⟩
  · rintro ⟨hq, hk, hne, rfl⟩
    rw [ticks, toSize_of_lt hq, toSize_of_lt hk, Option.bind_eq_bind, Option.bind_some,
      Option.bind_some, if_neg hne, hrem]

/-- What the two roundings to `float` add to the integer part of the quotient. -/
def carry (I : ℚ) (d : Nat) : ℤ := ⌊floatQuotient I d⌋₊ - ⌊(d : ℚ) / I⌋₊

theorem ticks_one (hd1 : 0 < d) (hd : toFloat d < sizeMod) : ticks 1 d = some (rotations d) := by
  have hquot : floatQuotient 1 d = toFloat d := by
    rw [floatQuotient, div_one]
    exact roundRat_roundBits (by decide) hd1
  rw [ticks_eq_some_iff, hquot, Nat.floor_natCast, Nat.floor_one, rotations_eq,
    if_pos (one_dvd d), addSz_eq hd]
  exact ⟨hd, by decide, by decide, rfl⟩

end Ticks

end TimingWheel

end Netpoll
