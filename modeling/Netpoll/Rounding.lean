import Mathlib.Data.Int.Log
import Mathlib.Data.Nat.Cast.Order.Field
import Mathlib.Data.Nat.Log
import Mathlib.Data.Rat.Floor
import Mathlib.Tactic.Linarith

/-!
# Rounding to `p` significant bits

What a conversion of an unsigned integer to a binary floating point type
with a `p` bit significand does, in the default mode: the value is
replaced by the nearest multiple of its unit in the last place
(`2 ^ (log2 n + 1 - p)`), and a tie goes to the even multiple.

The conversion is the identity below `2 ^ p`, it is monotone, and its
results keep a distance of one unit from the next power of two.

A quotient is rounded in the same way (`roundRat`), with units below one as
well. The range of the exponent is not bounded, so this is the result of an
operation that neither overflows nor underflows.
-/

namespace Netpoll

/-- `n / s`, rounded to the nearest integer, ties to even. -/
def roundHalfEven (n s : Nat) : Nat :=
  if 2 * (n % s) < s ∨ (2 * (n % s) = s ∧ n / s % 2 = 0) then n / s else n / s + 1

/-- The unit in the last place of `n`, as an exponent of two. -/
def ulpExp (p n : Nat) : Nat := n.log2 + 1 - p

/-- `n` rounded to `p` significant bits. -/
def roundBits (p n : Nat) : Nat := roundHalfEven n (2 ^ ulpExp p n) * 2 ^ ulpExp p n

theorem roundHalfEven_le (n s : Nat) : roundHalfEven n s ≤ n / s + 1 := by
  unfold roundHalfEven
  split <;> omega

theorem le_roundHalfEven (n s : Nat) : n / s ≤ roundHalfEven n s := by
  unfold roundHalfEven
  split <;> omega

theorem roundHalfEven_mul {s : Nat} (hs : 0 < s) (q : Nat) : roundHalfEven (q * s) s = q := by
  have hmod : q * s % s = 0 := Nat.mul_mod_left q s
  have hdiv : q * s / s = q := Nat.mul_div_cancel q hs
  rw [roundHalfEven, hmod, hdiv, if_pos (Or.inl (by omega))]

theorem roundHalfEven_mono {n m : Nat} (s : Nat) (h : n ≤ m) :
    roundHalfEven n s ≤ roundHalfEven m s := by
  have hq : n / s ≤ m / s := Nat.div_le_div_right h
  rcases Nat.lt_or_eq_of_le hq with hlt | heq
  · have h1 := roundHalfEven_le n s
    have h2 := le_roundHalfEven m s
    omega
  · -- same quotient, so the remainders are ordered as the numbers are
    have hr : n % s ≤ m % s := by
      have h1 := Nat.div_add_mod n s
      have h2 := Nat.div_add_mod m s
      rw [heq] at h1
      omega
    unfold roundHalfEven
    rw [heq]
    split_ifs <;> omega

theorem roundBits_eq_self {p n : Nat} (h : n < 2 ^ p) : roundBits p n = n := by
  have hexp : ulpExp p n = 0 ∨ n = 0 := by
    by_cases hn : n = 0
    · exact Or.inr hn
    · have := (Nat.log2_lt hn).mpr h
      exact Or.inl (by unfold ulpExp; omega)
  rcases hexp with hexp | rfl
  · have hmul := roundHalfEven_mul (s := 1) (by omega) n
    rw [Nat.mul_one] at hmul
    rw [roundBits, hexp, Nat.pow_zero, hmul, Nat.mul_one]
  · have hmul := roundHalfEven_mul (s := 2 ^ ulpExp p 0) (Nat.two_pow_pos _) 0
    rw [Nat.zero_mul] at hmul
    rw [roundBits, hmul, Nat.zero_mul]

theorem roundHalfEven_two_pow {k j : Nat} (h : k ≤ j) :
    roundHalfEven (2 ^ j) (2 ^ k) * 2 ^ k = 2 ^ j := by
  have hj : 2 ^ j = 2 ^ (j - k) * 2 ^ k := by rw [← Nat.pow_add, Nat.sub_add_cancel h]
  have hround : roundHalfEven (2 ^ j) (2 ^ k) = 2 ^ (j - k) := by
    rw [hj]
    exact roundHalfEven_mul (Nat.two_pow_pos k) _
  rw [hround, ← hj]

theorem roundBits_le_two_pow {p n j : Nat} (hp : 0 < p) (h : n < 2 ^ j) :
    roundBits p n ≤ 2 ^ j := by
  have hexp : ulpExp p n ≤ j := by
    by_cases hn : n = 0
    · subst hn
      have : ulpExp p 0 = 0 := by simp [ulpExp]; omega
      omega
    · have := (Nat.log2_lt hn).mpr h
      unfold ulpExp
      omega
  calc roundBits p n
      ≤ roundHalfEven (2 ^ j) (2 ^ ulpExp p n) * 2 ^ ulpExp p n :=
        Nat.mul_le_mul_right _ (roundHalfEven_mono _ h.le)
    _ = 2 ^ j := roundHalfEven_two_pow hexp

theorem two_pow_log2_le_roundBits {p n : Nat} (hp : 0 < p) (hn : n ≠ 0) :
    2 ^ n.log2 ≤ roundBits p n := by
  have hexp : ulpExp p n ≤ n.log2 := by unfold ulpExp; omega
  calc 2 ^ n.log2
      = roundHalfEven (2 ^ n.log2) (2 ^ ulpExp p n) * 2 ^ ulpExp p n :=
        (roundHalfEven_two_pow hexp).symm
    _ ≤ roundBits p n := Nat.mul_le_mul_right _ (roundHalfEven_mono _ (Nat.log2_self_le hn))

theorem roundBits_pos {p n : Nat} (hp : 0 < p) (hn : 0 < n) : 0 < roundBits p n :=
  lt_of_lt_of_le (Nat.two_pow_pos _) (two_pow_log2_le_roundBits hp (by omega))

theorem roundBits_mono {p n m : Nat} (hp : 0 < p) (h : n ≤ m) :
    roundBits p n ≤ roundBits p m := by
  by_cases hn : n = 0
  · subst hn
    rw [roundBits_eq_self (Nat.two_pow_pos p)]
    exact Nat.zero_le _
  have hm : m ≠ 0 := by omega
  have hlog : n.log2 ≤ m.log2 :=
    (Nat.le_log2 hm).mpr ((Nat.log2_self_le hn).trans h)
  rcases Nat.lt_or_eq_of_le hlog with hlt | heq
  · -- different binades: a power of two lies between the two roundings
    calc roundBits p n
        ≤ 2 ^ (n.log2 + 1) := roundBits_le_two_pow hp Nat.lt_log2_self
      _ ≤ 2 ^ m.log2 := Nat.pow_le_pow_right (by omega) hlt
      _ ≤ roundBits p m := two_pow_log2_le_roundBits hp hm
  · have hexp : ulpExp p n = ulpExp p m := by rw [ulpExp, heq, ulpExp]
    rw [roundBits, hexp]
    exact Nat.mul_le_mul_right _ (roundHalfEven_mono _ h)

/-- A result below `2 ^ (p + k)` is one unit of the last binade away from it. -/
theorem roundBits_add_le {p n k : Nat} (hp : 0 < p) (h : roundBits p n < 2 ^ (p + k)) :
    roundBits p n + 2 ^ k ≤ 2 ^ (p + k) := by
  by_cases hexp : k ≤ ulpExp p n
  · -- a multiple of `2 ^ k`
    have hdvd : 2 ^ k ∣ roundBits p n := (Nat.pow_dvd_pow 2 hexp).mul_left _
    obtain ⟨a, ha⟩ := hdvd
    obtain ⟨b, hb⟩ : 2 ^ k ∣ 2 ^ (p + k) := Nat.pow_dvd_pow 2 (by omega)
    rw [ha, hb] at h ⊢
    have hab : a < b := lt_of_mul_lt_mul_left h (Nat.zero_le _)
    calc 2 ^ k * a + 2 ^ k = 2 ^ k * (a + 1) := by rw [Nat.mul_add, Nat.mul_one]
      _ ≤ 2 ^ k * b := Nat.mul_le_mul_left _ hab
  · have hn : n < 2 ^ (p + k - 1) := by
      have hlog : n.log2 + 1 ≤ p + k - 1 := by unfold ulpExp at hexp; omega
      exact lt_of_lt_of_le Nat.lt_log2_self (Nat.pow_le_pow_right (by omega) hlog)
    have h1 := roundBits_le_two_pow hp hn
    have h2 : 2 ^ k ≤ 2 ^ (p + k - 1) := Nat.pow_le_pow_right (by omega) (by omega)
    have h3 : 2 ^ (p + k) = 2 ^ (p + k - 1) + 2 ^ (p + k - 1) := by
      rw [← Nat.mul_two, ← Nat.pow_succ]
      congr 1
      omega
    omega

/-! ## Quotients -/

/-- The nearest integer, ties to even. -/
def roundNearest (y : ℚ) : ℤ :=
  if y - ⌊y⌋ < 1 / 2 ∨ (y - ⌊y⌋ = 1 / 2 ∧ ⌊y⌋ % 2 = 0) then ⌊y⌋ else ⌊y⌋ + 1

/-- The unit in the last place of a positive `x`. -/
def unitRat (p : Nat) (x : ℚ) : ℚ := 2 ^ (Int.log 2 x + 1 - p)

/-- A positive `x` rounded to `p` significant bits. -/
def roundRat (p : Nat) (x : ℚ) : ℚ := roundNearest (x / unitRat p x) * unitRat p x

theorem roundNearest_intCast (n : ℤ) : roundNearest n = n := by
  rw [roundNearest, Int.floor_intCast, sub_self, if_pos (Or.inl (by norm_num))]

theorem unitRat_pos (p : Nat) (x : ℚ) : 0 < unitRat p x := zpow_pos (by norm_num) _

theorem log_add_one_sub_le {p : Nat} {x : ℚ} {k : ℤ} (hx : 0 < x) (h : x < 2 ^ (p + k)) :
    Int.log 2 x + 1 - p ≤ k := by
  have hlt : Int.log 2 x < p + k :=
    (Int.lt_zpow_iff_log_lt (by norm_num) hx).mp (by exact_mod_cast h)
  omega

/-- A number with a significand of `p` bits is its own rounding. -/
theorem roundRat_eq_self {p m : Nat} {k : ℤ} (hm : 0 < m) (hlt : m < 2 ^ p) :
    roundRat p (m * 2 ^ k) = m * 2 ^ k := by
  have hk : (0 : ℚ) < 2 ^ k := zpow_pos (by norm_num) k
  have hpos : (0 : ℚ) < m * 2 ^ k := mul_pos (Nat.cast_pos.mpr hm) hk
  have hexp : Int.log 2 ((m : ℚ) * 2 ^ k) + 1 - p ≤ k := by
    refine log_add_one_sub_le hpos ?_
    rw [zpow_add₀ (by norm_num), zpow_natCast]
    exact mul_lt_mul_of_pos_right (by exact_mod_cast hlt) hk
  obtain ⟨j, hj⟩ := Int.eq_ofNat_of_zero_le (Int.sub_nonneg.mpr hexp)
  -- a whole number of units
  have hunits : (m : ℚ) * 2 ^ k / unitRat p (m * 2 ^ k) = ((m * 2 ^ j : Nat) : ℤ) := by
    rw [div_eq_iff (unitRat_pos p _).ne', unitRat]
    push_cast
    rw [mul_assoc, ← zpow_natCast, ← zpow_add₀ (by norm_num), ← hj, sub_add_cancel]
  rw [roundRat, hunits, roundNearest_intCast, ← hunits, div_mul_cancel₀ _ (unitRat_pos p _).ne']

theorem roundBits_eq_mul {p n : Nat} (hp : 0 < p) (hn : 0 < n) :
    ∃ m e : Nat, roundBits p n = m * 2 ^ e ∧ 0 < m ∧ m < 2 ^ p := by
  have hpos := roundBits_pos hp hn
  by_cases hlt : n < 2 ^ p
  · exact ⟨n, 0, by rw [roundBits_eq_self hlt, Nat.pow_zero, Nat.mul_one], hn, hlt⟩
  have hexp : p + ulpExp p n = n.log2 + 1 := by
    have hle := (Nat.le_log2 (by omega)).mpr (Nat.not_lt.mp hlt)
    unfold ulpExp
    omega
  have hdiv : n / 2 ^ ulpExp p n < 2 ^ p := by
    rw [Nat.div_lt_iff_lt_mul (Nat.two_pow_pos _), ← Nat.pow_add, hexp]
    exact Nat.lt_log2_self
  rcases Nat.lt_or_eq_of_le ((roundHalfEven_le n (2 ^ ulpExp p n)).trans hdiv) with hm | hm
  · refine ⟨_, ulpExp p n, rfl, Nat.pos_of_ne_zero fun hzero => ?_, hm⟩
    rw [roundBits, hzero, Nat.zero_mul] at hpos
    exact absurd hpos (Nat.lt_irrefl 0)
  · -- rounded up to the next power of two
    refine ⟨1, p + ulpExp p n, ?_, Nat.one_pos, Nat.one_lt_two_pow hp.ne'⟩
    rw [roundBits, hm, Nat.pow_add, Nat.one_mul]

theorem roundRat_roundBits {p n : Nat} (hp : 0 < p) (hn : 0 < n) :
    roundRat p (roundBits p n) = roundBits p n := by
  obtain ⟨m, e, heq, hm, hlt⟩ := roundBits_eq_mul hp hn
  have hself := roundRat_eq_self (k := e) hm hlt
  rw [heq]
  push_cast
  rwa [zpow_natCast] at hself

end Netpoll
