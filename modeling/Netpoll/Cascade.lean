import Mathlib.Tactic.Linarith
import Mathlib.Tactic.Ring

/-!
# Cascades of counters in a base

Hands of a clock in base `B`: the hand of level `i` advances every
`B ^ i` ticks. A delay that is longer than one round of a level is
coarsened to the next one (`level` counts how often), and the event is
handed down from level to level when a coarser hand arrives.

`cascade` is the tick of the event when each level hands it down at the
digit `u % B` of the tick `u` aimed at, after its own hand has moved for
the current tick. The digit that would be exact is `(u - 1) % B`, so the
event drifts from its aim: `cascade_level` gives the amount (`drift`),
and `drift_iff_aligned` says for which digits it stays within one tick.
-/

namespace Netpoll

/-- How often a delay counted from tick `t` is coarsened, in a clock of
`rem` levels, before it fits one round. -/
def level (B : Nat) : (rem t delay : Nat) → Nat
  | 0, _, _ => 0
  | rem + 1, t, delay =>
      if delay ≤ B then 0 else level B rem (t / B) ((delay + t % B - 1) / B) + 1

/-- The tick at which an event that was coarsened `L` times and aims at
`u` takes place. -/
def cascade (B : Nat) : (L u : Nat) → Nat
  | 0, u => u
  | L + 1, u => cascade B L ((u - 1) / B) * B + u % B + 1

/-- The distance of `cascade B L u` from `u`: each level contributes one
unit of its own, or `B - 1` units to the early side when `B` divides its
target. -/
def drift (B : Nat) : (L u : Nat) → Int
  | 0, _ => 0
  | L + 1, u => drift B L ((u - 1) / B) * B + if u % B = 0 then 1 - (B : Int) else 1

/-- The digits for which the drift cancels up to one tick: the last
coarsening does not divide, and all the ones before it do. -/
def Aligned (B : Nat) : (L u : Nat) → Prop
  | 0, _ => True
  | 1, u => u % B ≠ 0
  | L + 2, u => u % B = 0 ∧ Aligned B (L + 1) ((u - 1) / B)

/-! ## Coarsening -/

variable {B : Nat}

theorem coarsen_aim (hB : 0 < B) (t : Nat) {delay : Nat} (hd : 0 < delay) :
    t / B + (delay + t % B - 1) / B = (t + delay - 1) / B := by
  have hsplit : t + delay - 1 = (delay + t % B - 1) + t / B * B := by
    have := Nat.div_add_mod' t B
    omega
  rw [hsplit, Nat.add_mul_div_right _ _ hB, Nat.add_comm]

theorem coarsen_pos (hB : 0 < B) {delay : Nat} (hd : B < delay) (t : Nat) :
    0 < (delay + t % B - 1) / B :=
  Nat.div_pos (by omega) hB

theorem coarsen_le (hB : 0 < B) {delay n : Nat} (hd : delay ≤ B ^ (n + 1)) (t : Nat) :
    (delay + t % B - 1) / B ≤ B ^ n := by
  have ht : t % B < B := Nat.mod_lt t hB
  have hlt : delay + t % B - 1 < (B ^ n + 1) * B := by
    rw [Nat.add_mul, Nat.one_mul]
    have hpow : B ^ (n + 1) = B ^ n * B := Nat.pow_succ ..
    omega
  exact Nat.lt_succ_iff.mp ((Nat.div_lt_iff_lt_mul hB).mpr hlt)

theorem coarsen_lt (hB : 1 < B) {delay : Nat} (hd : B < delay) (t : Nat) :
    (delay + t % B - 1) / B < delay := by
  have ht : t % B < B := Nat.mod_lt t (by omega)
  refine (Nat.div_lt_iff_lt_mul (by omega)).mpr ?_
  calc delay + t % B - 1 < delay * 2 := by omega
    _ ≤ delay * B := Nat.mul_le_mul_left delay hB

/-! ## The drift -/

/-- The digit of `u` against the exact digit, the one of `u - 1`. -/
theorem digit_step (hB : 0 < B) {u : Nat} (hu : 0 < u) :
    ((u - 1) / B * B : Nat) + ((u % B : Nat) + 1 : Int) =
      u + if u % B = 0 then 1 - (B : Int) else 1 := by
  have hdiv := Nat.div_add_mod' (u - 1) B
  have hlt : (u - 1) % B < B := Nat.mod_lt _ hB
  have hmod : u % B = ((u - 1) % B + 1) % B := by
    rw [Nat.mod_add_mod, Nat.sub_add_cancel hu]
  rcases Nat.lt_or_ge ((u - 1) % B + 1) B with hcarry | hcarry
  · rw [Nat.mod_eq_of_lt hcarry] at hmod
    rw [if_neg (by omega)]
    omega
  · have hfull : (u - 1) % B + 1 = B := by omega
    rw [hfull, Nat.mod_self] at hmod
    rw [if_pos hmod, hmod]
    omega

theorem cascade_level (hB : 0 < B) (rem : Nat) {t delay : Nat} (hd : 0 < delay) :
    (cascade B (level B rem t delay) (t + delay) : Int) =
      (t + delay : Nat) + drift B (level B rem t delay) (t + delay) := by
  induction rem generalizing t delay with
  | zero => simp [level, cascade, drift]
  | succ rem ih =>
      by_cases hfit : delay ≤ B
      · simp [level, hfit, cascade, drift]
      · have hnext := ih (t := t / B) (coarsen_pos hB (show B < delay by omega) t)
        rw [coarsen_aim hB t hd] at hnext
        have hdigit := digit_step hB (show 0 < t + delay by omega)
        simp only [level, if_neg hfit, cascade, drift]
        push_cast at hnext hdigit ⊢
        rw [hnext]
        linarith

theorem drift_succ (B L u : Nat) : ∃ k : Int, drift B (L + 1) u = k * B + 1 := by
  by_cases hu : u % B = 0
  · exact ⟨drift B L ((u - 1) / B) - 1, by rw [drift, if_pos hu]; ring⟩
  · exact ⟨drift B L ((u - 1) / B), by rw [drift, if_neg hu]⟩

theorem drift_succ_ne_zero (hB : 1 < B) (L u : Nat) : drift B (L + 1) u ≠ 0 := by
  obtain ⟨k, hk⟩ := drift_succ B L u
  intro h0
  have hdvd : (B : Int) ∣ 1 := ⟨-k, by linarith⟩
  have := Int.le_of_dvd (by omega) hdvd
  omega

theorem drift_iff_aligned (hB : 1 < B) (L u : Nat) :
    (0 ≤ drift B L u ∧ drift B L u ≤ 1) ↔ Aligned B L u := by
  induction L generalizing u with
  | zero => simp [drift, Aligned]
  | succ L ih =>
      cases L with
      | zero =>
          by_cases hu : u % B = 0
          · have hdrift : drift B 1 u = 1 - B := by rw [drift, if_pos hu, drift]; ring
            rw [hdrift, Aligned]
            omega
          · simp [drift, Aligned, hu]
      | succ L =>
          have hne := drift_succ_ne_zero hB L ((u - 1) / B)
          rw [Aligned, ← ih, drift]
          generalize drift B (L + 1) ((u - 1) / B) = x at hne
          by_cases hu : u % B = 0
          · rw [if_pos hu]
            constructor
            · rintro ⟨hlo, hhi⟩
              have hx : x = 1 := by
                rcases lt_trichotomy x 1 with hx | hx | hx
                · nlinarith
                · exact hx
                · nlinarith
              exact ⟨hu, by omega⟩
            · rintro ⟨-, hlo, hhi⟩
              obtain rfl : x = 1 := by omega
              omega
          · rw [if_neg hu]
            constructor
            · rintro ⟨hlo, hhi⟩
              rcases lt_or_gt_of_ne hne with hx | hx <;> nlinarith
            · rintro ⟨h, -⟩
              exact absurd h hu

end Netpoll
