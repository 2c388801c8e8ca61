import Mathlib.Data.List.Basic

/-!
# The order of two entries of a log

`Precedes l a b` says that `a` stands somewhere before `b` in `l`. A log
grows at its end, and a queue is served at its front, so these are the
rules: what holds in a log holds in every longer one (`append_right`,
`insert`), and what holds of the whole holds already of a front part that
has both entries (`of_append`).
-/

namespace Netpoll

variable {α : Type*} {l m : List α} {a b x : α}

/-- `a` stands before `b` in `l`. -/
def Precedes (l : List α) (a b : α) : Prop := List.Sublist [a, b] l

theorem Precedes.left_mem (h : Precedes l a b) : a ∈ l := h.subset (by simp)

theorem Precedes.right_mem (h : Precedes l a b) : b ∈ l := h.subset (by simp)

theorem Precedes.append_right (h : Precedes l a b) (m : List α) : Precedes (l ++ m) a b :=
  h.trans (List.sublist_append_left l m)

theorem Precedes.insert (h : Precedes (l ++ m) a b) (x : α) : Precedes (l ++ x :: m) a b :=
  h.trans ((List.sublist_cons_self x m).append_left l)

theorem precedes_append (ha : a ∈ l) (hb : b ∈ m) : Precedes (l ++ m) a b :=
  (List.singleton_sublist.mpr ha).append (List.singleton_sublist.mpr hb)

theorem Precedes.of_append (h : Precedes (l ++ m) a b) (hb : b ∉ m) : Precedes l a b := by
  obtain ⟨l₁, l₂, heq, h₁, h₂⟩ := List.sublist_append_iff.mp h
  have hnil : l₂ = [] := by
    rcases List.eq_nil_or_concat l₂ with hnil | ⟨l', y, rfl⟩
    · exact hnil
    · rw [List.concat_eq_append] at heq h₂
      rw [← List.append_assoc, show [a, b] = [a] ++ [b] from rfl] at heq
      obtain ⟨-, hy⟩ := List.append_inj' heq rfl
      obtain rfl := List.singleton_inj.mp hy
      exact absurd (h₂.subset (by simp)) hb
  rw [hnil, List.append_nil] at heq
  rw [Precedes, heq]
  exact h₁

theorem precedes_snoc_iff :
    Precedes (l ++ [x]) a b ↔ Precedes l a b ∨ (a ∈ l ∧ b = x) := by
  constructor
  · intro h
    obtain ⟨l₁, l₂, heq, h₁, h₂⟩ := List.sublist_append_iff.mp h
    rcases List.sublist_singleton.mp h₂ with rfl | rfl
    · rw [List.append_nil] at heq
      rw [← heq] at h₁
      exact Or.inl h₁
    · rw [show [a, b] = [a] ++ [b] from rfl] at heq
      obtain ⟨rfl, hx⟩ := List.append_inj' heq rfl
      exact Or.inr ⟨List.singleton_sublist.mp h₁, List.singleton_inj.mp hx⟩
  · rintro (h | ⟨ha, rfl⟩)
    · exact h.append_right [x]
    · exact precedes_append ha List.mem_cons_self

end Netpoll
