import Mathlib.Data.List.Infix

/-!
# Prefix codes

A stream of messages is sent by writing their code words one after the
other. If no code word begins another one, the stream can be read in one
way only, and a reader that has seen a front part of it knows which
messages it has got. `Splits` says how a stream falls into complete
messages and an unfinished rest; it is what a decoder is specified by.

The rules: a stream splits in one way (`Splits.unique`), and a front part
splits into a front part of the messages (`Splits.prefix_of_append`).
-/

namespace Netpoll

variable {μ α : Type*}

/-- No code word is empty, and none begins another one. -/
structure PrefixCode (enc : μ → List α) : Prop where
  nonempty : ∀ m, enc m ≠ []
  eq_of_prefix : ∀ {m n}, enc m <+: enc n → m = n

/-- No message is complete yet. -/
def Unfinished (enc : μ → List α) (rest : List α) : Prop := ∀ m, ¬ enc m <+: rest

/-- The stream `xs` is the messages `ms` followed by an unfinished rest. -/
structure Splits (enc : μ → List α) (xs : List α) (ms : List μ) (rest : List α) : Prop where
  eq : xs = ms.flatMap enc ++ rest
  unfinished : Unfinished enc rest

variable {enc : μ → List α} {xs ys rest rest' : List α} {ms ns : List μ} {m n : μ}

theorem Unfinished.nil (hc : PrefixCode enc) : Unfinished enc [] := by
  intro m hm
  exact hc.nonempty m (List.prefix_nil.mp hm)

theorem PrefixCode.eq_of_append_eq (hc : PrefixCode enc) (h : enc m ++ xs = enc n ++ ys) :
    m = n ∧ xs = ys := by
  have hmn : m = n := by
    rcases List.prefix_or_prefix_of_prefix (List.prefix_append (enc m) xs)
        (h ▸ List.prefix_append (enc n) ys) with hp | hp
    · exact hc.eq_of_prefix hp
    · exact (hc.eq_of_prefix hp).symm
  subst hmn
  exact ⟨rfl, List.append_cancel_left h⟩

namespace Splits

/-- The messages of a stream are those of any other way to split a
continuation of it, as far as they go. -/
theorem prefix_of_append (hc : PrefixCode enc) (h : ms.flatMap enc ++ xs = ns.flatMap enc ++ rest)
    (hrest : Unfinished enc rest) : ms <+: ns := by
  induction ms generalizing ns with
  | nil => exact List.nil_prefix
  | cons m ms ih =>
      cases ns with
      | nil =>
          -- the code word of `m` would begin the rest
          refine absurd ?_ (hrest m)
          rw [List.flatMap_nil, List.nil_append] at h
          rw [← h, List.flatMap_cons, List.append_assoc]
          exact List.prefix_append _ _
      | cons n ns =>
          simp only [List.flatMap_cons, List.append_assoc] at h
          obtain ⟨hm, htail⟩ := hc.eq_of_append_eq h
          exact List.cons_prefix_cons.mpr ⟨hm, ih htail⟩

theorem unique (hc : PrefixCode enc) (h : Splits enc xs ms rest) (h' : Splits enc xs ns rest') :
    ms = ns ∧ rest = rest' := by
  have heq : ms.flatMap enc ++ rest = ns.flatMap enc ++ rest' := h.eq.symm.trans h'.eq
  have hmn : ms = ns := (prefix_of_append hc heq h'.unfinished).eq_of_length_le
    (prefix_of_append hc heq.symm h.unfinished).length_le
  subst hmn
  exact ⟨rfl, List.append_cancel_left heq⟩

theorem flatMap (hc : PrefixCode enc) (ns : List μ) : Splits enc (ns.flatMap enc) ns [] :=
  ⟨(List.append_nil _).symm, .nil hc⟩

end Splits

end Netpoll
