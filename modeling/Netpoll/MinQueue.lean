import Mathlib.Data.List.MinMax
import Mathlib.Data.Multiset.AddSub

/-!
# Priority queues

The contract of a container that hands out an entry with the smallest key
first. Entries with equal keys come out in an order the container is free
to choose, so a program is verified against `MinQueue`, for every
implementation at once, and not against one heap.
-/

namespace Netpoll

/-- `Q` is a priority queue of `α` by smallest `key`: `push` adds an entry
and `pop?` takes out the top one, if there is any. -/
class MinQueue (Q : Type*) (α : outParam Type*) {κ : outParam Type*} [LinearOrder κ]
    (key : outParam (α → κ)) where
  empty : Q
  push : α → Q → Q
  pop? : Q → Option (α × Q)
  /-- The entries held. -/
  elems : Q → Multiset α
  elems_empty : elems empty = 0
  elems_push : ∀ a q, elems (push a q) = a ::ₘ elems q
  elems_pop : ∀ q a r, pop? q = some (a, r) → elems q = a ::ₘ elems r
  pop_min : ∀ q a r, pop? q = some (a, r) → ∀ b ∈ elems q, key a ≤ key b
  pop_none : ∀ q, pop? q = none → elems q = 0

namespace MinQueue

attribute [simp] elems_empty elems_push

section

variable {Q α κ : Type*} [LinearOrder κ] {key : α → κ} [MinQueue Q α key]

/-- The entry that `pop?` would take out. -/
def top? (q : Q) : Option α := (pop? q).map Prod.fst

def drainLoop : Nat → Q → List α
  | 0, _ => []
  | fuel + 1, q =>
      match pop? q with
      | none => []
      | some (a, rest) => a :: drainLoop fuel rest

/-- The entries in the order in which the queue hands them out. -/
def drain (q : Q) : List α := drainLoop (elems q).card q

theorem coe_drainLoop (fuel : Nat) (q : Q) (hfuel : (elems q).card ≤ fuel) :
    (drainLoop fuel q : Multiset α) = elems q := by
  induction fuel generalizing q with
  | zero => exact (Multiset.card_eq_zero.mp (Nat.le_zero.mp hfuel)).symm
  | succ fuel ih =>
      rw [drainLoop]
      split
      next hpop => exact (pop_none _ hpop).symm
      next a rest hpop =>
          have helems := elems_pop _ _ _ hpop
          rw [helems, Multiset.card_cons] at hfuel
          rw [helems, ← ih rest (by omega)]
          rfl

theorem mem_drainLoop {fuel : Nat} {q : Q} {a : α} (h : a ∈ drainLoop fuel q) : a ∈ elems q := by
  induction fuel generalizing q with
  | zero => cases h
  | succ fuel ih =>
      rw [drainLoop] at h
      split at h
      next => cases h
      next b rest hpop =>
          rw [elems_pop _ _ _ hpop, Multiset.mem_cons]
          exact (List.mem_cons.mp h).imp_right ih

theorem pairwise_drainLoop (fuel : Nat) (q : Q) :
    (drainLoop fuel q).Pairwise (fun a b => key a ≤ key b) := by
  induction fuel generalizing q with
  | zero => exact List.Pairwise.nil
  | succ fuel ih =>
      rw [drainLoop]
      split
      next => exact List.Pairwise.nil
      next a rest hpop =>
          refine List.pairwise_cons.mpr ⟨fun b hb => pop_min _ _ _ hpop b ?_, ih rest⟩
          rw [elems_pop _ _ _ hpop]
          exact Multiset.mem_cons_of_mem (mem_drainLoop hb)

theorem coe_drain (q : Q) : (drain q : Multiset α) = elems q :=
  coe_drainLoop _ q (Nat.le_refl _)

theorem pairwise_drain (q : Q) : (drain q).Pairwise (fun a b => key a ≤ key b) :=
  pairwise_drainLoop _ q

end

/-- A list served at its first smallest entry. -/
@[reducible] def ofList {α κ : Type*} [DecidableEq α] [LinearOrder κ] (key : α → κ) :
    MinQueue (List α) α key where
  empty := []
  push a l := l ++ [a]
  pop? l := (l.argmin key).map fun a => (a, l.erase a)
  elems l := (l : Multiset α)
  elems_empty := rfl
  elems_push a l := by
    rw [Multiset.cons_coe, Multiset.coe_eq_coe]
    exact List.perm_append_singleton a l
  elems_pop l a r h := by
    obtain ⟨b, hb, hbr⟩ := Option.map_eq_some_iff.mp h
    obtain ⟨rfl, rfl⟩ := Prod.mk.inj hbr
    rw [Multiset.cons_coe, Multiset.coe_eq_coe]
    exact List.perm_cons_erase (List.argmin_mem hb)
  pop_min l a r h := by
    obtain ⟨b, hb, hbr⟩ := Option.map_eq_some_iff.mp h
    obtain ⟨rfl, rfl⟩ := Prod.mk.inj hbr
    intro c hc
    exact List.le_of_mem_argmin (Multiset.mem_coe.mp hc) hb
  pop_none l h := by
    rw [Option.map_eq_none_iff, List.argmin_eq_none] at h
    rw [h]
    rfl

end MinQueue

end Netpoll
