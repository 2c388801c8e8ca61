import Mathlib.Data.List.Infix
import Mathlib.Logic.Function.Basic

/-!
# Members of an array

Keys that each own one place of an array and remember which. `slot k` is the
place of the key `k`, if it has one, and `e k b` says that the entry `b` may
stand there. `Slots` is the correspondence: every key finds an entry of its
own, no two keys share a place, and no place is without a key.

The rules are those of an array whose removals leave no gaps: an entry is
pushed, overwritten, popped, or replaced by the last one, whose key then has
another place.
-/

namespace Netpoll

variable {κ β : Type*}

/-- `std::iter_swap` of two places of an array. -/
def iterSwap (l : List β) (i j : Nat) : List β :=
  match l[i]?, l[j]? with
  | some a, some b => (l.set i b).set j a
  | _, _ => l

theorem dropLast_iterSwap {l : List β} {i : Nat} {b : β} (hi : i < l.length - 1)
    (hb : l[l.length - 1]? = some b) :
    (iterSwap l i (l.length - 1)).dropLast = (l.set i b).dropLast := by
  have hlt : i < l.length := by omega
  simp only [iterSwap, List.getElem?_eq_getElem hlt, hb]
  refine List.ext_getElem? fun j => ?_
  rw [List.getElem?_dropLast, List.getElem?_dropLast, List.length_set, List.length_set]
  split
  next hj => rw [List.getElem?_set_ne (by omega)]
  next => rfl

/-- The keys and the places of the array correspond to each other. -/
structure Slots (slot : κ → Option Nat) (e : κ → β → Prop) (l : List β) : Prop where
  entry : ∀ {k i}, slot k = some i → ∃ b, l[i]? = some b ∧ e k b
  owner : ∀ i, i < l.length → ∃ k, slot k = some i
  inj : ∀ {k k' i}, slot k = some i → slot k' = some i → k = k'

namespace Slots

variable {slot : κ → Option Nat} {e e' : κ → β → Prop} {l : List β} {k : κ} {i : Nat} {b : β}

theorem nil : Slots (fun _ => none) e ([] : List β) where
  entry h := nomatch h
  owner _ h := nomatch h
  inj h := nomatch h

theorem lt_length (h : Slots slot e l) (hk : slot k = some i) : i < l.length := by
  obtain ⟨b, hb, -⟩ := h.entry hk
  exact (List.getElem?_eq_some_iff.mp hb).1

theorem entry_of (h : Slots slot e l) (hk : slot k = some i) (hb : l[i]? = some b) : e k b := by
  obtain ⟨b', hb', he⟩ := h.entry hk
  exact Option.some.inj (hb'.symm.trans hb) ▸ he

theorem exists_owner (h : Slots slot e l) (hb : l[i]? = some b) :
    ∃ k, slot k = some i ∧ e k b := by
  obtain ⟨k, hk⟩ := h.owner i (List.getElem?_eq_some_iff.mp hb).1
  exact ⟨k, hk, h.entry_of hk hb⟩

theorem mapIdx (h : Slots slot e l) {f : Nat → β → β} (hf : ∀ k i b, e k b → e' k (f i b)) :
    Slots slot e' (l.mapIdx f) where
  entry {k i} hk := by
    obtain ⟨b, hb, he⟩ := h.entry hk
    exact ⟨f i b, by rw [List.getElem?_mapIdx, hb, Option.map_some], hf k i b he⟩
  owner i hi := h.owner i (by rwa [List.length_mapIdx] at hi)
  inj := h.inj

variable [DecidableEq κ]

theorem push (h : Slots slot e l) (hk : slot k = none) (hb : e' k b)
    (he : ∀ k', k' ≠ k → ∀ b, e k' b → e' k' b) :
    Slots (Function.update slot k (some l.length)) e' (l ++ [b]) where
  entry {k' i} hk' := by
    by_cases hne : k' = k
    · subst hne
      rw [Function.update_self, Option.some.injEq] at hk'
      subst hk'
      exact ⟨b, List.getElem?_concat_length, hb⟩
    · rw [Function.update_of_ne hne] at hk'
      obtain ⟨b', hb', he'⟩ := h.entry hk'
      rw [List.getElem?_append_left (h.lt_length hk')]
      exact ⟨b', hb', he k' hne b' he'⟩
  owner i hi := by
    rw [List.length_append, List.length_singleton] at hi
    by_cases hlt : i < l.length
    · obtain ⟨k', hk'⟩ := h.owner i hlt
      have hne : k' ≠ k := by
        rintro rfl
        cases hk.symm.trans hk'
      exact ⟨k', by rw [Function.update_of_ne hne, hk']⟩
    · obtain rfl : i = l.length := by omega
      exact ⟨k, Function.update_self ..⟩
  inj {k₁ k₂ i} h₁ h₂ := by
    by_cases hk₁ : k₁ = k <;> by_cases hk₂ : k₂ = k
    · rw [hk₁, hk₂]
    · rw [hk₁, Function.update_self, Option.some.injEq] at h₁
      rw [Function.update_of_ne hk₂] at h₂
      exact absurd (h.lt_length h₂) (by omega)
    · rw [hk₂, Function.update_self, Option.some.injEq] at h₂
      rw [Function.update_of_ne hk₁] at h₁
      exact absurd (h.lt_length h₁) (by omega)
    · rw [Function.update_of_ne hk₁] at h₁
      rw [Function.update_of_ne hk₂] at h₂
      exact h.inj h₁ h₂

omit [DecidableEq κ] in
theorem set (h : Slots slot e l) (hk : slot k = some i) (hb : e' k b)
    (he : ∀ k', k' ≠ k → ∀ b, e k' b → e' k' b) : Slots slot e' (l.set i b) where
  entry {k' j} hk' := by
    by_cases hne : k' = k
    · subst hne
      obtain rfl := Option.some.inj (hk.symm.trans hk')
      exact ⟨b, List.getElem?_set_self (h.lt_length hk), hb⟩
    · have hij : i ≠ j := fun hij => hne (h.inj hk' (hij ▸ hk))
      obtain ⟨b', hb', he'⟩ := h.entry hk'
      rw [List.getElem?_set_ne hij]
      exact ⟨b', hb', he k' hne b' he'⟩
  owner j hj := h.owner j (by rwa [List.length_set] at hj)
  inj := h.inj

theorem pop (h : Slots slot e l) (hk : slot k = some (l.length - 1)) :
    Slots (Function.update slot k none) e l.dropLast where
  entry {k' i} hk' := by
    have hne : k' ≠ k := by
      rintro rfl
      rw [Function.update_self] at hk'
      cases hk'
    rw [Function.update_of_ne hne] at hk'
    have hlast : i ≠ l.length - 1 := fun hi => hne (h.inj hk' (hi ▸ hk))
    have hlt := h.lt_length hk'
    rw [List.getElem?_dropLast, if_pos (by omega)]
    exact h.entry hk'
  owner i hi := by
    rw [List.length_dropLast] at hi
    obtain ⟨k', hk'⟩ := h.owner i (by omega)
    have hne : k' ≠ k := by
      rintro rfl
      have hlast := Option.some.inj (hk.symm.trans hk')
      omega
    exact ⟨k', by rw [Function.update_of_ne hne, hk']⟩
  inj {k₁ k₂ i} h₁ h₂ := by
    have hne : ∀ {k'}, Function.update slot k none k' = some i → k' ≠ k := by
      rintro k' hk' rfl
      rw [Function.update_self] at hk'
      cases hk'
    rw [Function.update_of_ne (hne h₁)] at h₁
    rw [Function.update_of_ne (hne h₂)] at h₂
    exact h.inj h₁ h₂

/-- Overwriting the entry of `k` with the one of the last place and dropping
that one: the key of the last place has the place of `k`. -/
theorem moveLast (h : Slots slot e l) {back : κ} (hk : slot k = some i)
    (hi : i ≠ l.length - 1) (hback : slot back = some (l.length - 1))
    (hb : l[l.length - 1]? = some b) :
    Slots (Function.update (Function.update slot k none) back (some i)) e
      (l.set i b).dropLast := by
  have hne : back ≠ k := by
    rintro rfl
    exact hi (Option.some.inj (hk.symm.trans hback))
  have hlt := h.lt_length hk
  -- where the other keys are
  have hrest : ∀ {k' j}, k' ≠ back →
      Function.update (Function.update slot k none) back (some i) k' = some j →
        slot k' = some j ∧ j ≠ i ∧ j < l.length - 1 := by
    intro k' j hk'back hk'
    rw [Function.update_of_ne hk'back] at hk'
    have hk'k : k' ≠ k := by
      rintro rfl
      rw [Function.update_self] at hk'
      cases hk'
    rw [Function.update_of_ne hk'k] at hk'
    have hlast : j ≠ l.length - 1 := fun hj => hk'back (h.inj hk' (hj ▸ hback))
    have hjlt := h.lt_length hk'
    exact ⟨hk', fun hj => hk'k (h.inj hk' (hj ▸ hk)), by omega⟩
  refine ⟨fun {k' j} hk' => ?_, fun j hj => ?_, fun {k₁ k₂ j} h₁ h₂ => ?_⟩
  · rw [List.getElem?_dropLast, List.length_set]
    by_cases hk'back : k' = back
    · subst hk'back
      rw [Function.update_self, Option.some.injEq] at hk'
      subst hk'
      rw [if_pos (by omega), List.getElem?_set_self hlt]
      exact ⟨b, rfl, h.entry_of hback hb⟩
    · obtain ⟨hslot, hji, hjlt⟩ := hrest hk'back hk'
      rw [if_pos hjlt, List.getElem?_set_ne (Ne.symm hji)]
      exact h.entry hslot
  · rw [List.length_dropLast, List.length_set] at hj
    by_cases hji : j = i
    · exact ⟨back, by rw [Function.update_self, hji]⟩
    · obtain ⟨k', hk'⟩ := h.owner j (by omega)
      have hk'k : k' ≠ k := by
        rintro rfl
        exact hji (Option.some.inj (hk'.symm.trans hk))
      have hk'back : k' ≠ back := by
        rintro rfl
        have hlast := Option.some.inj (hk'.symm.trans hback)
        omega
      exact ⟨k', by rw [Function.update_of_ne hk'back, Function.update_of_ne hk'k, hk']⟩
  · by_cases hk₁ : k₁ = back <;> by_cases hk₂ : k₂ = back
    · rw [hk₁, hk₂]
    · rw [hk₁, Function.update_self, Option.some.injEq] at h₁
      exact absurd h₁.symm (hrest hk₂ h₂).2.1
    · rw [hk₂, Function.update_self, Option.some.injEq] at h₂
      exact absurd h₂.symm (hrest hk₁ h₁).2.1
    · exact h.inj (hrest hk₁ h₁).1 (hrest hk₂ h₂).1

end Slots

end Netpoll
