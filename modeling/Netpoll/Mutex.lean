import Mathlib.Logic.Function.Basic

/-!
# Mutual exclusion

Threads in critical sections of one lock. `Exclusive owner holds` says that
whoever is in a critical section owns the lock, so there is at most one
such thread. The rules are those of the three things that a thread does:
it takes a free lock, gives it back, or goes on.

A thread may also be in a critical section further down its call stack.
`Held owner depth` is the same for the number of critical sections that
each thread is in: one for the owner, none for the others.
-/

namespace Netpoll

variable {T : Type*} {owner : Option T} {holds : T → Bool}

/-- A thread in a critical section owns the lock. -/
def Exclusive (owner : Option T) (holds : T → Bool) : Prop :=
  ∀ t, holds t = true → owner = some t

namespace Exclusive

theorem unique {t u : T} (h : Exclusive owner holds) (ht : holds t = true)
    (hu : holds u = true) : t = u :=
  Option.some.inj ((h t ht).symm.trans (h u hu))

variable [DecidableEq T] {t : T} {b : Bool}

theorem goOn (h : Exclusive owner holds) (hb : b = true → holds t = true) :
    Exclusive owner (Function.update holds t b) := by
  intro u hu
  by_cases hut : u = t
  · subst hut
    rw [Function.update_self] at hu
    exact h u (hb hu)
  · rw [Function.update_of_ne hut] at hu
    exact h u hu

theorem acquire (h : Exclusive none holds) : Exclusive (some t) (Function.update holds t b) := by
  intro u hu
  by_cases hut : u = t
  · rw [hut]
  · rw [Function.update_of_ne hut] at hu
    cases h u hu

theorem release (h : Exclusive owner holds) (ht : holds t = true) :
    Exclusive none (Function.update holds t false) := by
  intro u hu
  by_cases hut : u = t
  · subst hut
    rw [Function.update_self] at hu
    cases hu
  · rw [Function.update_of_ne hut] at hu
    exact absurd (h.unique hu ht) hut

end Exclusive

variable {depth : T → Nat}

/-- The owner is in one critical section, the other threads are in none. -/
def Held [DecidableEq T] (owner : Option T) (depth : T → Nat) : Prop :=
  ∀ t, depth t = if owner = some t then 1 else 0

namespace Held

variable [DecidableEq T] {t : T} {n : Nat}

theorem owner_of_pos (h : Held owner depth) (ht : 0 < depth t) : owner = some t := by
  by_contra hne
  rw [h t, if_neg hne] at ht
  exact Nat.lt_irrefl 0 ht

theorem depth_owner (h : Held (some t) depth) : depth t = 1 := by
  rw [h t, if_pos rfl]

theorem goOn (h : Held owner depth) (hn : n = depth t) :
    Held owner (Function.update depth t n) := by
  rw [hn, Function.update_eq_self]
  exact h

theorem acquire (h : Held none depth) (hn : n = depth t + 1) :
    Held (some t) (Function.update depth t n) := by
  intro u
  by_cases hut : u = t
  · subst hut
    rw [Function.update_self, if_pos rfl, hn, h u, if_neg nofun]
  · rw [Function.update_of_ne hut, h u, if_neg nofun,
      if_neg fun heq => hut (Option.some.inj heq).symm]

theorem release (h : Held owner depth) (hn : depth t = n + 1) :
    Held none (Function.update depth t n) := by
  obtain rfl : owner = some t := h.owner_of_pos (hn.symm ▸ Nat.succ_pos n)
  intro u
  rw [if_neg nofun]
  by_cases hut : u = t
  · subst hut
    rw [Function.update_self]
    exact Nat.succ.inj (hn.symm.trans h.depth_owner)
  · rw [Function.update_of_ne hut, h u, if_neg fun heq => hut (Option.some.inj heq).symm]

end Held

end Netpoll
