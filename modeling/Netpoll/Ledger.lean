import Netpoll.Runs

/-!
# Ledgers of resources

What a component made, what it still holds and how often it has disposed
of each thing. A resource is accounted for as long as it has been
disposed of once, or is held and has not been disposed of. A component
can only dispose of what it holds, so what is out of the books stays out
(`Ledger.Evolves`): whether a run ends with balanced books is decided
step by step (`Run.balanced_iff`).
-/

namespace Netpoll

variable {α σ ι : Type*}

structure Ledger (α : Type*) where
  made : α → Prop
  held : α → Prop
  uses : α → Nat

namespace Ledger

def Balanced (L : Ledger α) : Prop := ∀ x, L.made x → L.uses x = 1 ∨ L.uses x = 0 ∧ L.held x

/-- Nothing is disposed of or held again that was neither held nor unused. -/
structure Evolves (L L' : Ledger α) : Prop where
  made : ∀ x, L.made x → L'.made x
  uses : ∀ x, L.uses x ≤ L'.uses x
  used : ∀ x, L.made x → L.uses x ≠ L'.uses x → L.held x
  held : ∀ x, L.made x → L'.held x → L.held x

theorem Evolves.refl (L : Ledger α) : L.Evolves L where
  made := fun _ h => h
  uses := fun _ => le_rfl
  used := fun _ _ h => absurd rfl h
  held := fun _ _ h => h

theorem Evolves.trans {L₁ L₂ L₃ : Ledger α} (h : L₁.Evolves L₂) (h' : L₂.Evolves L₃) :
    L₁.Evolves L₃ where
  made := fun x hx => h'.made x (h.made x hx)
  uses := fun x => (h.uses x).trans (h'.uses x)
  used := by
    intro x hx hne
    by_cases h12 : L₁.uses x = L₂.uses x
    · exact h.held x hx (h'.used x (h.made x hx) (h12 ▸ hne))
    · exact h.used x hx h12
  held := fun x hx h3 => h.held x hx (h'.held x (h.made x hx) h3)

theorem Evolves.balanced {L L' : Ledger α} (h : L.Evolves L') (hb : L'.Balanced) : L.Balanced := by
  intro x hx
  have hle := h.uses x
  by_cases h1 : L.uses x = 1
  · exact .inl h1
  · rcases hb x (h.made x hx) with h1' | ⟨h0', hheld⟩
    · exact .inr ⟨by omega, h.used x hx (by omega)⟩
    · exact .inr ⟨by omega, h.held x hx hheld⟩

theorem balanced_iff_of_not_held {L : Ledger α} (h : ∀ x, L.made x → L.uses x = 0 → ¬ L.held x) :
    L.Balanced ↔ ∀ x, L.made x → L.uses x = 1 := by
  constructor
  · intro hb x hx
    rcases hb x hx with h1 | ⟨h0, hheld⟩
    · exact h1
    · exact absurd hheld (h x hx h0)
  · exact fun hall x hx => .inl (hall x hx)

end Ledger

/-- A run ends with balanced books if every step keeps them balanced,
where `C` says which steps do. -/
theorem Run.balanced_iff {R : σ → ι → σ → Prop} {L : σ → Ledger α} {I : σ → Prop}
    {C : σ → ι → Prop} (hdet : ∀ s l t u, R s l t → R s l u → t = u)
    (hstep : ∀ s l t, I s → R s l t → I t ∧ (L s).Evolves (L t))
    (hkeep : ∀ s l t, I s → (L s).Balanced → R s l t → ((L t).Balanced ↔ C s l))
    {s t : σ} {ls : List ι} (h : Run R s ls t) (h0 : I s) (hb : (L s).Balanced) :
    (L t).Balanced ↔ EveryStep R C s ls := by
  induction h with
  | nil => exact iff_of_true hb everyStep_nil
  | @snoc t u ls l hr hs ih =>
      have hI : I t := hr.invariant (fun a m b ha hab => (hstep a m b ha hab).1) h0
      rw [everyStep_snoc hdet hr hs, ← ih]
      constructor
      · intro hu
        have ht := (hstep t l u hI hs).2.balanced hu
        exact ⟨ht, (hkeep t l u hI ht hs).mp hu⟩
      · rintro ⟨ht, hC⟩
        exact (hkeep t l u hI ht hs).mpr hC

end Netpoll
