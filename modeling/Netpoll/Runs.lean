import Mathlib.Data.List.Infix

/-!
# Runs of a labelled transition relation

A run is the forward closure of a step relation `R : σ → ι → σ → Prop`:
the labels are listed in execution order and a new step is appended at
the end, so an invariant is discharged by its base case and one step
lemma (`Run.invariant`).

Two ways to speak about a whole run are used throughout. `Throughout`
asks a property of every state that the run passes through, `EveryStep`
asks a guard of every step taken (of the state before it and its
label). `everyStep_iff_everyStep` and `throughout_iff_everyStep` are the
rules that make a guard *exact*: if guarded steps keep an invariant that
implies the property, and an unguarded step breaks the property at once,
then a run keeps the property exactly when all its steps meet the guard.
-/

namespace Netpoll

variable {σ ι : Type*} {R : σ → ι → σ → Prop}

/-- `Run R s ls t`: the steps labelled `ls`, in order, lead from `s` to `t`. -/
inductive Run (R : σ → ι → σ → Prop) : σ → List ι → σ → Prop
  | nil (s : σ) : Run R s [] s
  | snoc {s t u : σ} {ls : List ι} {l : ι} :
      Run R s ls t → R t l u → Run R s (ls ++ [l]) u

/-- The steps of `R` that meet the guard `C`. -/
def Guarded (R : σ → ι → σ → Prop) (C : σ → ι → Prop) : σ → ι → σ → Prop :=
  fun s l t => R s l t ∧ C s l

theorem Run.invariant {I : σ → Prop} (hstep : ∀ s l t, I s → R s l t → I t)
    {s t : σ} {ls : List ι} (h : Run R s ls t) (h0 : I s) : I t := by
  induction h with
  | nil => exact h0
  | snoc _ hs ih => exact hstep _ _ _ ih hs

/-- An invariant that the steps with labels in `P` keep. -/
theorem Run.invariant_of_labels {I : σ → Prop} {P : ι → Prop}
    (hstep : ∀ s l t, P l → I s → R s l t → I t) {s t : σ} {ls : List ι} (h : Run R s ls t)
    (hls : ∀ l ∈ ls, P l) (h0 : I s) : I t := by
  induction h with
  | nil => exact h0
  | @snoc _ _ ls l _ hs ih =>
      have hl : P l := hls l (by simp)
      exact hstep _ _ _ hl (ih fun m hm => hls m (List.mem_append_left _ hm)) hs

theorem Run.cons {s t u : σ} {l : ι} {ls : List ι} (h1 : R s l t)
    (h2 : Run R t ls u) : Run R s (l :: ls) u := by
  induction h2 with
  | nil => exact (Run.nil s).snoc h1
  | @snoc u v ls' l' _ hs ih => exact ih.snoc hs

theorem Run.append {s t u : σ} {ls ms : List ι} (h1 : Run R s ls t) (h2 : Run R t ms u) :
    Run R s (ls ++ ms) u := by
  induction h2 with
  | nil => exact (List.append_nil ls).symm ▸ h1
  | @snoc u v ms' m _ hs ih => exact List.append_assoc ls ms' [m] ▸ ih.snoc hs

theorem Run.snoc_inv {s u : σ} {l : ι} {ls : List ι}
    (h : Run R s (ls ++ [l]) u) : ∃ t, Run R s ls t ∧ R t l u := by
  generalize hls : ls ++ [l] = ms at h
  cases h with
  | nil => simp at hls
  | @snoc t _ ls' l' hr hs =>
      obtain ⟨rfl, rfl⟩ := List.append_inj' hls rfl |>.imp_right List.singleton_inj.mp
      exact ⟨t, hr, hs⟩

theorem Run.nil_inv {s t : σ} (h : Run R s [] t) : s = t := by
  generalize hls : ([] : List ι) = ms at h
  cases h with
  | nil => rfl
  | snoc => simp at hls

theorem Run.cons_inv {s u : σ} {l : ι} {ls : List ι}
    (h : Run R s (l :: ls) u) : ∃ t, R s l t ∧ Run R t ls u := by
  induction ls using List.reverseRecOn generalizing u with
  | nil =>
      obtain ⟨t, hr, hs⟩ := (show Run R s ([] ++ [l]) u from h).snoc_inv
      obtain rfl : s = t := hr.nil_inv
      exact ⟨u, hs, .nil u⟩
  | append_singleton ms m ih =>
      obtain ⟨v, hr, hs⟩ := (show Run R s ((l :: ms) ++ [m]) u from h).snoc_inv
      obtain ⟨t, h1, h2⟩ := ih hr
      exact ⟨t, h1, h2.snoc hs⟩

theorem Run.of_foldlM {f : σ → ι → Option σ} {s t : σ} {ls : List ι}
    (h : ls.foldlM f s = some t) : Run (fun s l t => f s l = some t) s ls t := by
  induction ls generalizing s with
  | nil =>
      obtain rfl := Option.some.inj h
      exact .nil s
  | cons l ls ih =>
      rw [List.foldlM_cons] at h
      obtain ⟨u, hu, hrest⟩ := Option.bind_eq_some_iff.mp h
      exact .cons hu (ih hrest)

theorem Run.exists_of_foldlM (f : σ → ι → Option σ) (s : σ) (ls : List ι) (P : σ → Bool)
    (h : (ls.foldlM f s).any P = true) :
    ∃ t, Run (fun s l t => f s l = some t) s ls t ∧ P t = true := by
  cases ht : ls.foldlM f s with
  | none =>
      rw [ht] at h
      cases h
  | some t =>
      rw [ht] at h
      exact ⟨t, .of_foldlM ht, h⟩

theorem Run.of_foldlM_ok {ε : Type*} {f : σ → ι → Except ε σ} {s t : σ} {ls : List ι}
    (h : ls.foldlM f s = .ok t) : Run (fun s l t => f s l = .ok t) s ls t := by
  induction ls generalizing s with
  | nil =>
      obtain rfl := Except.ok.inj h
      exact .nil s
  | cons l ls ih =>
      rw [List.foldlM_cons] at h
      cases hl : f s l with
      | ok u =>
          rw [hl] at h
          exact .cons hl (ih h)
      | error e =>
          rw [hl] at h
          cases h

/-! ## Properties of whole runs -/

/-- Every state that the labels `ls` can lead to on the way satisfies `P`. -/
def Throughout (R : σ → ι → σ → Prop) (P : σ → Prop) (s : σ) (ls : List ι) : Prop :=
  ∀ pre t, pre <+: ls → Run R s pre t → P t

/-- Every step taken along `ls` meets the guard `C`. -/
def EveryStep (R : σ → ι → σ → Prop) (C : σ → ι → Prop) (s : σ)
    (ls : List ι) : Prop :=
  ∀ pre l t u, pre ++ [l] <+: ls → Run R s pre t → R t l u → C t l

theorem EveryStep.guarded {C : σ → ι → Prop} {s t : σ} {ls pre : List ι}
    (h : EveryStep R C s ls) (hpre : pre <+: ls) (hrun : Run R s pre t) :
    Run (Guarded R C) s pre t := by
  induction hrun with
  | nil => exact .nil _
  | @snoc t u ls' l hr hs ih =>
      have hpre' : ls' <+: ls := (List.prefix_append ls' [l]).trans hpre
      exact (ih hpre').snoc ⟨hs, h ls' l t u hpre hr hs⟩

theorem everyStep_nil {C : σ → ι → Prop} {s : σ} : EveryStep R C s [] := by
  intro pre l t u hpre
  exact absurd (List.prefix_nil.mp hpre) (by simp)

theorem everyStep_of_labels {C : σ → ι → Prop} {s : σ} {ls : List ι}
    (h : ∀ l ∈ ls, ∀ t, C t l) : EveryStep R C s ls := by
  intro pre l t u hpre _ _
  exact h l (hpre.subset (List.mem_append_right pre List.mem_cons_self)) t

theorem everyStep_cons {C : σ → ι → Prop} {s : σ} {l : ι} {ls : List ι}
    (h : ∀ u, R s l u → C s l ∧ EveryStep R C u ls) : EveryStep R C s (l :: ls) := by
  intro pre m t u hpre hrun hs
  cases pre with
  | nil =>
      obtain ⟨rfl, -⟩ := List.cons_prefix_cons.mp hpre
      obtain rfl := hrun.nil_inv
      exact (h u hs).1
  | cons p ps =>
      obtain ⟨rfl, hps⟩ := List.cons_prefix_cons.mp hpre
      obtain ⟨v, hv, hrest⟩ := hrun.cons_inv
      exact (h v hv).2 ps m t u hps hrest hs

theorem Run.det (hdet : ∀ s l t u, R s l t → R s l u → t = u) {s t u : σ} {ls : List ι}
    (h : Run R s ls t) (h' : Run R s ls u) : t = u := by
  induction h generalizing u with
  | nil => exact h'.nil_inv
  | snoc _ hs ih =>
      obtain ⟨v, hv, hvu⟩ := h'.snoc_inv
      obtain rfl := ih hv
      exact hdet _ _ _ _ hs hvu

theorem everyStep_snoc {C : σ → ι → Prop} (hdet : ∀ s l t u, R s l t → R s l u → t = u)
    {s t u : σ} {l : ι} {ls : List ι} (h : Run R s ls t) (hs : R t l u) :
    EveryStep R C s (ls ++ [l]) ↔ EveryStep R C s ls ∧ C t l := by
  constructor
  · intro hC
    refine ⟨fun pre m v w hpre => hC pre m v w (hpre.trans (List.prefix_append ls [l])), ?_⟩
    exact hC ls l t u List.prefix_rfl h hs
  · rintro ⟨hC, hl⟩ pre m v w hpre hrun hm
    rcases List.prefix_concat_iff.mp hpre with heq | hpre'
    · obtain ⟨rfl, rfl⟩ := List.append_inj' heq rfl |>.imp_right List.singleton_inj.mp
      exact h.det hdet hrun ▸ hl
    · exact hC pre m v w hpre' hrun hm

theorem everyStep_cons_iff {C : σ → ι → Prop} (hdet : ∀ s l t u, R s l t → R s l u → t = u)
    {s t : σ} {l : ι} {ls : List ι} (hs : R s l t) :
    EveryStep R C s (l :: ls) ↔ C s l ∧ EveryStep R C t ls := by
  constructor
  · intro h
    refine ⟨h [] l s t (List.prefix_append [l] ls) (.nil s) hs, fun pre m u v hpre hr hm => ?_⟩
    exact h (l :: pre) m u v (List.cons_prefix_cons.mpr ⟨rfl, hpre⟩) (.cons hs hr) hm
  · rintro ⟨hC, h⟩
    refine everyStep_cons fun u hu => ?_
    obtain rfl := hdet _ _ _ _ hs hu
    exact ⟨hC, h⟩

/-- The guard of every step, evaluated along the run that a step function computes. -/
def stepsMeet (f : σ → ι → Option σ) (C : σ → ι → Prop) [∀ s l, Decidable (C s l)] :
    σ → List ι → Bool
  | _, [] => true
  | s, l :: ls =>
    match f s l with
    | some t => decide (C s l) && stepsMeet f C t ls
    | none => true

theorem everyStep_of_stepsMeet {f : σ → ι → Option σ} {C : σ → ι → Prop}
    [∀ s l, Decidable (C s l)] {s : σ} {ls : List ι} (h : stepsMeet f C s ls = true) :
    EveryStep (fun s l t => f s l = some t) C s ls := by
  induction ls generalizing s with
  | nil => exact everyStep_nil
  | cons l ls ih =>
      refine everyStep_cons fun u hu => ?_
      rw [stepsMeet, hu, Bool.and_eq_true, decide_eq_true_eq] at h
      exact ⟨h.1, ih h.2⟩

/-- A property of every state, evaluated along the run that a step function computes. -/
def statesMeet (f : σ → ι → Option σ) (P : σ → Prop) [DecidablePred P] : σ → List ι → Bool
  | s, [] => decide (P s)
  | s, l :: ls =>
    decide (P s) && match f s l with
      | some t => statesMeet f P t ls
      | none => true

theorem throughout_of_statesMeet {f : σ → ι → Option σ} {P : σ → Prop} [DecidablePred P] {s : σ}
    {ls : List ι} (h : statesMeet f P s ls = true) :
    Throughout (fun s l t => f s l = some t) P s ls := by
  induction ls generalizing s with
  | nil =>
      intro pre t hpre hrun
      obtain rfl := List.prefix_nil.mp hpre
      obtain rfl := hrun.nil_inv
      exact of_decide_eq_true h
  | cons l ls ih =>
      rw [statesMeet, Bool.and_eq_true, decide_eq_true_eq] at h
      intro pre t hpre hrun
      cases pre with
      | nil =>
          obtain rfl := hrun.nil_inv
          exact h.1
      | cons p ps =>
          obtain ⟨rfl, hps⟩ := List.cons_prefix_cons.mp hpre
          obtain ⟨u, hu, hrest⟩ := hrun.cons_inv
          have h2 := h.2
          rw [hu] at h2
          exact ih h2 ps t hps hrest

/-- The run that a step function and a guard compute, with a test of its end. -/
def runsTo {ε : Type*} (f : σ → ι → Except ε σ) (C : σ → ι → Bool) (P : σ → Bool) :
    σ → List ι → Bool
  | s, [] => P s
  | s, l :: ls =>
    C s l && match f s l with
      | .ok t => runsTo f C P t ls
      | .error _ => false

theorem exists_run_of_runsTo {ε : Type*} {f : σ → ι → Except ε σ} {C : σ → ι → Bool}
    {P : σ → Bool} {s : σ} {ls : List ι} (hR : ∀ s l t, C s l = true → f s l = .ok t → R s l t)
    (h : runsTo f C P s ls = true) : ∃ t, Run R s ls t ∧ P t = true := by
  induction ls generalizing s with
  | nil => exact ⟨s, .nil s, h⟩
  | cons l ls ih =>
      rw [runsTo, Bool.and_eq_true] at h
      cases hf : f s l with
      | ok u =>
          rw [hf] at h
          obtain ⟨t, ht, hP⟩ := ih h.2
          exact ⟨t, .cons (hR s l u h.1 hf) ht, hP⟩
      | error e =>
          rw [hf] at h
          cases h.2

theorem everyStep_congr {C C' : σ → ι → Prop} {I : σ → Prop} {s : σ} (h0 : I s)
    (hstep : ∀ s l t, I s → R s l t → I t) (h : ∀ s l, I s → (C s l ↔ C' s l)) {ls : List ι} :
    EveryStep R C s ls ↔ EveryStep R C' s ls := by
  constructor
  · intro hC pre l t u hpre hrun hs
    exact (h t l (hrun.invariant hstep h0)).mp (hC pre l t u hpre hrun hs)
  · intro hC pre l t u hpre hrun hs
    exact (h t l (hrun.invariant hstep h0)).mpr (hC pre l t u hpre hrun hs)

/-- The exact-guard rule for transitions. `I` carries the run, `Q` is what
is claimed of every step, `C` is the guard; a step outside the guard
falsifies `Q`. -/
theorem everyStep_iff_everyStep {C : σ → ι → Prop} {Q : σ → ι → σ → Prop} {I : σ → Prop}
    {s : σ} (h0 : I s) (hstep : ∀ s l t, I s → C s l → R s l t → I t ∧ Q s l t)
    (hbreak : ∀ s l t, I s → ¬ C s l → R s l t → ¬ Q s l t) {ls : List ι} :
    EveryStep R (fun s l => ∀ t, R s l t → Q s l t) s ls ↔ EveryStep R C s ls := by
  constructor
  · intro h
    -- a first step outside the guard is reached by guarded steps only
    have hinv : ∀ pre t, pre <+: ls → Run R s pre t → I t := by
      intro pre t hpre hrun
      induction hrun with
      | nil => exact h0
      | @snoc t u ls' l hr hs ih =>
          have hIt := ih ((List.prefix_append ls' [l]).trans hpre)
          by_cases hC : C t l
          · exact (hstep t l u hIt hC hs).1
          · exact absurd (h ls' l t u hpre hr hs u hs) (hbreak t l u hIt hC hs)
    intro pre l t u hpre hr hs
    by_contra hC
    have hIt := hinv pre t ((List.prefix_append pre [l]).trans hpre) hr
    exact hbreak t l u hIt hC hs (h pre l t u hpre hr hs u hs)
  · intro h pre l t u hpre hr hs v hv
    have hIt := (h.guarded ((List.prefix_append pre [l]).trans hpre) hr).invariant
      (fun a m b ha hb => (hstep a m b ha hb.2 hb.1).1) h0
    exact (hstep t l v hIt (h pre l t u hpre hr hs) hv).2

theorem throughout_iff_steps {P : σ → Prop} {s : σ} {ls : List ι} :
    Throughout R P s ls ↔ P s ∧ EveryStep R (fun s l => ∀ t, R s l t → P t) s ls := by
  constructor
  · intro h
    refine ⟨h [] s (List.nil_prefix) (.nil s), ?_⟩
    intro pre l t u hpre hr hs v hv
    exact h _ v hpre (hr.snoc hv)
  · rintro ⟨h0, h⟩ pre t hpre hrun
    cases hrun with
    | nil => exact h0
    | @snoc u _ ls' l hr hs => exact h ls' l u t hpre hr hs t hs

/-- The exact-guard rule for states: a step outside the guard falsifies
`P` in the state it reaches. -/
theorem throughout_iff_everyStep {C : σ → ι → Prop} {I P : σ → Prop} {s : σ}
    (h0 : I s) (hstep : ∀ s l t, I s → C s l → R s l t → I t)
    (hI : ∀ s, I s → P s)
    (hbreak : ∀ s l t, I s → ¬ C s l → R s l t → ¬ P t) {ls : List ι} :
    Throughout R P s ls ↔ EveryStep R C s ls := by
  have hsteps : EveryStep R (fun s l => ∀ t, R s l t → P t) s ls ↔ EveryStep R C s ls :=
    everyStep_iff_everyStep h0
      (fun a l b ha hC hs => ⟨hstep a l b ha hC hs, hI b (hstep a l b ha hC hs)⟩) hbreak
  rw [throughout_iff_steps, hsteps]
  exact and_iff_right (hI s h0)

end Netpoll
