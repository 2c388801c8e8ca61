import Netpoll.LoopRuns

/-!
# The quit flag across `loop()`

`quit()` sets `m_quit`, and `loop()` clears it when it begins. The system
here is the event loop of `Netpoll.EventLoop`, whose other threads may call
`quit()` from its construction on, with two things remembered: that
`loop()` has been called, which happens once, and that some call of `quit()`
has returned.

A request is lost if a call has returned, the flag is clear and the loop
goes on. No request is lost if no call sets the flag before `loop()` has
cleared it (`FlagKept.step`). That condition cannot be weakened: whatever the
state, a call that sets the flag too early can be lost, by the loop thread
going on first (`lost_after`).
-/

namespace Netpoll

open EventLoop

variable {T : Type*}

/-- An event loop, with the history of `loop()` and of `quit()`. -/
structure WatchedLoop (T : Type*) where
  loop : EventLoop T
  /-- History: `loop()` has been called. -/
  entered : Bool
  /-- History: a call of `quit()` has returned. -/
  returned : Bool

/-- The step is the call of `loop()`. -/
def EventLoop.Act.isLoop : EventLoop.Act T → Bool
  | .loop => true
  | _ => false

/-- The steps with which a call of `quit()` returns. -/
def EventLoop.quitReturns (s : EventLoop T) : EventLoop.Act T → Bool
  | .quitLoad _ => s.quit
  | .quitStore t => t.isNone
  | .quitWakeup _ => true
  | _ => false

/-- In the `while` of `loop()`, its test included. -/
def LoopPc.inWhile : LoopPc → Bool
  | .outside | .starting | .exited => false
  | _ => true

namespace WatchedLoop

def new : WatchedLoop T := ⟨.new, false, false⟩

def exec [DecidableEq T] (q : WatchedLoop T) (a : EventLoop.Act T) : Option (WatchedLoop T) :=
  if a.isLoop && q.entered then none
  else (q.loop.exec a).map fun s =>
    ⟨s, q.entered || a.isLoop, q.returned || q.loop.quitReturns a⟩

/-- A call of `quit()` has returned, the flag is clear, and the loop runs on
or is blocked in `poll`. -/
def Lost (q : WatchedLoop T) : Prop :=
  q.returned = true ∧ q.loop.quit = false ∧ q.loop.pc.inWhile = true

/-- `loop()` has not cleared the flag yet. -/
def Uncleared (q : WatchedLoop T) : Prop :=
  q.loop.pc = .outside ∧ q.entered = false ∨ q.loop.pc = .starting

/-- The flag is not set before `loop()` has cleared it. -/
def SetsLate (q : WatchedLoop T) : EventLoop.Act T → Prop
  | .quitStore _ => ¬ q.Uncleared
  | _ => True

instance (q : WatchedLoop T) : Decidable q.Uncleared := inferInstanceAs (Decidable (_ ∨ _))

instance (q : WatchedLoop T) (a : EventLoop.Act T) : Decidable (q.SetsLate a) :=
  match a with
  | .quitStore _ => inferInstanceAs (Decidable (¬ q.Uncleared))
  | .exchange _ | .link _ | .wakeup _ | .quitLoad _ | .quitWakeup _ | .loop | .clearQuit
  | .testQuit | .pollReturn _ | .wakeupRead _ | .endHandling | .testEmpty | .dequeue | .endFunc
  | .destroyFunc | .leave => isTrue trivial

end WatchedLoop

def WatchStep [DecidableEq T] (q : WatchedLoop T) (a : EventLoop.Act T) (q' : WatchedLoop T) :
    Prop :=
  q.exec a = some q'

namespace WatchedLoop

variable [DecidableEq T] {q q' : WatchedLoop T} {a : EventLoop.Act T} {t : Option T}

theorem watchStep_iff :
    WatchStep q a q' ↔ q.loop.exec a = some q'.loop ∧ (a.isLoop = true → q.entered = false) ∧
      q'.entered = (q.entered || a.isLoop) ∧
      q'.returned = (q.returned || q.loop.quitReturns a) := by
  unfold WatchStep exec
  constructor
  · intro h
    split at h
    · cases h
    · rename_i hno
      obtain ⟨s, hs, rfl⟩ := Option.map_eq_some_iff.mp h
      refine ⟨hs, fun ha => ?_, rfl, rfl⟩
      simpa [ha] using hno
  · rintro ⟨hs, hno, he, hr⟩
    have hcond : ¬ (a.isLoop && q.entered) = true := by
      rw [Bool.and_eq_true]
      rintro ⟨ha, hent⟩
      rw [hno ha] at hent
      cases hent
    rw [if_neg hcond, hs, Option.map_some, ← he, ← hr]

/-! ## Nothing is lost -/

/-- The flag is clear until `loop()` has cleared it, and set as soon as a
call has set it afterwards. -/
structure FlagKept (q : WatchedLoop T) : Prop where
  entered : q.entered = false → q.loop.pc = .outside
  uncleared : q.Uncleared → q.loop.quit = false
  set : (q.returned = true ∨ ∃ t, q.loop.stage t = .quitWake) → q.loop.quit = true

omit [DecidableEq T] in
theorem FlagKept.new : FlagKept (new : WatchedLoop T) where
  entered _ := rfl
  uncleared _ := rfl
  set := by
    rintro (h | ⟨t, h⟩) <;> cases h

omit [DecidableEq T] in
theorem FlagKept.not_lost (h : FlagKept q) : ¬ q.Lost := by
  rintro ⟨hret, hquit, -⟩
  rw [h.set (Or.inl hret)] at hquit
  cases hquit

omit [DecidableEq T] in
theorem FlagKept.goOn (h : FlagKept q) {s : EventLoop T} {entered : Bool}
    (hquit : s.quit = q.loop.quit)
    (hstage : ∀ t, s.stage t = .quitWake → q.loop.stage t = .quitWake)
    (hent : entered = false → s.pc = .outside)
    (huncl : (⟨s, entered, q.returned⟩ : WatchedLoop T).Uncleared → q.Uncleared) :
    FlagKept ⟨s, entered, q.returned⟩ where
  entered := hent
  uncleared hu := hquit.trans (h.uncleared (huncl hu))
  set := by
    rintro (hret | ⟨t, ht⟩)
    · exact hquit.trans (h.set (Or.inl hret))
    · exact hquit.trans (h.set (Or.inr ⟨t, hstage t ht⟩))

theorem quitWake_of_setStage {s : EventLoop T} {u : Option T} {stage : CallStage}
    (hne : stage ≠ .quitWake) (hu : (s.setStage t stage).stage u = .quitWake) :
    s.stage u = .quitWake := by
  rw [stage_setStage] at hu
  split at hu
  · exact absurd hu hne
  · exact hu

theorem FlagKept.call (h : FlagKept q) {s : EventLoop T} {stage : CallStage}
    (hstage : s.stage = (q.loop.setStage t stage).stage) (hne : stage ≠ .quitWake)
    (hpc : s.pc = q.loop.pc) (hquit : s.quit = q.loop.quit) :
    FlagKept ⟨s, q.entered, q.returned⟩ := by
  refine h.goOn hquit (fun u hu => ?_) (fun he => hpc.trans (h.entered he)) ?_
  · rw [hstage] at hu
    exact quitWake_of_setStage hne hu
  · rintro (⟨hout, he⟩ | hst)
    · exact Or.inl ⟨hpc ▸ hout, he⟩
    · exact Or.inr (hpc ▸ hst)

omit [DecidableEq T] in
theorem FlagKept.advance (h : FlagKept q) {s : EventLoop T} (hpc : q.loop.pc ≠ .outside)
    (hst : s.pc ≠ .starting) (hquit : s.quit = q.loop.quit) (hstage : s.stage = q.loop.stage) :
    FlagKept ⟨s, q.entered, q.returned⟩ := by
  have hent : q.entered = true := by
    rw [← Bool.not_eq_false]
    exact fun he => hpc (h.entered he)
  refine h.goOn hquit (fun u hu => hstage ▸ hu) (fun he => ?_) ?_
  · rw [hent] at he
    cases he
  · rintro (⟨-, he⟩ | hs)
    · cases hent.symm.trans he
    · exact absurd hs hst

theorem FlagKept.step (h : FlagKept q) (hg : q.SetsLate a) (hs : WatchStep q a q') :
    FlagKept q' := by
  obtain ⟨hex, hno, he, hr⟩ := watchStep_iff.mp hs
  obtain ⟨s, e, r⟩ := q'
  dsimp only at hex he hr
  cases effect_of_exec hex with
  | exchange | link | wakeup =>
      simp only [EventLoop.Act.isLoop, quitReturns, Bool.or_false] at he hr
      subst he hr
      exact h.call rfl nofun rfl rfl
  | @quitLoad t hidle hmay =>
      simp only [EventLoop.Act.isLoop, Bool.or_false] at he
      subst he
      refine ⟨h.entered, h.uncleared, ?_⟩
      rintro (hret | ⟨u, hu⟩)
      · rw [hr, Bool.or_eq_true] at hret
        exact hret.elim (fun hret => h.set (Or.inl hret)) id
      · refine h.set (Or.inr ⟨u, quitWake_of_setStage ?_ hu⟩)
        split <;> nofun
  | quitStore =>
      simp only [EventLoop.Act.isLoop, Bool.or_false] at he
      subst he
      exact ⟨h.entered, fun hu => absurd hu hg, fun _ => rfl⟩
  | @quitWakeup t hwake =>
      simp only [EventLoop.Act.isLoop, Bool.or_false] at he
      subst he
      exact ⟨h.entered, h.uncleared, fun _ => h.set (Or.inr ⟨t, hwake⟩)⟩
  | loop hidle hpc =>
      simp only [quitReturns, Bool.or_false] at hr
      subst he hr
      refine h.goOn rfl (fun _ ht => ht) (fun hent => ?_) fun _ => Or.inl ⟨hpc, hno rfl⟩
      simp [EventLoop.Act.isLoop] at hent
  | clearQuit hidle hpc =>
      -- the flag was clear before, so no call has set it
      have hquit := h.uncleared (Or.inr hpc)
      simp only [EventLoop.Act.isLoop, quitReturns, Bool.or_false] at he hr
      subst he hr
      exact h.advance (by rw [hpc]; nofun) nofun hquit.symm rfl
  | testQuit hidle hpc =>
      simp only [EventLoop.Act.isLoop, quitReturns, Bool.or_false] at he hr
      subst he hr
      refine h.advance (by rw [hpc]; nofun) ?_ rfl rfl
      dsimp only
      split <;> nofun
  | testEmpty hidle hpc =>
      simp only [EventLoop.Act.isLoop, quitReturns, Bool.or_false] at he hr
      subst he hr
      refine h.advance (by rw [hpc]; nofun) ?_ rfl rfl
      dsimp only
      split <;> nofun
  | pollReturn hidle hpc | wakeupRead hidle hpc | endHandling hidle hpc
  | dequeue hidle hpc hpop | dequeueNone hidle hpc hpop | endFunc hidle hpc
  | destroyFunc hidle hpc | leave hidle hpc =>
      simp only [EventLoop.Act.isLoop, quitReturns, Bool.or_false] at he hr
      subst he hr
      exact h.advance (by rw [hpc]; nofun) nofun rfl rfl

/-! ## A flag that is set too early -/

/-- `q₁` is `q` after some thread has gone on with its call. -/
structure Later (q q₁ : WatchedLoop T) : Prop where
  pc : q₁.loop.pc = q.loop.pc
  entered : q₁.entered = q.entered
  returned : q.returned = true → q₁.returned = true

omit [DecidableEq T] in
theorem Later.refl (q : WatchedLoop T) : Later q q := ⟨rfl, rfl, id⟩

omit [DecidableEq T] in
theorem Later.trans {q₁ q₂ : WatchedLoop T} (h : Later q q₁) (h' : Later q₁ q₂) : Later q q₂ :=
  ⟨h'.pc.trans h.pc, h'.entered.trans h.entered, fun hr => h'.returned (h.returned hr)⟩

theorem exists_later {st : CallStage} (ha : a.isLoop = false)
    (hex : ∃ s, q.loop.exec a = some s ∧ s.pc = q.loop.pc ∧ s.stage t = st) :
    ∃ q₁, WatchStep q a q₁ ∧ Later q q₁ ∧ q₁.loop.stage t = st ∧
      (q.loop.quitReturns a = true → q₁.returned = true) := by
  obtain ⟨s, hs, hpc, hst⟩ := hex
  refine ⟨⟨s, q.entered, q.returned || q.loop.quitReturns a⟩, ?_, ⟨hpc, rfl, fun hr => ?_⟩, hst,
    fun hr => ?_⟩
  · refine watchStep_iff.mpr ⟨hs, fun h => ?_, ?_, rfl⟩
    · cases ha.symm.trans h
    · rw [ha, Bool.or_false]
  · rw [hr, Bool.true_or]
  · rw [hr, Bool.or_true]

theorem ends_of_enqueued {f : Nat} (ht : q.loop.stage t = .enqueued f) :
    ∃ q₁, WatchStep q (.wakeup t) q₁ ∧ Later q q₁ ∧ q₁.loop.stage t = .idle := by
  obtain ⟨q₁, hs, hlater, hst, -⟩ := exists_later (q := q) (a := .wakeup t) (t := t) rfl (by
    simp only [EventLoop.exec, ht]
    exact ⟨_, rfl, rfl, Function.update_self ..⟩)
  exact ⟨q₁, hs, hlater, hst⟩

theorem ends_of_quitWake (ht : q.loop.stage t = .quitWake) :
    ∃ q₁, WatchStep q (.quitWakeup t) q₁ ∧ Later q q₁ ∧ q₁.loop.stage t = .idle ∧
      q₁.returned = true := by
  obtain ⟨q₁, hs, hlater, hst, hret⟩ := exists_later (q := q) (a := .quitWakeup t) (t := t) rfl (by
    simp only [EventLoop.exec, ht]
    exact ⟨_, rfl, rfl, Function.update_self ..⟩)
  exact ⟨q₁, hs, hlater, hst, hret rfl⟩

theorem ends_of_quitting (ht : q.loop.stage t = .quitting) :
    ∃ q₁, WatchStep q (.quitStore t) q₁ ∧ Later q q₁ ∧
      ∃ ms q₂, Run WatchStep q₁ ms q₂ ∧ Later q₁ q₂ ∧ q₂.loop.stage t = .idle ∧
        q₂.returned = true := by
  obtain ⟨q₁, hs, hlater, hst, hret⟩ := exists_later (q := q) (a := .quitStore t) (t := t) rfl (by
    simp only [EventLoop.exec, ht]
    exact ⟨_, rfl, rfl, Function.update_self ..⟩)
  refine ⟨q₁, hs, hlater, ?_⟩
  cases t with
  | none => exact ⟨[], q₁, .nil q₁, .refl q₁, hst, hret rfl⟩
  | some t =>
      obtain ⟨q₂, hs₂, hrest⟩ := ends_of_quitWake hst
      exact ⟨_, q₂, .cons hs₂ (.nil _), hrest⟩

/-- Every call of a thread can end without the loop thread. -/
theorem call_ends (q : WatchedLoop T) (t : Option T) :
    ∃ ms q₁, Run WatchStep q ms q₁ ∧ Later q q₁ ∧ q₁.loop.stage t = .idle := by
  cases ht : q.loop.stage t with
  | idle => exact ⟨[], q, .nil q, .refl q, ht⟩
  | enqueuing f =>
      obtain ⟨q₁, hs, hlater, hst, -⟩ := exists_later (q := q) (a := .link t) (t := t) rfl (by
        simp only [EventLoop.exec, ht]
        exact ⟨_, rfl, rfl, Function.update_self ..⟩)
      obtain ⟨q₂, hs₂, hlater₂, hidle⟩ := ends_of_enqueued hst
      exact ⟨_, q₂, .cons hs (.cons hs₂ (.nil _)), hlater.trans hlater₂, hidle⟩
  | enqueued f =>
      obtain ⟨q₁, hs, hlater, hidle⟩ := ends_of_enqueued ht
      exact ⟨_, q₁, .cons hs (.nil _), hlater, hidle⟩
  | quitting =>
      obtain ⟨q₁, hs, hlater, ms, q₂, hrun, hlater₂, hidle, -⟩ := ends_of_quitting ht
      exact ⟨_, q₂, .cons hs hrun, hlater.trans hlater₂, hidle⟩
  | quitWake =>
      obtain ⟨q₁, hs, hlater, hidle, -⟩ := ends_of_quitWake ht
      exact ⟨_, q₁, .cons hs (.nil _), hlater, hidle⟩

/-- A request that has returned before the flag is cleared is lost. -/
theorem lost_of_returned (hu : q.Uncleared) (hidle : q.loop.stage none = .idle)
    (hret : q.returned = true) : ∃ ms v, Run WatchStep q ms v ∧ v.Lost := by
  have hclear : ∀ q₁ : WatchedLoop T, q₁.loop.stage none = .idle → q₁.loop.pc = .starting →
      q₁.returned = true → ∃ v, WatchStep q₁ .clearQuit v ∧ v.Lost := by
    intro q₁ hidle hpc hret
    refine ⟨⟨{ q₁.loop with pc := .test, quit := false, covered := [] }, q₁.entered,
      q₁.returned⟩, watchStep_iff.mpr ⟨?_, nofun, ?_, ?_⟩, hret, rfl, rfl⟩
    · simp only [EventLoop.exec, hidle, execLoop, hpc]
    · simp [EventLoop.Act.isLoop]
    · simp [quitReturns]
  rcases hu with ⟨hpc, hent⟩ | hpc
  · have hloop : WatchStep q .loop
        ⟨{ q.loop with pc := .starting, looping := true }, true, q.returned⟩ := by
      refine watchStep_iff.mpr ⟨?_, fun _ => hent, ?_, ?_⟩
      · simp only [EventLoop.exec, hidle, execLoop, hpc]
      · simp [EventLoop.Act.isLoop]
      · simp [quitReturns]
    obtain ⟨v, hv, hlost⟩ := hclear ⟨{ q.loop with pc := .starting, looping := true }, true, _⟩
      hidle rfl hret
    exact ⟨_, v, .cons hloop (.cons hv (.nil _)), hlost⟩
  · obtain ⟨v, hv, hlost⟩ := hclear q hidle hpc hret
    exact ⟨_, v, .cons hv (.nil _), hlost⟩

omit [DecidableEq T] in
theorem Later.uncleared {q₁ : WatchedLoop T} (h : Later q q₁) (hu : q.Uncleared) :
    q₁.Uncleared := by
  rcases hu with ⟨hpc, hent⟩ | hpc
  · exact Or.inl ⟨h.pc.trans hpc, h.entered.trans hent⟩
  · exact Or.inr (h.pc.trans hpc)

theorem lost_after (hg : ¬ q.SetsLate a) (hs : WatchStep q a q') :
    ∃ ms v, Run WatchStep q' ms v ∧ v.Lost := by
  cases a with
  | quitStore t =>
      have hu : q.Uncleared := Classical.not_not.mp hg
      have ht : q.loop.stage t = .quitting := by
        have heff := effect_of_exec (watchStep_iff.mp hs).1
        generalize q'.loop = s at heff
        cases heff with
        | quitStore ht => exact ht
      obtain ⟨q₁, hs₁, hlater, ms, q₂, hrun, hlater₂, -, hret⟩ := ends_of_quitting ht
      obtain rfl := Option.some.inj (hs.symm.trans hs₁)
      -- the loop thread may be in a call of its own
      obtain ⟨ns, q₃, hrun₃, hlater₃, hidle⟩ := call_ends q₂ none
      have hu₃ := (hlater.trans (hlater₂.trans hlater₃)).uncleared hu
      obtain ⟨ks, v, hrun₄, hlost⟩ := lost_of_returned hu₃ hidle (hlater₃.returned hret)
      exact ⟨_, v, (hrun.append hrun₃).append hrun₄, hlost⟩
  | _ => exact absurd trivial hg

end WatchedLoop

open WatchedLoop in
/-- **When a quit request is not lost.** In no interleaving in which the flag
is only set after `loop()` has cleared it is a request lost; and after any
run, a call that sets the flag before that can be lost. -/
theorem quit_not_lost [DecidableEq T] (acts : List (EventLoop.Act T)) :
    (EveryStep WatchStep SetsLate new acts → Throughout WatchStep (fun q => ¬ q.Lost) new acts) ∧
      ∀ q a q', Run WatchStep new acts q → WatchStep q a q' → ¬ q.SetsLate a →
        ∃ ms v, Run WatchStep q' ms v ∧ v.Lost := by
  refine ⟨fun hlate pre q hpre hrun => ?_, fun q a q' _ hs hg => lost_after hg hs⟩
  have hkept : q.FlagKept :=
    (hlate.guarded hpre hrun).invariant (fun _ _ _ h hs => h.step hs.2 hs.1) .new
  exact hkept.not_lost

/-- A request of another thread while the loop waits for events. -/
def requestInLoop : List (EventLoop.Act Unit) :=
  [.loop, .clearQuit, .testQuit, .quitLoad (some ()), .quitStore (some ()), .quitWakeup (some ())]

theorem quit_not_lost_in_loop :
    Throughout WatchStep (fun q => ¬ q.Lost) WatchedLoop.new requestInLoop := by
  refine (quit_not_lost requestInLoop).1 (everyStep_of_stepsMeet (f := WatchedLoop.exec) ?_)
  decide

/-- `quit()` of another thread returns before the loop thread has come to the
first statement of `loop()`; the loop then blocks in `poll`. -/
theorem quit_lost_before_loop :
    ∃ q, Run WatchStep (WatchedLoop.new : WatchedLoop Unit)
        [.quitLoad (some ()), .quitStore (some ()), .quitWakeup (some ()), .loop, .clearQuit,
          .testQuit] q ∧ q.Lost ∧ q.loop.pc = .poll :=
  ⟨_, Run.of_foldlM (f := WatchedLoop.exec) rfl, ⟨rfl, rfl, rfl⟩, rfl⟩

end Netpoll
