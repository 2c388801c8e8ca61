import Netpoll.EventLoop

/-!
# Wake-ups and the last drain of an event loop

Two properties of a loop that other threads talk to.

A function that was queued does not sleep in the queue while the loop
sleeps in `poll` (`no_lost_wakeup`). The reason is one invariant: whenever
the loop is past its drain, a queue that is not empty comes with a wake-up
that is written or still to be written. It starts to hold at the drain's
last test: a queue that merely looks empty has a front function whose
producer has not come to its wake-up yet.

A function that was queued before `quit()` is run before `loop()` returns,
if the flag is not set in the gap between that last test and the test of
the flag (`drained_of_guard`).
-/

namespace Netpoll.EventLoop

variable {T : Type*} [DecidableEq T] {s s' : EventLoop T} {a : Act T}

theorem stage_setStage (s : EventLoop T) (t u : Option T) (stage : CallStage) :
    (s.setStage t stage).stage u = if u = t then stage else s.stage u := by
  by_cases hu : u = t
  · simp [setStage, hu]
  · simp [setStage, hu]

/-! ## No wake-up is lost -/

/-- A call of `queueInLoop` by `t` has its place in the queue and has not returned. -/
def Calling (s : EventLoop T) (t : Option T) : Prop :=
  ∃ f, s.stage t = .enqueuing f ∨ s.stage t = .enqueued f

/-- The call that queued `f` has returned. -/
def Returned (s : EventLoop T) (f : Nat) : Prop :=
  ∀ t, s.stage t ≠ .enqueuing f ∧ s.stage t ≠ .enqueued f

/-- When the loop is about to block or blocked, and a function whose call
has returned is in the queue, the wake-up descriptor is readable or a call
of another thread that writes to it is in progress. -/
def WakesUp (s : EventLoop T) : Prop :=
  s.pc = .test ∨ s.pc = .poll → (∃ c ∈ s.funcs, s.Returned c.item) →
    0 < s.wakeupFd ∨ ∃ t : T, s.Calling (some t)

/-- The loop thread is past a drain and has not begun the next one. -/
def Resting : LoopPc → Prop
  | .outside | .starting | .test | .poll | .exited => True
  | _ => False

structure Awake (s : EventLoop T) : Prop where
  unlinked : ∀ c ∈ s.funcs, c.linked = false → s.stage c.producer = .enqueuing c.item
  own : s.stage none ≠ .idle → s.pc.userCode = true
  looping : s.pc = .outside → s.looping = false
  wake : Resting s.pc → s.funcs ≠ [] → 0 < s.wakeupFd ∨ ∃ t, s.Calling t

omit [DecidableEq T] in
theorem Awake.new : Awake (EventLoop.new : EventLoop T) where
  unlinked := by simp [EventLoop.new]
  own := fun h => absurd rfl h
  looping := fun _ => rfl
  wake := fun _ h => absurd rfl h

omit [DecidableEq T] in
theorem Awake.goOn (h : Awake s) (hidle : s.stage none = .idle) {pc : LoopPc}
    (hpc : pc ≠ .outside) (hrest : Resting pc → Resting s.pc) : Awake { s with pc := pc } where
  unlinked := h.unlinked
  own := fun hown => absurd hidle hown
  looping := fun hout => absurd hout hpc
  wake := fun hr => h.wake (hrest hr)

theorem Awake.unlinked_setStage (h : Awake s) {t : Option T} (ht : ∀ f, s.stage t ≠ .enqueuing f)
    (stage : CallStage) : ∀ c ∈ s.funcs, c.linked = false →
      (s.setStage t stage).stage c.producer = .enqueuing c.item := by
  intro c hc hlinked
  have hstage := h.unlinked c hc hlinked
  rw [stage_setStage, if_neg]
  · exact hstage
  · rintro rfl
    exact ht _ hstage

theorem Awake.own_setStage (h : Awake s) {t : Option T} {stage : CallStage}
    (ht : s.stage t ≠ .idle ∨ s.mayCall t = true) :
    (s.setStage t stage).stage none ≠ .idle → s.pc.userCode = true := by
  intro hown
  rw [stage_setStage] at hown
  split at hown
  next heq =>
      subst heq
      rcases ht with hstage | hmay
      · exact h.own hstage
      · exact hmay
  · exact h.own hown

theorem Calling.setStage {t u : Option T} {stage : CallStage} (hu : s.Calling u)
    (ht : ¬ s.Calling t) : (s.setStage t stage).Calling u := by
  obtain ⟨f, hf⟩ := hu
  have hne : u ≠ t := by
    rintro rfl
    exact ht ⟨f, hf⟩
  refine ⟨f, ?_⟩
  rw [stage_setStage, if_neg hne]
  exact hf

theorem Awake.setStage (h : Awake s) {t : Option T} (ht : ¬ s.Calling t) (stage : CallStage)
    (hmay : s.stage t ≠ .idle ∨ s.mayCall t = true) {wakeupFd : Nat}
    (hfd : s.wakeupFd ≤ wakeupFd) (quit : Bool) (covered : List Nat) :
    Awake { s.setStage t stage with
      wakeupFd := wakeupFd, quit := quit, covered := covered } where
  unlinked := h.unlinked_setStage (fun f hf => ht ⟨f, Or.inl hf⟩) stage
  own := h.own_setStage hmay
  looping := h.looping
  wake := by
    intro hrest hne
    rcases h.wake hrest hne with hpos | ⟨u, hu⟩
    · exact Or.inl (lt_of_lt_of_le hpos hfd)
    · exact Or.inr ⟨u, hu.setStage ht⟩

theorem Awake.step (h : Awake s) (hs : Effect s a s') : Awake s' := by
  cases hs with
  | @exchange t hidle hmay =>
      have hstage : (s.setStage t (.enqueuing s.queued.length)).stage t =
          .enqueuing s.queued.length := (stage_setStage ..).trans (if_pos rfl)
      refine ⟨?_, h.own_setStage (Or.inr hmay), h.looping, fun _ _ => Or.inr ⟨t, _, Or.inl hstage⟩⟩
      intro c hc hlinked
      rcases List.mem_append.mp hc with hc | hc
      · exact h.unlinked_setStage (by simp [hidle]) _ c hc hlinked
      · obtain rfl := List.mem_singleton.mp hc
        exact hstage
  | @link t f ht =>
      have hstage : (s.setStage t (.enqueued f)).stage t = .enqueued f :=
        (stage_setStage ..).trans (if_pos rfl)
      refine ⟨?_, h.own_setStage (Or.inl (by simp [ht])), h.looping,
        fun _ _ => Or.inr ⟨t, f, Or.inr hstage⟩⟩
      intro c hc hlinked
      obtain ⟨d, hd, rfl⟩ := List.mem_map.mp hc
      by_cases hdt : d.producer = t
      · simp [hdt] at hlinked
      · simp only [hdt, if_false] at hlinked ⊢
        exact (stage_setStage ..).trans ((if_neg hdt).trans (h.unlinked d hd hlinked))
  | @wakeup t f ht =>
      refine ⟨h.unlinked_setStage (by simp [ht]) _, h.own_setStage (Or.inl (by simp [ht])),
        h.looping, fun hrest _ => Or.inl ?_⟩
      -- the loop thread rests in a call of its own only outside of `loop()`
      have hwrites : (t.isSome || !s.looping) = true := by
        cases t with
        | some t => rfl
        | none =>
            have huser := h.own (by simp [ht])
            have hout : s.pc = .outside := by
              cases hpc : s.pc <;> simp_all [Resting, LoopPc.userCode, EventLoop.setStage]
            simp [h.looping hout]
      simp only [hwrites, if_true]
      omega
  | @quitLoad t hidle hmay =>
      exact h.setStage (by simp [Calling, hidle]) _ (Or.inr hmay) le_rfl s.quit _
  | @quitStore t ht =>
      exact h.setStage (by simp [Calling, ht]) _ (Or.inl (by simp [ht])) le_rfl true _
  | @quitWakeup t ht =>
      exact h.setStage (by simp [Calling, ht]) _ (Or.inl (by simp [ht])) (Nat.le_succ _) s.quit
        s.covered
  | loop hidle hpc =>
      exact ⟨h.unlinked, fun hown => absurd hidle hown, (fun hout => by cases hout),
        fun _ => h.wake (by simp [hpc, Resting])⟩
  | clearQuit hidle hpc =>
      exact ⟨h.unlinked, fun hown => absurd hidle hown, (fun hout => by cases hout),
        fun _ => h.wake (by simp [hpc, Resting])⟩
  | testQuit hidle hpc =>
      refine h.goOn hidle ?_ fun _ => by simp [hpc, Resting]
      split <;> simp
  | pollReturn hidle hpc => exact h.goOn hidle (by simp) False.elim
  | wakeupRead hidle hpc =>
      exact ⟨h.unlinked, fun hown => absurd hidle hown, (fun hout => by cases hout), False.elim⟩
  | endHandling hidle hpc => exact h.goOn hidle (by simp) False.elim
  | testEmpty hidle hpc =>
      refine ⟨h.unlinked, fun hown => absurd hidle hown, fun hout => ?_, fun hrest hne => ?_⟩
      · simp only at hout
        split at hout <;> cases hout
      · simp only at hrest
        split at hrest
        next hpop =>
            -- what looks empty and is not has a producer in front that will wake the loop
            rcases Fifo.pop?_eq_none_iff.mp (Option.isNone_iff_eq_none.mp hpop) with
              hnil | ⟨c, rest, hfuncs, hlinked⟩
            · exact absurd hnil hne
            · have hmem : c ∈ s.funcs := hfuncs ▸ List.mem_cons_self
              exact Or.inr ⟨c.producer, c.item, Or.inl (h.unlinked c hmem hlinked)⟩
        · exact hrest.elim
  | dequeue hidle hpc hpop =>
      obtain ⟨t, hfuncs⟩ := Fifo.pop?_eq_some hpop
      refine ⟨fun c hc => h.unlinked c (hfuncs ▸ List.mem_cons_of_mem _ hc),
        fun hown => absurd hidle hown, (fun hout => by cases hout), False.elim⟩
  | dequeueNone hidle hpc hpop => exact h.goOn hidle (by simp) False.elim
  | endFunc hidle hpc => exact h.goOn hidle (by simp) False.elim
  | destroyFunc hidle hpc => exact h.goOn hidle (by simp) False.elim
  | leave hidle hpc =>
      exact ⟨h.unlinked, fun hown => absurd hidle hown, fun _ => rfl,
        fun _ => h.wake (by simp [hpc, Resting])⟩

/-- No function sleeps in the queue of a sleeping loop. -/
theorem no_lost_wakeup (acts : List (Act T)) :
    Throughout Step WakesUp (EventLoop.new : EventLoop T) acts := by
  intro pre s _ hrun
  have h : Awake s := hrun.invariant (fun s a t hs hstep => hs.step (effect_of_exec hstep)) .new
  intro hpc ⟨c, hc, _⟩
  have hrest : Resting s.pc := by rcases hpc with hpc | hpc <;> simp [hpc, Resting]
  rcases h.wake hrest (List.ne_nil_of_mem hc) with hpos | ⟨t, f, ht⟩
  · exact Or.inl hpos
  · cases t with
    | some t => exact Or.inr ⟨t, f, ht⟩
    | none =>
        have huser := h.own (by rcases ht with ht | ht <;> simp [ht])
        rcases hpc with hpc | hpc <;> simp [hpc, LoopPc.userCode] at huser

/-! ## The last drain -/

/-- Past the drain's last test of the queue, and before the return. -/
def Late (s : EventLoop T) : Prop := s.pc = .test ∨ s.pc = .exited

/-- What was queued before `quit()` was run when the loop is over. -/
def Drained (s : EventLoop T) : Prop := s.pc = .exited → ∀ f ∈ s.covered, f ∈ s.executed

/-- No function in the queue is one that a thread queued before `quit()`. -/
def Clean (s : EventLoop T) : Prop := ∀ c ∈ s.funcs, c.item ∉ s.covered

/-- `quit()` does not take effect past the drain's last test of the queue
while a function of a thread that has called it waits there; and the drain
does not end, with the flag set, at a queue that only looks empty and has
such a function in it. -/
def QuitsInTime (s : EventLoop T) : Act T → Prop
  | .quitLoad t => s.Late → s.quit = true → ∀ c ∈ s.funcs, c.item ∉ s.queuedBy t
  | .quitStore t => s.Late → s.Clean ∧ ∀ c ∈ s.funcs, c.item ∉ s.queuedBy t
  | .testEmpty => s.quit = true → Fifo.pop? s.funcs = none → s.Clean
  | _ => True

structure Kept (s : EventLoop T) : Prop where
  number : ∀ e ∈ s.queued, e.2 < s.queued.length
  kept : ∀ e ∈ s.queued, e.2 ∈ s.executed ∨ ∃ c ∈ s.funcs, c.item = e.2
  covered : ∀ f ∈ s.covered, ∃ t, (t, f) ∈ s.queued
  clean : s.Late → s.quit = true → s.Clean

omit [DecidableEq T] in
theorem Kept.new : Kept (EventLoop.new : EventLoop T) := by
  constructor <;> simp [EventLoop.new, Clean]

omit [DecidableEq T] in
theorem Kept.goOn (h : Kept s) {pc : LoopPc} (hpc : pc = .test ∨ pc = .exited → s.Late) :
    Kept { s with pc := pc } :=
  ⟨h.number, h.kept, h.covered, fun hlate => h.clean (hpc hlate)⟩

theorem mem_queuedBy {t : Option T} {f : Nat} : f ∈ s.queuedBy t ↔ (t, f) ∈ s.queued := by
  simp [queuedBy]

theorem Kept.cover (h : Kept s) (t : Option T) (stage : CallStage) (quit : Bool)
    (hclean : s.Late → quit = true → s.Clean ∧ ∀ c ∈ s.funcs, c.item ∉ s.queuedBy t) :
    Kept { (s.cover t).setStage t stage with quit := quit } where
  number := h.number
  kept := h.kept
  covered := by
    intro f hf
    rcases List.mem_append.mp hf with hf | hf
    · exact h.covered f hf
    · exact ⟨t, mem_queuedBy.mp hf⟩
  clean := by
    intro hlate hquit c hc hmem
    obtain ⟨hcl, hby⟩ := hclean hlate hquit
    rcases List.mem_append.mp hmem with hmem | hmem
    · exact hcl c hc hmem
    · exact hby c hc hmem

theorem Kept.step (h : Kept s) (hg : s.QuitsInTime a) (hs : Effect s a s') : Kept s' := by
  cases hs with
  | @exchange t hidle hmay =>
      refine ⟨?_, ?_, ?_, ?_⟩
      · intro e he
        rw [List.length_append]
        rcases List.mem_append.mp he with he | he
        · exact Nat.lt_succ_of_lt (h.number e he)
        · obtain rfl := List.mem_singleton.mp he
          exact Nat.lt_succ_self _
      · intro e he
        rcases List.mem_append.mp he with he | he
        · refine (h.kept e he).imp_right ?_
          rintro ⟨c, hc, hce⟩
          exact ⟨c, List.mem_append_left _ hc, hce⟩
        · obtain rfl := List.mem_singleton.mp he
          exact Or.inr ⟨_, List.mem_append_right _ List.mem_cons_self, rfl⟩
      · intro f hf
        obtain ⟨u, hu⟩ := h.covered f hf
        exact ⟨u, List.mem_append_left _ hu⟩
      · intro hlate hquit c hc hmem
        rcases List.mem_append.mp hc with hc | hc
        · exact h.clean hlate hquit c hc hmem
        · -- the new function has a number of its own
          obtain rfl := List.mem_singleton.mp hc
          obtain ⟨u, hu⟩ := h.covered _ hmem
          exact absurd (h.number _ hu) (Nat.lt_irrefl _)
  | @link t f ht =>
      have hitem : ∀ c ∈ Fifo.link t s.funcs, ∃ d ∈ s.funcs, d.item = c.item := by
        intro c hc
        obtain ⟨d, hd, rfl⟩ := List.mem_map.mp hc
        refine ⟨d, hd, ?_⟩
        split <;> rfl
      refine ⟨h.number, ?_, h.covered, ?_⟩
      · intro e he
        refine (h.kept e he).imp_right ?_
        rintro ⟨c, hc, hce⟩
        refine ⟨_, List.mem_map_of_mem hc, ?_⟩
        split <;> exact hce
      · intro hlate hquit c hc
        obtain ⟨d, hd, hdc⟩ := hitem c hc
        exact hdc ▸ h.clean hlate hquit d hd
  | wakeup ht => exact ⟨h.number, h.kept, h.covered, h.clean⟩
  | @quitLoad t hidle hmay =>
      exact h.cover t _ s.quit fun hlate hquit => ⟨h.clean hlate hquit, hg hlate hquit⟩
  | @quitStore t ht => exact h.cover t _ true fun hlate _ => hg hlate
  | quitWakeup ht => exact ⟨h.number, h.kept, h.covered, h.clean⟩
  | loop hidle hpc => exact ⟨h.number, h.kept, h.covered, fun hlate => by simp [Late] at hlate⟩
  | clearQuit hidle hpc =>
      exact ⟨h.number, h.kept, by simp, fun _ hquit => by cases hquit⟩
  | testQuit hidle hpc => exact h.goOn fun _ => Or.inl hpc
  | pollReturn hidle hpc => exact h.goOn (by simp)
  | wakeupRead hidle hpc =>
      exact ⟨h.number, h.kept, h.covered, fun hlate => by simp [Late] at hlate⟩
  | endHandling hidle hpc => exact h.goOn (by simp)
  | testEmpty hidle hpc =>
      refine ⟨h.number, h.kept, h.covered, fun hlate hquit => ?_⟩
      have hpop : Fifo.pop? s.funcs = none := by
        by_contra hne
        simp [Late, hne] at hlate
      exact hg hquit hpop
  | @dequeue f funcs hidle hpc hpop =>
      obtain ⟨t, hfuncs⟩ := Fifo.pop?_eq_some hpop
      refine ⟨h.number, ?_, h.covered, fun hlate => by simp [Late] at hlate⟩
      intro e he
      rcases h.kept e he with hex | ⟨c, hc, hce⟩
      · exact Or.inl (List.mem_append_left _ hex)
      · rw [hfuncs] at hc
        rcases List.mem_cons.mp hc with rfl | hc
        · exact Or.inl (List.mem_append_right _ (List.mem_singleton.mpr hce.symm))
        · exact Or.inr ⟨c, hc, hce⟩
  | dequeueNone hidle hpc hpop => exact h.goOn (by simp)
  | endFunc hidle hpc => exact h.goOn (by simp)
  | destroyFunc hidle hpc => exact h.goOn (by simp)
  | leave hidle hpc => exact ⟨h.number, h.kept, h.covered, fun hlate => by simp [Late] at hlate⟩

/-- Once out of the loop, the flag is set. -/
def FlagSet (s : EventLoop T) : Prop := s.pc = .exited → s.quit = true

theorem FlagSet.step (h : FlagSet s) (hs : Effect s a s') : FlagSet s' := by
  cases hs with
  | exchange | link | wakeup | quitLoad | quitWakeup => exact h
  | quitStore => exact fun _ => rfl
  | testQuit hidle hpc =>
      intro hout
      by_contra hquit
      simp [hquit] at hout
  | testEmpty hidle hpc =>
      intro hout
      simp only at hout
      split at hout <;> cases hout
  | loop | clearQuit | pollReturn | wakeupRead | endHandling | dequeue | dequeueNone | endFunc
    | destroyFunc | leave => exact fun hout => by cases hout

/-- If every `quit()` comes in time, what was queued before it is run. -/
theorem drained_of_guard (acts : List (Act T))
    (h : EveryStep Step QuitsInTime (EventLoop.new : EventLoop T) acts) :
    Throughout Step Drained (EventLoop.new : EventLoop T) acts := by
  intro pre s hpre hrun
  have hinv : Kept s ∧ FlagSet s := by
    refine (h.guarded hpre hrun).invariant (I := fun s => Kept s ∧ FlagSet s) ?_
      ⟨.new, fun hout => by cases hout⟩
    rintro s a t ⟨hk, hf⟩ ⟨hstep, hg⟩
    exact ⟨hk.step hg (effect_of_exec hstep), hf.step (effect_of_exec hstep)⟩
  obtain ⟨hk, hf⟩ := hinv
  intro hout f hcov
  obtain ⟨t, ht⟩ := hk.covered f hcov
  rcases hk.kept _ ht with hex | ⟨c, hc, hce⟩
  · exact hex
  · exact absurd (hce ▸ hcov) (hk.clean (Or.inr hout) (hf hout) c hc)

instance : Decidable s.Late := inferInstanceAs (Decidable (_ ∨ _))

instance : Decidable s.Clean := inferInstanceAs (Decidable (∀ c ∈ s.funcs, c.item ∉ s.covered))

instance (s : EventLoop T) : (a : Act T) → Decidable (s.QuitsInTime a)
  | .quitLoad t =>
    inferInstanceAs (Decidable (s.Late → s.quit = true → ∀ c ∈ s.funcs, c.item ∉ s.queuedBy t))
  | .quitStore t =>
    inferInstanceAs (Decidable (s.Late → s.Clean ∧ ∀ c ∈ s.funcs, c.item ∉ s.queuedBy t))
  | .testEmpty =>
    inferInstanceAs (Decidable (s.quit = true → Fifo.pop? s.funcs = none → s.Clean))
  | .exchange _ | .link _ | .wakeup _ | .quitWakeup _ | .loop | .clearQuit | .testQuit
  | .pollReturn _ | .wakeupRead _ | .endHandling | .dequeue | .endFunc | .destroyFunc
  | .leave => isTrue trivial

/-- A thread queues a function and quits while the loop is blocked. -/
def quitWhileBlocked : List (Act Unit) :=
  [.loop, .clearQuit, .testQuit, .exchange (some ()), .link (some ()), .wakeup (some ()),
    .quitLoad (some ()), .quitStore (some ()), .quitWakeup (some ()), .pollReturn true,
    .wakeupRead 0, .endHandling, .testEmpty, .dequeue, .endFunc, .dequeue, .destroyFunc,
    .testEmpty, .testQuit]

theorem drained_quitWhileBlocked :
    Throughout Step Drained .new quitWhileBlocked ∧
      ∃ s, Run Step .new quitWhileBlocked s ∧ s.pc = .exited ∧ s.covered = [0, 0] := by
  refine ⟨drained_of_guard _ (everyStep_of_stepsMeet (by decide)), _, .of_foldlM rfl, rfl, rfl⟩

theorem not_drained_of_run {acts : List (Act T)} {f : Nat}
    (hrun : acts.foldlM exec .new = some s) (hpc : s.pc = .exited) (hcov : f ∈ s.covered)
    (hex : f ∉ s.executed) : ¬ Throughout Step Drained (EventLoop.new : EventLoop T) acts :=
  fun h => hex (h acts s (List.prefix_refl _) (.of_foldlM hrun) hpc f hcov)

/-- A thread queues a function and quits right after the drain's last test
of the queue; or it does so behind a function whose producer has not
linked it, so that the drain does not see either. -/
theorem not_drained :
    ¬ Throughout Step Drained .new
      ([.loop, .clearQuit, .testQuit, .pollReturn false, .endHandling, .testEmpty,
        .exchange (some ()), .link (some ()), .wakeup (some ()), .quitLoad (some ()),
        .quitStore (some ()), .testQuit] : List (Act Unit)) ∧
    ¬ Throughout Step Drained .new
      ([.loop, .clearQuit, .testQuit, .exchange (some false), .exchange (some true),
        .link (some true), .wakeup (some true), .quitLoad (some true), .quitStore (some true),
        .pollReturn true, .wakeupRead 0, .endHandling, .testEmpty, .testQuit] :
          List (Act Bool)) := by
  refine ⟨not_drained_of_run rfl rfl (f := 0) ?_ ?_, not_drained_of_run rfl rfl (f := 1) ?_ ?_⟩
  all_goals decide

end Netpoll.EventLoop
