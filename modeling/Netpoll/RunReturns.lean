import Netpoll.LoopThread

/-!
# When `EventLoopThread::run()` returns

`run()` waits for a function that the thread has queued before anybody
else had the pointer to the loop. The function keeps its place at the front
of the queue until the first drain, so the one thing that can keep `run()`
waiting is a loop that ends before its first drain: a quit flag that is set
after `loop()` has cleared it and before the first test.

The invariant of the good runs is `Ahead`; from each of its states a run to
the return of `run()` is written down step by step (`Keeps`). `Missed` is
where a bad step leads to, and is never left.
-/

namespace Netpoll

/-! ## The first function -/

namespace EventLoop

variable {T : Type*} [DecidableEq T] {s s' : EventLoop T} {a : Act T}

/-- The function that the loop thread queued first is the next to be run. -/
def Pending (s : EventLoop T) : Prop := ∃ rest, s.funcs = ⟨none, 0, true⟩ :: rest

/-- The loop thread queues the first function. -/
def Placing (s : EventLoop T) : Prop :=
  s.stage none = .idle ∧ s.funcs = [] ∧ s.queued = [] ∨
    s.stage none = .enqueuing 0 ∧ s.funcs = [⟨none, 0, false⟩] ∨
    s.stage none = .enqueued 0 ∧ s.Pending

theorem Placing.step (h : Placing s) (hs : Effect s a s')
    (ha : a = .exchange none ∨ a = .link none ∨ a = .wakeup none) :
    (a ≠ .wakeup none ∧ Placing s') ∨ (a = .wakeup none ∧ s'.Pending ∧ s'.stage none = .idle) := by
  rcases ha with rfl | rfl | rfl
  · refine Or.inl ⟨by simp, ?_⟩
    cases hs with
    | exchange hidle =>
        rcases h with ⟨-, hf, hq⟩ | ⟨hst, -⟩ | ⟨hst, -⟩
        · exact Or.inr (Or.inl ⟨by simp [setStage, hq], by simp [Fifo.exchange, hf, hq]⟩)
        · cases hidle.symm.trans hst
        · cases hidle.symm.trans hst
  · refine Or.inl ⟨by simp, ?_⟩
    cases hs with
    | link hlink =>
        rcases h with ⟨hst, -⟩ | ⟨hst, hf⟩ | ⟨hst, -⟩
        · cases hlink.symm.trans hst
        · obtain rfl := CallStage.enqueuing.inj (hlink.symm.trans hst)
          exact Or.inr (Or.inr ⟨by simp [setStage], [], by simp [Fifo.link, hf]⟩)
        · cases hlink.symm.trans hst
  · refine Or.inr ⟨rfl, ?_⟩
    cases hs with
    | wakeup hwake =>
        rcases h with ⟨hst, -⟩ | ⟨hst, -⟩ | ⟨-, hp⟩
        · cases hwake.symm.trans hst
        · cases hwake.symm.trans hst
        · exact ⟨hp, by simp [setStage]⟩

/-- On the way from the call of `loop()` to the first drain. -/
def LoopPc.firstRound : LoopPc → Bool
  | .starting | .test | .poll | .handling _ | .outer | .inner => true
  | _ => false

/-- The first function is being run, or is the next to be run. -/
def Front (s : EventLoop T) : Prop :=
  s.pc = .running 0 ∨ s.Pending ∧ LoopPc.firstRound s.pc = true

/-- The loop goes on at its next test of the flag. -/
def Calm (s : EventLoop T) : Prop := s.pc = .test → s.quit = false

omit [DecidableEq T] in
theorem Beside.pending (hb : Beside s s') (h : s.Pending) : s'.Pending := by
  obtain ⟨rest, hf⟩ := h
  exact hb.front _ rest hf rfl

omit [DecidableEq T] in
theorem Pending.pop (h : s.Pending) : ∃ rest, Fifo.pop? s.funcs = some (0, rest) := by
  obtain ⟨rest, hf⟩ := h
  exact ⟨rest, by rw [hf]; rfl⟩

theorem Front.step (h : Front s) (hc : Calm s) (hs : Effect s a s') (ha : a ≠ .endFunc) :
    Front s' := by
  by_cases hcall : a.isCall = true
  · have hb := hs.beside hcall
    refine h.imp (fun hpc => hb.pc.trans hpc) fun ⟨hp, hpc⟩ => ⟨hb.pending hp, ?_⟩
    rw [hb.pc]
    exact hpc
  · have hfirst : ∀ pc, s.pc = pc → pc ≠ .running 0 → s.Pending ∧ LoopPc.firstRound pc = true := by
      rintro pc rfl hne
      exact h.resolve_left hne
    cases hs with
    | exchange | link | wakeup | quitLoad | quitStore | quitWakeup => exact absurd rfl hcall
    | loop _ hpc => cases (hfirst _ hpc (by simp)).2
    | clearQuit _ hpc => exact Or.inr ⟨(hfirst _ hpc (by simp)).1, rfl⟩
    | testQuit _ hpc =>
        refine Or.inr ⟨(hfirst _ hpc (by simp)).1, ?_⟩
        rw [hc hpc]
        rfl
    | pollReturn _ hpc => exact Or.inr ⟨(hfirst _ hpc (by simp)).1, rfl⟩
    | wakeupRead _ hpc => exact Or.inr ⟨(hfirst _ hpc (by simp)).1, rfl⟩
    | endHandling _ hpc => exact Or.inr ⟨(hfirst _ hpc (by simp)).1, rfl⟩
    | testEmpty _ hpc =>
        have hp := (hfirst _ hpc (by simp)).1
        obtain ⟨rest, hpop⟩ := hp.pop
        refine Or.inr ⟨hp, ?_⟩
        rw [hpop]
        rfl
    | dequeue _ hpc hpop =>
        obtain ⟨rest, hpop'⟩ := (hfirst _ hpc (by simp)).1.pop
        obtain ⟨rfl, -⟩ := Prod.mk.inj (Option.some.inj (hpop.symm.trans hpop'))
        exact Or.inl rfl
    | dequeueNone _ hpc hpop =>
        obtain ⟨rest, hpop'⟩ := (hfirst _ hpc (by simp)).1.pop
        cases hpop.symm.trans hpop'
    | endFunc => exact absurd rfl ha
    | destroyFunc _ hpc => cases (hfirst _ hpc (by simp)).2
    | leave _ hpc => cases (hfirst _ hpc (by simp)).2

theorem Calm.step (hf : Front s) (h : Calm s) (hs : Effect s a s')
    (hset : ∀ t, a = .quitStore t → s.pc ≠ .test) : Calm s' := by
  cases hs with
  | exchange | link | wakeup | quitLoad | quitWakeup => exact h
  | quitStore => exact fun hpc => absurd hpc (hset _ rfl)
  | clearQuit => exact fun _ => rfl
  | testQuit =>
      intro hpc
      dsimp only at hpc
      split at hpc <;> cases hpc
  | testEmpty _ hpc =>
      have hp : s.Pending := (hf.resolve_left (by simp [hpc])).1
      obtain ⟨rest, hpop⟩ := hp.pop
      intro htest
      dsimp only at htest
      rw [hpop] at htest
      cases htest
  | _ => exact fun hpc => by cases hpc

/-- `wakeupRead` finds something to read. -/
def Readable (s : EventLoop T) : Prop := s.pc = .handling true → 0 < s.wakeupFd

theorem Readable.step (h : Readable s) (hs : s.exec a = some s') : Readable s' := by
  have heff := effect_of_exec hs
  by_cases hcall : a.isCall = true
  · have hb := heff.beside hcall
    exact fun hpc => lt_of_lt_of_le (h (hb.pc ▸ hpc)) hb.wakeupFd
  · cases heff with
    | exchange | link | wakeup | quitLoad | quitStore | quitWakeup => exact absurd rfl hcall
    | @pollReturn wake hidle hpc =>
        intro hwake
        obtain rfl : wake = true := LoopPc.handling.inj hwake
        by_contra hzero
        have hzero' : s.wakeupFd = 0 := Nat.eq_zero_of_not_pos hzero
        simp [EventLoop.exec, hidle, execLoop, hpc, hzero'] at hs
    | testQuit =>
        intro hpc
        dsimp only at hpc
        split at hpc <;> cases hpc
    | testEmpty =>
        intro hpc
        dsimp only at hpc
        split at hpc <;> cases hpc
    | _ => exact fun hpc => by cases hpc

end EventLoop

namespace LoopThread

variable {U : Type*} [DecidableEq U] {s s' : LoopThread U} {a : Act U}

/-- Who has called `run()`. -/
structure Called (s : LoopThread U) : Prop where
  pointer : s.worker = .queueing ∨ s.worker = .publishing → s.promiseForLoopPointer = false
  early : s.promiseForLoopPointer = false → s.owner = .constructing
  fresh : s.owner = .constructing → s.once = .fresh ∧ ∀ t, s.runPc t = .idle
  called : s.promiseForRun = true ↔ s.once ≠ .fresh
  active : s.once = .active → ∃ t, s.runPc t = .awaiting
  waiting : ∀ t, s.runPc t = .awaiting → s.once ≠ .fresh
  running : s.worker = .looping ∨ s.Over → s.promiseForRun = true

omit [DecidableEq U] in
theorem Called.new : Called (new : LoopThread U) where
  pointer _ := rfl
  early _ := rfl
  fresh _ := ⟨rfl, fun _ => rfl⟩
  called := ⟨(fun h => by cases h), fun h => absurd rfl h⟩
  active := fun h => by cases h
  waiting := fun _ h => by cases h
  running := by rintro (h | h | h | h) <;> cases h

theorem active_update {t : Option U} {pc : RunPc} (h : ∃ t, s.runPc t = .awaiting)
    (ht : s.runPc t ≠ .awaiting) : ∃ v, Function.update s.runPc t pc v = .awaiting := by
  obtain ⟨v, hv⟩ := h
  refine ⟨v, ?_⟩
  rw [Function.update_of_ne]
  · exact hv
  · rintro rfl
    exact ht hv

theorem Called.enter (h : Called s) {t : Option U} (hr : s.runPc t = .idle)
    (ho : s.owner ≠ .constructing) {o : OwnerPc} (ho' : o ≠ .constructing) :
    Called { s with owner := o, runPc := Function.update s.runPc t .entered } where
  pointer := h.pointer
  early hp := absurd (h.early hp) ho
  fresh hc := absurd hc ho'
  called := h.called
  active ha := active_update (h.active ha) (by simp [hr])
  waiting v hv := by
    have hne : v ≠ t := by
      rintro rfl
      cases (Function.update_self v RunPc.entered s.runPc).symm.trans hv
    exact h.waiting v ((Function.update_of_ne hne ..).symm.trans hv)
  running := h.running

omit [DecidableEq U] in
theorem Called.goOn (h : Called s) (ho : s.owner ≠ .constructing) {o : OwnerPc}
    (ho' : o ≠ .constructing) : Called { s with owner := o } :=
  ⟨h.pointer, fun hp => absurd (h.early hp) ho, fun hc => absurd hc ho', h.called, h.active,
    h.waiting, h.running⟩

theorem Called.endRun (h : Called s) (hn : s.once ≠ .fresh) (t : Option U) :
    Called (({ s with once := .done } : LoopThread U).endRun t) := by
  have ho : s.owner ≠ .constructing := fun hc => hn (h.fresh hc).1
  refine ⟨h.pointer, fun hp => absurd (h.early hp) ho, fun hc => ?_,
    ⟨(fun _ h => by cases h), fun _ => h.called.mpr hn⟩, (fun h => by cases h),
    (fun _ _ h => by cases h), h.running⟩
  simp only [LoopThread.endRun] at hc
  split at hc
  · cases hc
  · exact absurd hc ho

theorem Called.step (h : Called s) (hs : Effect s a s') : Called s' := by
  cases hs with
  | @own b l hc hmay hl =>
      rcases mayStep_cases hc hmay with ⟨hw, hb⟩ | ⟨hw, rfl, hrun⟩ | ⟨hw, -⟩
      · refine ⟨fun _ => h.pointer (Or.inl hw), h.early, h.fresh, h.called, h.active, h.waiting, ?_⟩
        rw [hw]
        rcases hb with rfl | rfl | rfl <;> simp [workerAfter, Over]
      · refine ⟨fun hw' => ?_, h.early, h.fresh, h.called, h.active,
          h.waiting, fun _ => hrun⟩
        rw [hw] at hw'
        simp [workerAfter] at hw'
      · refine ⟨fun hw' => ?_, h.early, h.fresh, h.called, h.active, h.waiting,
          fun _ => h.running (Or.inl hw)⟩
        rw [hw] at hw'
        cases b <;> simp [workerAfter] at hw'
  | @use b t l hc hmay =>
      have hl : Called { s with loop := l } :=
        ⟨h.pointer, h.early, h.fresh, h.called, h.active, h.waiting, h.running⟩
      rcases afterUse_eq { s with loop := l } t with hu | ⟨rfl, -, hu⟩
      · rwa [hu]
      · simp only [mayUse, Bool.and_eq_true, decide_eq_true_eq] at hmay
        rw [hu]
        exact hl.goOn (by simp [hmay.1]) (by simp)
  | stray | keepPromise =>
      exact ⟨h.pointer, h.early, h.fresh, h.called, h.active, h.waiting, h.running⟩
  | publish hw => exact ⟨by simp, by simp, h.fresh, h.called, h.active, h.waiting, by simp [Over]⟩
  | clear hw =>
      exact ⟨by simp, h.early, h.fresh, h.called, h.active, h.waiting,
        fun _ => h.running (Or.inr (Or.inl hw))⟩
  | destroy hw =>
      exact ⟨by simp, h.early, h.fresh, h.called, h.active, h.waiting,
        fun _ => h.running (Or.inr (Or.inr (Or.inl hw)))⟩
  | construct ho hp =>
      exact ⟨h.pointer, fun hp' => absurd (hp.symm.trans hp') (by simp), by simp, h.called, h.active,
        h.waiting, h.running⟩
  | wait ho => exact h.goOn (by simp [ho]) (by simp)
  | endWait ho => exact h.goOn (by simp [ho]) (by simp)
  | destruct ho hr => exact h.enter hr (by simp [ho]) (by simp)
  | load ho =>
      refine h.goOn (by simp [ho]) ?_
      split <;> simp
  | join ho => exact h.goOn (by simp [ho]) (by simp)
  | runCall hmay hr =>
      have ho : s.owner ≠ .constructing := by
        intro hc
        simp [mayRun, hc] at hmay
      exact h.enter hr ho ho
  | @runFirst t hr ho =>
      refine ⟨h.pointer, h.early, fun hc => ?_, ⟨fun _ => by simp, fun _ => rfl⟩,
        fun _ => ⟨t, Function.update_self ..⟩, fun _ _ => by simp, fun _ => rfl⟩
      cases hr.symm.trans ((h.fresh hc).2 t)
  | @runAgain t hr ho =>
      have hend := h.endRun (by simp [ho]) t
      rwa [← ho] at hend
  | @runReturn t hr hp => exact h.endRun (h.waiting t hr) t

/-- The first function keeps its place until it has kept its promise. -/
structure Ahead (s : LoopThread U) : Prop where
  placing : s.worker = .queueing → s.loop.Placing
  placed : s.worker = .publishing ∨ s.worker = .awaiting →
    s.loop.Pending ∧ s.loop.stage none = .idle
  readable : s.loop.Readable
  front : s.worker = .looping → s.promiseForLoop = false → s.loop.Front ∧ s.loop.Calm
  kept : s.Over → s.promiseForLoop = true

omit [DecidableEq U] in
theorem Ahead.new : Ahead (new : LoopThread U) where
  placing _ := Or.inl ⟨rfl, rfl, rfl⟩
  placed := by simp [LoopThread.new]
  readable := fun h => by cases h
  front := fun h => by cases h
  kept := by rintro (h | h | h) <;> cases h

/-- The flag is not set between the beginning of `loop()` and its first test. -/
def QuitsServed (s : LoopThread U) : Act U → Prop
  | .loop (.quitStore _) => s.loop.pc = .test → s.promiseForLoop = true
  | _ => True

theorem Ahead.own (h : Ahead s) {b : EventLoop.Act (Option U)} {l : EventLoop (Option U)}
    (hc : b.caller = none) (hmay : s.mayStep b = true) (hl : s.loop.exec b = some l)
    (hg : s.QuitsServed (.loop b)) :
    Ahead { s with loop := l, worker := workerAfter s.worker b } := by
  have hs := EventLoop.effect_of_exec hl
  have hread := h.readable.step hl
  rcases mayStep_cases hc hmay with ⟨hw, hb⟩ | ⟨hw, rfl, -⟩ | ⟨hw, hb⟩
  · rcases (h.placing hw).step hs hb with ⟨hne, hp⟩ | ⟨rfl, hp⟩
    · have hafter : workerAfter s.worker b = .queueing := by
        rw [hw]
        rcases hb with rfl | rfl | rfl
        · rfl
        · rfl
        · exact absurd rfl hne
      rw [hafter]
      exact ⟨fun _ => hp, by simp, hread, by simp, by simp [Over]⟩
    · rw [hw]
      exact ⟨by simp [workerAfter], fun _ => hp, hread, by simp [workerAfter],
        by simp [workerAfter, Over]⟩
  · have hp := (h.placed (Or.inr hw)).1
    rw [hw]
    refine ⟨by simp [workerAfter], by simp [workerAfter], hread, fun _ _ => ?_,
      by simp [workerAfter, Over]⟩
    cases hs
    exact ⟨Or.inr ⟨hp, rfl⟩, fun h => by cases h⟩
  · have hfront : s.promiseForLoop = false → l.Front ∧ l.Calm := by
      intro hno
      obtain ⟨hf, hcalm⟩ := h.front hw hno
      have hend : b ≠ .endFunc := by
        rintro rfl
        cases hs with
        | endFunc _ hpc =>
            -- the first function has not kept its promise, another one is not run before it
            rcases hf with hzero | ⟨-, hfirst⟩
            · simp [mayStep, hzero, hno] at hmay
            · rw [hpc] at hfirst
              cases hfirst
      refine ⟨hf.step hcalm hs hend, .step hf hcalm hs ?_⟩
      rintro t rfl htest
      cases hno.symm.trans (hg htest)
    rw [hw]
    refine ⟨fun hq => ?_, fun hp => ?_, hread, fun _ => hfront, fun ho => ?_⟩
    · cases b <;> cases hq
    · cases b <;> simp [workerAfter] at hp
    · by_contra hno
      have hleave : b = .leave := by
        cases b with
        | leave => rfl
        | _ => simp [workerAfter, Over] at ho
      subst hleave
      cases hs with
      | leave _ hpc =>
          rcases (h.front hw (by simpa using hno)).1 with hzero | ⟨-, hfirst⟩
          · cases hpc.symm.trans hzero
          · rw [hpc] at hfirst
            cases hfirst

theorem Ahead.call (h : Ahead s) {b : EventLoop.Act (Option U)} {t : Option U}
    {l : EventLoop (Option U)} (hc : b.caller = some t) (hmay : s.mayUse b t = true)
    (hl : s.loop.exec b = some l) (hk : Called s) (hg : s.QuitsServed (.loop b)) :
    Ahead { s with loop := l } := by
  have hs := EventLoop.effect_of_exec hl
  have hb := hs.beside (EventLoop.Act.isCall_of_caller hc)
  have hown := hs.stage_eq (u := none) (by simp [hc])
  refine ⟨fun hw => ?_, fun hw => ?_, h.readable.step hl, fun hw hno => ?_, h.kept⟩
  · -- nobody has the pointer yet
    have ho := hk.early (hk.pointer (Or.inl hw))
    cases t <;> simp [mayUse, ho] at hmay
  · obtain ⟨hp, hidle⟩ := h.placed hw
    exact ⟨hb.pending hp, hown.trans hidle⟩
  · obtain ⟨hf, hcalm⟩ := h.front hw hno
    refine ⟨hf.step hcalm hs ?_, .step hf hcalm hs ?_⟩
    · rintro rfl
      cases hc
    · rintro t rfl htest
      cases hno.symm.trans (hg htest)

theorem Ahead.step (h : Ahead s) (hk : Called s) (hg : s.QuitsServed a)
    (hs : Effect s a s') : Ahead s' := by
  cases hs with
  | own hc hmay hl => exact h.own hc hmay hl hg
  | @use b t l hc hmay _ hl =>
      have hcall := h.call hc hmay hl hk hg
      obtain ⟨o, ho⟩ := exists_afterUse { s with loop := l } t
      rw [ho]
      exact ⟨hcall.placing, hcall.placed, hcall.readable, hcall.front, hcall.kept⟩
  | keepPromise => exact ⟨h.placing, h.placed, h.readable, by simp, fun _ => rfl⟩
  | publish hw =>
      exact ⟨by simp, fun _ => h.placed (Or.inl hw), h.readable, by simp, by simp [Over]⟩
  | clear hw =>
      exact ⟨by simp, by simp, h.readable, by simp, fun _ => h.kept (Or.inl hw)⟩
  | destroy hw =>
      exact ⟨by simp, by simp, h.readable, by simp, fun _ => h.kept (Or.inr (Or.inl hw))⟩
  | _ => exact ⟨h.placing, h.placed, h.readable, h.front, h.kept⟩

/-! ### A run in which the promise is kept -/

/-- The promise can be kept without the callers of `run()`. -/
def Keeps (s : LoopThread U) : Prop :=
  ∃ ms t, Run Step s ms t ∧ t.promiseForLoop = true ∧ t.once = s.once ∧ t.runPc = s.runPc

theorem Keeps.own {b : EventLoop.Act (Option U)} {l : EventLoop (Option U)}
    (hl : s.loop.exec b = some l) (hc : b.caller = none) (hmay : s.mayStep b = true)
    (h : Keeps { s with loop := l, worker := workerAfter s.worker b }) : Keeps s := by
  obtain ⟨ms, t, hr, ht⟩ := h
  refine ⟨.loop b :: ms, t, .cons ?_ hr, ht⟩
  simp [Step, exec, execLoop, hc, hmay, hl]

section

variable (hno : s.promiseForLoop = false) (hw : s.worker = .looping)
include hno hw

theorem keeps_of_running (hpc : s.loop.pc = .running 0) : Keeps s := by
  refine ⟨[.keepPromise], { s with promiseForLoop := true }, .cons ?_ (.nil _), rfl, rfl, rfl⟩
  simp [Step, exec, hw, hpc, hno]

theorem keeps_of_inner (hpc : s.loop.pc = .inner) (hidle : s.loop.stage none = .idle)
    (hp : s.loop.Pending) : Keeps s := by
  obtain ⟨rest, hpop⟩ := hp.pop
  have hex : s.loop.exec .dequeue = some { s.loop with
      pc := .running 0, funcs := rest, executed := s.loop.executed ++ [0] } := by
    simp only [EventLoop.exec, hidle, EventLoop.execLoop, hpc, hpop]
  exact .own hex rfl (by simp [mayStep, hw]) (keeps_of_running hno (by rw [hw]; rfl) rfl)

theorem keeps_of_outer (hpc : s.loop.pc = .outer) (hidle : s.loop.stage none = .idle)
    (hp : s.loop.Pending) : Keeps s := by
  obtain ⟨rest, hpop⟩ := hp.pop
  have hex : s.loop.exec .testEmpty = some { s.loop with pc := .inner } := by
    simp [EventLoop.exec, hidle, EventLoop.execLoop, hpc, hpop]
  exact .own hex rfl (by simp [mayStep, hw]) (keeps_of_inner hno (by rw [hw]; rfl) rfl hidle hp)

theorem keeps_of_handled (hpc : s.loop.pc = .handling false) (hidle : s.loop.stage none = .idle)
    (hp : s.loop.Pending) : Keeps s := by
  have hex : s.loop.exec .endHandling = some { s.loop with pc := .outer } := by
    simp only [EventLoop.exec, hidle, EventLoop.execLoop, hpc]
  exact .own hex rfl (by simp [mayStep, hw]) (keeps_of_outer hno (by rw [hw]; rfl) rfl hidle hp)

theorem keeps_of_handling_idle {wake : Bool} (hpc : s.loop.pc = .handling wake)
    (hidle : s.loop.stage none = .idle) (hp : s.loop.Pending) (hread : s.loop.Readable) :
    Keeps s := by
  cases wake with
  | false => exact keeps_of_handled hno hw hpc hidle hp
  | true =>
      have hex : s.loop.exec (.wakeupRead 0) =
          some { s.loop with pc := .handling false, wakeupFd := 0 } := by
        simp only [EventLoop.exec, hidle, EventLoop.execLoop, hpc, if_pos (hread hpc)]
      exact .own hex rfl (by simp [mayStep, hw])
        (keeps_of_handled hno (by rw [hw]; rfl) rfl hidle hp)

omit hno [DecidableEq U] in
theorem ownCall {b : EventLoop.Act (Option U)} (hcall : b.isCall = true) :
    s.mayStep b = true ∧ workerAfter s.worker b = .looping := by
  rw [hw]
  cases b with
  | exchange | link | wakeup | quitLoad | quitStore | quitWakeup =>
      exact ⟨by simp [mayStep, hw], rfl⟩
  | _ => cases hcall

theorem keeps_of_call {b : EventLoop.Act (Option U)} {wake : Bool}
    (hl : ∃ l, s.loop.exec b = some l ∧ l.stage none = .idle) (hc : b.caller = none)
    (hcall : b.isCall = true) (hpc : s.loop.pc = .handling wake) (hp : s.loop.Pending)
    (hread : s.loop.Readable) : Keeps s := by
  obtain ⟨l, hl, hidle⟩ := hl
  have hb := (EventLoop.effect_of_exec hl).beside hcall
  obtain ⟨hmay, hafter⟩ := ownCall hw hcall
  exact .own hl hc hmay (keeps_of_handling_idle hno hafter (hb.pc.trans hpc) hidle
    (hb.pending hp) (hread.step hl))

theorem keeps_of_enqueued {f : Nat} {wake : Bool} (hst : s.loop.stage none = .enqueued f)
    (hpc : s.loop.pc = .handling wake) (hp : s.loop.Pending) (hread : s.loop.Readable) :
    Keeps s := by
  refine keeps_of_call hno hw (b := .wakeup none) ?_ rfl rfl hpc hp hread
  simp only [EventLoop.exec, hst]
  exact ⟨_, rfl, by simp [EventLoop.setStage]⟩

theorem keeps_of_handling {wake : Bool} (hpc : s.loop.pc = .handling wake) (hp : s.loop.Pending)
    (hread : s.loop.Readable) : Keeps s := by
  cases hst : s.loop.stage none with
  | idle => exact keeps_of_handling_idle hno hw hpc hst hp hread
  | enqueued f => exact keeps_of_enqueued hno hw hst hpc hp hread
  | enqueuing f =>
      have hex : s.loop.exec (.link none) = some { s.loop.setStage none (.enqueued f) with
          funcs := Fifo.link none s.loop.funcs } := by
        simp only [EventLoop.exec, hst]
      have hb := (EventLoop.effect_of_exec hex).beside rfl
      obtain ⟨hmay, hafter⟩ := ownCall hw (b := .link none) rfl
      exact .own hex rfl hmay (keeps_of_enqueued hno hafter (f := f) (by simp [EventLoop.setStage])
        (hb.pc.trans hpc) (hb.pending hp) (hread.step hex))
  | quitting =>
      refine keeps_of_call hno hw (b := .quitStore none) ?_ rfl rfl hpc hp hread
      simp only [EventLoop.exec, hst]
      exact ⟨_, rfl, by simp [EventLoop.setStage]⟩
  | quitWake =>
      refine keeps_of_call hno hw (b := .quitWakeup none) ?_ rfl rfl hpc hp hread
      simp only [EventLoop.exec, hst]
      exact ⟨_, rfl, by simp [EventLoop.setStage]⟩

theorem keeps_of_poll (hpc : s.loop.pc = .poll) (hidle : s.loop.stage none = .idle)
    (hp : s.loop.Pending) : Keeps s := by
  have hex : s.loop.exec (.pollReturn false) = some { s.loop with pc := .handling false } := by
    simp [EventLoop.exec, hidle, EventLoop.execLoop, hpc]
  exact .own hex rfl (by simp [mayStep, hw]) (keeps_of_handled hno (by rw [hw]; rfl) rfl hidle hp)

theorem keeps_of_test (hpc : s.loop.pc = .test) (hquit : s.loop.quit = false)
    (hidle : s.loop.stage none = .idle) (hp : s.loop.Pending) : Keeps s := by
  have hex : s.loop.exec .testQuit = some { s.loop with pc := .poll } := by
    simp [EventLoop.exec, hidle, EventLoop.execLoop, hpc, hquit]
  exact .own hex rfl (by simp [mayStep, hw]) (keeps_of_poll hno (by rw [hw]; rfl) rfl hidle hp)

theorem keeps_of_starting (hpc : s.loop.pc = .starting) (hidle : s.loop.stage none = .idle)
    (hp : s.loop.Pending) : Keeps s := by
  have hex : s.loop.exec .clearQuit =
      some { s.loop with pc := .test, quit := false, covered := [] } := by
    simp only [EventLoop.exec, hidle, EventLoop.execLoop, hpc]
  exact .own hex rfl (by simp [mayStep, hw]) (keeps_of_test hno (by rw [hw]; rfl) rfl rfl hidle hp)

theorem keeps_of_front (hi : Inv s) (ha : Ahead s) : Keeps s := by
  obtain ⟨hf, hcalm⟩ := ha.front hw hno
  rcases hf with hzero | ⟨hp, hfirst⟩
  · exact keeps_of_running hno hw hzero
  · have hidle : s.loop.pc.userCode = false → s.loop.stage none = .idle := fun huser => by
      by_contra hne
      cases huser.symm.trans (hi.awake.own hne)
    cases hpc : s.loop.pc with
    | starting => exact keeps_of_starting hno hw hpc (hidle (by rw [hpc]; rfl)) hp
    | test => exact keeps_of_test hno hw hpc (hcalm hpc) (hidle (by rw [hpc]; rfl)) hp
    | poll => exact keeps_of_poll hno hw hpc (hidle (by rw [hpc]; rfl)) hp
    | handling wake => exact keeps_of_handling hno hw hpc hp ha.readable
    | outer => exact keeps_of_outer hno hw hpc (hidle (by rw [hpc]; rfl)) hp
    | inner => exact keeps_of_inner hno hw hpc (hidle (by rw [hpc]; rfl)) hp
    | outside | running | destroying | exited =>
        rw [hpc] at hfirst
        cases hfirst

end

/-- Some continuation of the run brings `run()` to its end. -/
def CanReturn (s : LoopThread U) : Prop := ∃ ms t, Run Step s ms t ∧ t.once = .done

theorem canReturn_of_ahead (hi : Inv s) (hk : Called s) (ha : Ahead s)
    (hrun : s.promiseForRun = true) : s.CanReturn := by
  cases honce : s.once with
  | fresh => exact absurd honce (hk.called.mp hrun)
  | done => exact ⟨[], s, .nil s, honce⟩
  | active =>
      obtain ⟨v, hv⟩ := hk.active honce
      have hkeeps : Keeps s := by
        cases hno : s.promiseForLoop with
        | true => exact ⟨[], s, .nil s, hno, rfl, rfl⟩
        | false =>
            cases hw : s.worker with
            | queueing | publishing =>
                have ho := hk.early (hk.pointer (by simp [hw]))
                cases honce.symm.trans (hk.fresh ho).1
            | awaiting =>
                obtain ⟨hp, hidle⟩ := ha.placed (Or.inr hw)
                have hex : s.loop.exec .loop =
                    some { s.loop with pc := .starting, looping := true } := by
                  simp only [EventLoop.exec, hidle, EventLoop.execLoop,
                    hi.before (Or.inr (Or.inr hw))]
                exact .own hex rfl (by simp [mayStep, hw, hrun])
                  (keeps_of_starting hno (by rw [hw]; rfl) rfl hidle hp)
            | looping => exact keeps_of_front hno hw hi ha
            | clearing | destroying | done => cases hno.symm.trans (ha.kept (by simp [Over, hw]))
      obtain ⟨ms, t, hr, hkept, hsame, hpcs⟩ := hkeeps
      refine ⟨ms ++ [.runReturn v], _, hr.snoc (u := ({ t with once := .done }.endRun v)) ?_, rfl⟩
      simp [Step, exec, hpcs, hv, hkept]

/-! ### A run in which it is not -/

/-- The loop ends, or has ended, before its first function was run. -/
def Missed (s : LoopThread U) : Prop :=
  s.promiseForLoop = false ∧ s.once ≠ .done ∧
    (s.worker = .looping ∧ s.loop.pc = .test ∧ s.loop.quit = true ∨ s.Ended)

theorem Missed.unkept (h : s.Missed) (hs : Effect s a s') :
    s'.promiseForLoop = false ∧ s'.once ≠ .done := by
  obtain ⟨hno, hdone, hpos⟩ := h
  cases hs with
  | keepPromise hw hpc =>
      rcases hpos with ⟨-, htest, -⟩ | ⟨-, hend⟩ | hover
      · cases hpc.symm.trans htest
      · cases hpc.symm.trans hend
      · simp [Over, hw] at hover
  | @use _ t l =>
      obtain ⟨o, ho⟩ := exists_afterUse { s with loop := l } t
      rw [ho]
      exact ⟨hno, hdone⟩
  | runFirst => exact ⟨hno, by simp⟩
  | runAgain _ ho => exact absurd ho hdone
  | runReturn _ hp => cases hno.symm.trans hp
  | _ => exact ⟨hno, hdone⟩

theorem Missed.step (h : s.Missed) (hs : Effect s a s') : s'.Missed := by
  obtain ⟨hno', hdone'⟩ := h.unkept hs
  refine ⟨hno', hdone', ?_⟩
  rcases h.2.2 with ⟨hw, hpc, hquit⟩ | hend
  · cases hs with
    | @own b l hc hmay hl =>
        cases EventLoop.effect_of_exec hl with
        | exchange | link | wakeup | quitLoad | quitWakeup =>
            exact Or.inl ⟨by rw [hw]; rfl, hpc, hquit⟩
        | quitStore => exact Or.inl ⟨by rw [hw]; rfl, hpc, rfl⟩
        | testQuit => exact Or.inr (Or.inl ⟨by rw [hw]; rfl, if_pos hquit⟩)
        | loop _ hpc' | clearQuit _ hpc' | pollReturn _ hpc' | wakeupRead _ hpc'
          | endHandling _ hpc' | testEmpty _ hpc' | dequeue _ hpc' | dequeueNone _ hpc'
          | endFunc _ hpc' | destroyFunc _ hpc' | leave _ hpc' => cases hpc.symm.trans hpc'
    | @use _ t l hc _ _ hl =>
        have hb := (EventLoop.effect_of_exec hl).beside (EventLoop.Act.isCall_of_caller hc)
        obtain ⟨o, ho⟩ := exists_afterUse { s with loop := l } t
        rw [ho]
        exact Or.inl ⟨hw, hb.pc.trans hpc, hb.quit hquit⟩
    | publish hw' | clear hw' | destroy hw' => cases hw.symm.trans hw'
    | _ => exact Or.inl ⟨hw, hpc, hquit⟩
  · exact Or.inr (hend.step hs).2

theorem Missed.not_canReturn (h : s.Missed) : ¬ s.CanReturn := by
  rintro ⟨ms, t, hr, hdone⟩
  exact (hr.invariant (fun _ _ _ hm hs => hm.step (effect_of_step hs)) h).2.1 hdone

/-- A flag that is set before the first test makes the loop miss its first function. -/
theorem missed_of_not_served (hi : Inv s) (hk : Called s) (ha : Ahead s) (hg : ¬ s.QuitsServed a)
    (hs : Effect s a s') : s'.Missed ∧ s'.promiseForRun = true := by
  obtain ⟨t, rfl⟩ : ∃ t, a = .loop (.quitStore t) := by
    cases a with
    | loop b =>
        cases b with
        | quitStore t => exact ⟨t, rfl⟩
        | _ => exact absurd trivial hg
    | _ => exact absurd trivial hg
  obtain ⟨hpc, hkept⟩ := Classical.not_imp.mp hg
  have hno : s.promiseForLoop = false := by simpa using hkept
  have hw : s.worker = .looping := by
    cases hw : s.worker with
    | looping => rfl
    | queueing | publishing | awaiting => cases hpc.symm.trans (hi.before (by simp [hw]))
    | clearing | destroying | done => cases hno.symm.trans (ha.kept (by simp [Over, hw]))
  have hrun := hk.running (Or.inl hw)
  have hdone : s.once ≠ .done := fun h => by cases hno.symm.trans (hi.once h)
  cases hs with
  | own _ _ hl =>
      cases EventLoop.effect_of_exec hl
      exact ⟨⟨hno, hdone, Or.inl ⟨by rw [hw]; rfl, hpc, rfl⟩⟩, hrun⟩
  | @use _ v l _ _ _ hl =>
      obtain ⟨o, ho⟩ := exists_afterUse { s with loop := l } v
      rw [ho]
      cases EventLoop.effect_of_exec hl
      exact ⟨⟨hno, hdone, Or.inl ⟨hw, hpc, rfl⟩⟩, hrun⟩
  | stray _ _ hdone => cases hw.symm.trans hdone

/-- **When `run()` returns.** At every moment of a run from the call of
`run()` on, the run can be continued to the return of `run()`, exactly if
nobody sets the quit flag between the beginning of `loop()` and its first
test; a flag set there stops the loop before it has run the function that
`run()` waits for, and the call, and with it the destructor, blocks for
ever. -/
theorem run_returns_iff (acts : List (Act U)) :
    Throughout Step (fun s => s.promiseForRun = true → s.CanReturn) LoopThread.new acts ↔
      EveryStep Step QuitsServed LoopThread.new acts := by
  refine throughout_iff_everyStep (I := fun s => Inv s ∧ Called s ∧ Ahead s)
    ⟨.new, .new, .new⟩ ?_ ?_ ?_
  · rintro s a t ⟨hi, hk, ha⟩ hg hs
    have heff := effect_of_step hs
    exact ⟨hi.step heff, hk.step heff, ha.step hk hg heff⟩
  · rintro s ⟨hi, hk, ha⟩ hrun
    exact canReturn_of_ahead hi hk ha hrun
  · rintro s a t ⟨hi, hk, ha⟩ hg hs hcan
    obtain ⟨hmissed, hrun⟩ := missed_of_not_served hi hk ha hg (effect_of_step hs)
    exact hmissed.not_canReturn (hcan hrun)

end LoopThread

end Netpoll
