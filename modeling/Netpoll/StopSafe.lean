import Netpoll.ServerStop

/-!
# Which servers can be stopped

Where `stop()` may talk to a loop that is gone. Two things are needed for
that: the pool is destroyed with its loops, and one of them has a timing
wheel (`StopConfig.LosesWheels`). Otherwise every loop that `stop()` queues a
functor in runs on, and comes to that functor, whatever else is in its queue
(`Inv.fulfilled`). With both, the functor for the first such wheel goes to a
loop that is gone, and `stop()` waits for good (`Stuck`).
-/

namespace Netpoll

namespace ServerThreads

variable {n : Nat} {cfg : StopConfig n} {q q' : ServerThreads n} {l : LoopId n} {t : StopTask n}

/-! ## Without wheels of the pool's loops -/

theorem Inv.loop_ne_exited {i : Fin n} (h : Inv cfg q) (hi : q.quit i ≠ true) :
    q.loop i ≠ .exited :=
  fun hexit => hi (h.exited i hexit)

theorem alive_some {i : Fin n} (h : q.loop i ≠ .exited) : q.alive (some i) = true :=
  decide_eq_true h

theorem dangled_stopQueues (h : q.alive l = true) : (q.stopQueues l t).dangled = q.dangled := by
  simp only [stopQueues, h, Bool.not_true, Bool.or_false]

theorem dangled_runTask (q : ServerThreads n) (t : StopTask n) :
    (q.runTask cfg t).dangled = q.dangled := by
  cases ht : t.isPromise with
  | false => exact ((Grows.refl q).runTask ht).dangled
  | true =>
      cases t with
      | closeAll | resetWheel => rfl
      | forceClose | handleCloseInLoop | connectDestroyed | other => cases ht

theorem Inv.dangled_sweep {c : ConnId} {cs : List ConnId} (h : Inv cfg q)
    (hsweep : q.sweeping = some (c :: cs)) :
    ({ q with sweeping := some cs }.forceClose cfg c).dangled = q.dangled := by
  have hne : q.sweeping ≠ none := by
    rw [hsweep]
    exact fun heq => nomatch heq
  unfold ServerThreads.forceClose
  split
  · exact ((Grows.refl _).handleClose c).dangled
  next i _ =>
    have hquit : q.quit i ≠ true := by
      intro hi
      have hafter := (h.fits.told i hi).2
      rw [(h.sweeping hne).1] at hafter
      cases hafter
    exact dangled_stopQueues (alive_some (h.loop_ne_exited hquit))

theorem Inv.alive_of_wheel (h : Inv cfg q) (hcfg : ¬ cfg.LosesWheels)
    (hl : l ∈ q.stopper.left) : q.alive l = true := by
  cases l with
  | none => rfl
  | some i =>
      refine alive_some (h.loop_ne_exited fun hi => hcfg ?_)
      exact ⟨(h.fits.told i hi).1, i, h.fits.wheels _ hl⟩

theorem Inv.dangled_step {a : StopAct n} (h : Inv cfg q) (hcfg : ¬ cfg.LosesWheels)
    (hs : StopStep cfg q a q') : q'.dangled = q.dangled := by
  cases stopEffect_of_step hs with
  | closeThere => exact dangled_stopQueues (t := .closeAll) rfl
  | @wheelThere l ls hstop _ =>
      have hleft : l ∈ q.stopper.left := by
        rw [hstop]
        exact List.mem_cons_self
      exact dangled_stopQueues (t := .resetWheel l) (h.alive_of_wheel hcfg hleft)
  | sweep hsweep => exact h.dangled_sweep hsweep
  | serverTask | loopTask => exact dangled_runTask ..
  | @peerClose c => exact ((Grows.refl q).handleClose c).dangled
  | _ => rfl

/-! ## Promises are fulfilled -/

/-- The thread of the loop takes functors from its queue. -/
def running (cfg : StopConfig n) (q : ServerThreads n) : LoopId n → Bool
  | none => q.serverFree cfg
  | some i => q.loop i = .funcs

/-- The next step of the thread of a loop. -/
def actOf : LoopId n → StopAct n
  | none => .server
  | some i => .loop i

theorem step_front {rest : List (StopTask n)} (hr : q.running cfg l = true)
    (hq : q.queue l = t :: rest) :
    StopStep cfg q (actOf l) ((q.pop l rest).runTask cfg t) := by
  cases l with
  | none =>
      have hsweep : q.sweeping = none := by
        rw [running, serverFree, Bool.and_eq_true, Option.isNone_iff_eq_none] at hr
        exact hr.1
      rw [running] at hr
      simp only [StopStep, exec, actOf, execServer, hsweep, hr, if_true, runFront, hq]
  | some i =>
      have hpc : q.loop i = .funcs := of_decide_eq_true hr
      simp only [StopStep, exec, actOf, execLoop, hpc, hq, runFront]

theorem Grows.running (h : Grows q q') (hr : q.running cfg l = true) :
    q'.running cfg l = true := by
  cases l with
  | none =>
      rw [ServerThreads.running, serverFree, stopping] at hr ⊢
      rwa [h.sweeping, h.stopper]
  | some i =>
      rw [ServerThreads.running] at hr ⊢
      rwa [h.loop]

theorem sweep_ends (cfg : StopConfig n) {cs : List ConnId} (h : q.sweeping = some cs) :
    ∃ ms v, Run (StopStep cfg) q ms v ∧ v.promise = true ∧ v.stopper = q.stopper := by
  induction cs generalizing q with
  | nil =>
      refine ⟨[.server], { q with sweeping := none, promise := true }, .cons ?_ (.nil _), rfl, rfl⟩
      simp only [StopStep, exec, execServer, h]
  | cons c cs ih =>
      let r : ServerThreads n := { q with sweeping := some cs }
      have hstep : StopStep cfg q .server (r.forceClose cfg c) := by
        simp only [StopStep, exec, execServer, h, r]
      have hframe : (r.forceClose cfg c).sweeping = some cs ∧
          (r.forceClose cfg c).stopper = q.stopper := by
        unfold forceClose
        split
        · have hg : Grows r (r.handleClose cfg c) := (Grows.refl r).handleClose c
          exact ⟨hg.sweeping, hg.stopper⟩
        · exact ⟨rfl, rfl⟩
      obtain ⟨ms, v, hrun, hp, hv⟩ := ih hframe.1
      exact ⟨.server :: ms, v, .cons hstep hrun, hp, hv.trans hframe.2⟩

theorem front_comes {pre rest : List (StopTask n)} (hr : q.running cfg l = true)
    (hq : q.queue l = pre ++ t :: rest) (hpre : ∀ u ∈ pre, u.isPromise = false)
    (ht : t.isPromise = true) :
    ∃ ms v, Run (StopStep cfg) q ms v ∧ v.promise = true ∧ v.stopper = q.stopper := by
  induction pre generalizing q rest with
  | nil =>
      have hstep := step_front hr hq
      cases t with
      | closeAll =>
          have hsweep : ((q.pop l rest).runTask cfg .closeAll).sweeping = some q.connSet := rfl
          obtain ⟨ms, v, hrun, hp, hv⟩ := sweep_ends cfg hsweep
          exact ⟨_, v, .cons hstep hrun, hp, hv⟩
      | resetWheel l' => exact ⟨_, _, .cons hstep (.nil _), rfl, rfl⟩
      | forceClose | handleCloseInLoop | connectDestroyed | other => cases ht
  | cons u pre ih =>
      have hu := hpre u List.mem_cons_self
      have hg : Grows (q.pop l (pre ++ t :: rest)) ((q.pop l (pre ++ t :: rest)).runTask cfg u) :=
        (Grows.refl _).runTask hu
      obtain ⟨more, hmore, -⟩ := hg.queue l
      rw [queue_pop_self, List.append_assoc, List.cons_append] at hmore
      have hr' : (q.pop l (pre ++ t :: rest)).running cfg l = true := by
        cases l <;> exact hr
      obtain ⟨ms, v, hrun, hp, hv⟩ := ih (hg.running hr') hmore
        fun u' hu' => hpre u' (List.mem_cons_of_mem u hu')
      exact ⟨_, v, .cons (step_front hr hq) hrun, hp, hv.trans hg.stopper⟩

theorem loop_comes (cfg : StopConfig n) {i : Fin n} (hquit : q.quit i ≠ true)
    (hloop : q.loop i ≠ .exited) :
    ∃ ms, Run (StopStep cfg) q ms (q.setLoop i .funcs) := by
  have hpoll : ∀ {r : ServerThreads n}, r.loop i = .poll →
      StopStep cfg r (.loop i) (r.setLoop i .funcs) := by
    intro r hr
    simp only [StopStep, exec, execLoop, hr]
  cases hi : q.loop i with
  | test =>
      have htest : StopStep cfg q (.loop i) (q.setLoop i .poll) := by
        simp only [StopStep, exec, execLoop, hi, hquit, if_false, Bool.false_eq_true]
      have hnext := hpoll (r := q.setLoop i .poll) (Function.update_self ..)
      have htwice : (q.setLoop i .poll).setLoop i .funcs = q.setLoop i .funcs := by
        simp only [setLoop, Function.update_idem]
      exact ⟨_, .cons htest (.cons (htwice ▸ hnext) (.nil _))⟩
  | poll => exact ⟨_, .cons (hpoll hi) (.nil _)⟩
  | funcs =>
      have hsame : q.setLoop i .funcs = q := by
        rw [setLoop, ← hi, Function.update_eq_self]
      exact ⟨[], hsame.symm ▸ .nil q⟩
  | exited => exact absurd hi hloop

/-- While `stop()` waits for a loop that runs, the promise can be fulfilled. -/
theorem Inv.fulfilled (h : Inv cfg q) (hp : q.promise = false)
    (hawaits : q.stopper.awaits = some (l, t)) (hl : q.alive l = true)
    (hquit : ∀ i, l = some i → q.quit i ≠ true) :
    ∃ ms v, Run (StopStep cfg) q ms v ∧ v.promise = true ∧ v.stopper = q.stopper := by
  cases hsweep : q.sweeping with
  | some cs => exact sweep_ends cfg hsweep
  | none =>
      have howed := owed_of_awaits hawaits hp hsweep
      have hfilter := h.owed l
      rw [howed] at hfilter
      obtain ⟨pre, rest, hq, hpre, ht, -⟩ := List.filter_eq_cons_iff.mp hfilter
      have hpre' : ∀ u ∈ pre, u.isPromise = false := fun u hu => Bool.not_eq_true _ ▸ hpre u hu
      cases l with
      | none =>
          have hon : cfg.onLoop = false := by
            by_contra hon
            rw [h.direct (Bool.not_eq_false _ ▸ hon)] at howed
            cases howed
          have hr : q.running cfg none = true := by
            simp [running, serverFree, hsweep, hon]
          exact front_comes hr hq hpre' ht
      | some i =>
          obtain ⟨ms, hrun⟩ := loop_comes cfg (hquit i rfl) (of_decide_eq_true hl)
          have hr : (q.setLoop i .funcs).running cfg (some i) = true :=
            decide_eq_true (Function.update_self ..)
          obtain ⟨ks, v, hrun', hp', hv⟩ := front_comes hr hq hpre' ht
          exact ⟨_, v, hrun.append hrun', hp', hv⟩

/-- No functor is queued by `stop()` in a loop that is gone, every wheel is
reset before the thread of its loop is told to quit, and the promises that
`stop()` waits for can be fulfilled. Only what `stop()` itself queues is
counted: the `connectDestroyed` that `handleCloseInLoop` queues in the loop of
a connection may still come to a loop of a destroyed pool. -/
structure Safe (cfg : StopConfig n) (q : ServerThreads n) : Prop where
  alive : q.dangled = false
  wheelsFirst : ∀ i, q.quit i = true → some i ∉ q.stopper.wheelsLeft cfg.wheels
  fulfilled : q.promise = false → q.stopper.awaits ≠ none →
    ∃ ms v, Run (StopStep cfg) q ms v ∧ v.promise = true ∧ v.stopper = q.stopper

theorem Inv.safe (h : Inv cfg q) (hcfg : ¬ cfg.LosesWheels) (hd : q.dangled = false) :
    Safe cfg q where
  alive := hd
  wheelsFirst i hi hmem := by
    refine hcfg ⟨(h.fits.told i hi).1, i, ?_⟩
    exact StopAt.mem_of_wheelsLeft h.fits.wheels hmem
  fulfilled hp hne := by
    obtain ⟨⟨l, t⟩, hawaits⟩ := Option.ne_none_iff_exists'.mp hne
    have hquit : ∀ i, l = some i → q.quit i ≠ true := by
      rintro i rfl hi
      obtain ⟨howned, hafter⟩ := h.fits.told i hi
      exact hcfg ⟨howned, i, h.fits.wheels _ (StopAt.mem_left hawaits)⟩
    refine h.fulfilled hp hawaits ?_ hquit
    cases l with
    | none => rfl
    | some i => exact alive_some (h.loop_ne_exited (hquit i rfl))

/-! ## With them -/

/-- `stop()` stands at `a`, and no functor is queued anywhere. -/
structure Clear (q : ServerThreads n) (a : StopAt n) : Prop where
  queue : ∀ l, q.queue l = []
  sweeping : q.sweeping = none
  stopper : q.stopper = a

theorem queue_pop_queueInLoop (h : ∀ l, q.queue l = []) (l l' : LoopId n) :
    ((q.queueInLoop l t).pop l []).queue l' = [] := by
  by_cases hl : l' = l
  · rw [hl, queue_pop_self]
  · rw [queue_pop_of_ne hl, queue_queueInLoop_of_ne hl, h l']

theorem queue_only (h : ∀ l, q.queue l = []) (l : LoopId n) :
    (q.queueInLoop l t).queue l = [t] := by
  rw [queue_queueInLoop_self, h l]
  rfl

theorem sweep_done (h : q.sweeping = some []) :
    StopStep cfg q .server { q with sweeping := none, promise := true } := by
  simp only [StopStep, exec, execServer, h]

/-- Without connections, `stop()` comes to the destruction of the pool. -/
theorem reaches_quit (howned : cfg.owned = true) :
    ∃ ms v, Run (StopStep cfg) new ms v ∧ v.Clear (.quit (List.finRange n)) ∧
      ∀ i, v.loop i = .poll := by
  have hquit : ∀ {r : ServerThreads n}, r.stopper = .waitClose → r.promise = true →
      StopStep cfg r .stop { r with stopper := .quit (List.finRange n) } := by
    intro r hr hp
    simp only [StopStep, exec, execStop, hr, hp, howned, if_true]
  cases hon : cfg.onLoop with
  | true =>
      let r : ServerThreads n := { new.closeAll with stopper := .waitClose, promise := false }
      have hstop : StopStep cfg new .stop r := by
        simp only [StopStep, exec, execStop, new, hon, if_true, Option.isNone_none, r]
      have hsweep : StopStep cfg r .server { r with sweeping := none, promise := true } :=
        sweep_done rfl
      exact ⟨_, _, .cons hstop (.cons hsweep (.cons (hquit rfl rfl) (.nil _))),
        ⟨fun _ => rfl, rfl, rfl⟩, fun _ => rfl⟩
  | false =>
      let r : ServerThreads n :=
        { new.stopQueues none .closeAll with stopper := .waitClose, promise := false }
      have hstop : StopStep cfg new .stop r := by
        simp only [StopStep, exec, execStop, new, hon, Bool.false_eq_true, if_false, r]
      have hrun : r.running cfg none = true := by
        simp only [running, serverFree, hon, Bool.false_and, Bool.not_false, Bool.and_true]
        rfl
      have hempty : ∀ l, (new : ServerThreads n).queue l = [] := fun _ => rfl
      have hfront : StopStep cfg r .server ((r.pop none []).runTask cfg .closeAll) :=
        step_front hrun (queue_only hempty none)
      have hsweep : StopStep cfg ((r.pop none []).runTask cfg .closeAll) .server
          { (r.pop none []).runTask cfg .closeAll with sweeping := none, promise := true } :=
        sweep_done rfl
      exact ⟨_, _, .cons hstop (.cons hfront (.cons hsweep (.cons (hquit rfl rfl) (.nil _)))),
        ⟨queue_pop_queueInLoop hempty none, rfl, rfl⟩, fun _ => rfl⟩

theorem reaches_exit (cfg : StopConfig n) {i : Fin n} {is : List (Fin n)}
    (hq : q.Clear (.quit (i :: is))) (hloop : q.loop i = .poll) :
    ∃ ms v, Run (StopStep cfg) q ms v ∧ v.Clear (.quit is) ∧
      v.loop = Function.update q.loop i .exited := by
  let r : ServerThreads n := { q with quit := Function.update q.quit i true, stopper := .join i is }
  have htold : r.quit i = true := Function.update_self ..
  have htell : StopStep cfg q .stop r := by
    simp only [StopStep, exec, execStop, hq.stopper, r]
  have hpoll : StopStep cfg r (.loop i) (r.setLoop i .funcs) := by
    have hpc : r.loop i = .poll := hloop
    simp only [StopStep, exec, execLoop, hpc]
  have hfuncs : StopStep cfg (r.setLoop i .funcs) (.loop i)
      ((r.setLoop i .funcs).setLoop i .test) := by
    have hpc : (r.setLoop i .funcs).loop i = .funcs := Function.update_self ..
    have hempty : (r.setLoop i .funcs).queue (some i) = [] := hq.queue (some i)
    simp only [StopStep, exec, execLoop, hpc, hempty]
  have htest : StopStep cfg ((r.setLoop i .funcs).setLoop i .test) (.loop i)
      (((r.setLoop i .funcs).setLoop i .test).setLoop i .exited) := by
    have hpc : ((r.setLoop i .funcs).setLoop i .test).loop i = .test := Function.update_self ..
    have hset : ((r.setLoop i .funcs).setLoop i .test).quit i = true := htold
    simp only [StopStep, exec, execLoop, hpc, hset, if_true]
  have hjoin : StopStep cfg (((r.setLoop i .funcs).setLoop i .test).setLoop i .exited) .stop
      { ((r.setLoop i .funcs).setLoop i .test).setLoop i .exited with stopper := .quit is } := by
    have hat : (((r.setLoop i .funcs).setLoop i .test).setLoop i .exited).stopper =
      .join i is := rfl
    have hpc : (((r.setLoop i .funcs).setLoop i .test).setLoop i .exited).loop i = .exited :=
      Function.update_self ..
    simp only [StopStep, exec, execStop, hat, hpc, if_true]
  refine ⟨_, _, .cons htell (.cons hpoll (.cons hfuncs (.cons htest (.cons hjoin (.nil _))))),
    ⟨hq.queue, hq.sweeping, rfl⟩, ?_⟩
  simp only [setLoop, Function.update_idem, r]

theorem reaches_wheels {is : List (Fin n)} (hq : q.Clear (.quit is)) (hnodup : is.Nodup)
    (hloop : ∀ i ∈ is, q.loop i = .poll) :
    ∃ ms v, Run (StopStep cfg) q ms v ∧ v.Clear (.wheels cfg.wheels) := by
  induction is generalizing q with
  | nil =>
      have hstep : StopStep cfg q .stop { q with stopper := .wheels cfg.wheels } := by
        simp only [StopStep, exec, execStop, hq.stopper]
      exact ⟨_, _, .cons hstep (.nil _), hq.queue, hq.sweeping, rfl⟩
  | cons i is ih =>
      rw [List.nodup_cons] at hnodup
      obtain ⟨ms, v, hrun, hv, hvloop⟩ := reaches_exit cfg hq (hloop i List.mem_cons_self)
      obtain ⟨ks, w, hrun', hw⟩ := ih hv hnodup.2 fun j hj => by
        have hji : j ≠ i := fun heq => hnodup.1 (heq ▸ hj)
        rw [hvloop, Function.update_of_ne hji, hloop j (List.mem_cons_of_mem i hj)]
      exact ⟨_, w, hrun.append hrun', hw⟩

/-- `stop()` waits for a functor in the queue of a loop that is gone. -/
structure Stuck (q : ServerThreads n) (i : Fin n) (ls : List (LoopId n)) : Prop where
  stopper : q.stopper = .waitWheel (some i) ls
  promise : q.promise = false
  loop : q.loop i = .exited

theorem reaches_next (cfg : StopConfig n) {ls : List (LoopId n)}
    (hq : q.Clear (.wheels (none :: ls))) :
    ∃ ms v, Run (StopStep cfg) q ms v ∧ v.Clear (.wheels ls) := by
  cases hon : cfg.onLoop with
  | true =>
      have hdirect : StopStep cfg q .stop { q with stopper := .wheels ls } := by
        simp only [StopStep, exec, execStop, hq.stopper, hon, Option.isNone_none, Bool.and_self,
          if_true]
      exact ⟨_, _, .cons hdirect (.nil _), hq.queue, hq.sweeping, rfl⟩
  | false =>
      let r : ServerThreads n := { q.stopQueues none (.resetWheel none) with
        stopper := .waitWheel none ls, promise := false }
      have hsend : StopStep cfg q .stop r := by
        simp only [StopStep, exec, execStop, hq.stopper, hon, Bool.false_and, Bool.false_eq_true,
          if_false, r]
      have hrun : r.running cfg none = true := by
        have hsweep : r.sweeping = none := hq.sweeping
        simp only [running, serverFree, hsweep, hon, Option.isNone_none, Bool.false_and,
          Bool.not_false, Bool.and_self]
      have hfront : StopStep cfg r .server ((r.pop none []).runTask cfg (.resetWheel none)) :=
        step_front hrun (queue_only hq.queue none)
      have hnext : StopStep cfg ((r.pop none []).runTask cfg (.resetWheel none)) .stop
          { (r.pop none []).runTask cfg (.resetWheel none) with stopper := .wheels ls } := rfl
      exact ⟨_, _, .cons hsend (.cons hfront (.cons hnext (.nil _))),
        queue_pop_queueInLoop hq.queue none, hq.sweeping, rfl⟩

/-- `stop()` comes to a wheel of a loop of the pool, after that is gone. -/
theorem reaches_stuck {ls : List (LoopId n)} (hq : q.Clear (.wheels ls)) (h : Inv cfg q)
    (howned : cfg.owned = true) (hpool : ∃ i, some i ∈ ls) :
    ∃ ms v i rest, Run (StopStep cfg) q ms v ∧ v.Stuck i rest ∧ v.dangled = true := by
  induction ls generalizing q with
  | nil =>
      obtain ⟨i, hi⟩ := hpool
      cases hi
  | cons l ls ih =>
      cases l with
      | some i =>
          have hexit : q.loop i = .exited := h.fits.joined howned i (by rw [hq.stopper]; rfl)
          have hsend : StopStep cfg q .stop { q.stopQueues (some i) (.resetWheel (some i)) with
              stopper := .waitWheel (some i) ls, promise := false } := by
            simp only [StopStep, exec, execStop, hq.stopper, Option.isNone_some, Bool.and_false,
              Bool.false_eq_true, if_false]
          refine ⟨_, _, i, ls, .cons hsend (.nil _), ⟨rfl, rfl, hexit⟩, ?_⟩
          simp [stopQueues, alive, hexit]
      | none =>
          obtain ⟨ms, v, hrun, hv⟩ := reaches_next cfg hq
          have hpool' : ∃ i, some i ∈ ls := by
            obtain ⟨i, hi⟩ := hpool
            exact ⟨i, (List.mem_cons.mp hi).resolve_left (Option.some_ne_none i)⟩
          have hinv : Inv cfg v := hrun.invariant (fun _ _ _ h hs => h.step hs) h
          obtain ⟨ks, w, i, rest, hrun', hw⟩ := ih hv hinv hpool'
          exact ⟨_, w, i, rest, hrun.append hrun', hw⟩

namespace Stuck

variable {i : Fin n} {ls : List (LoopId n)}

theorem grows (h : q.Stuck i ls) (hg : Grows q q') : q'.Stuck i ls :=
  ⟨hg.stopper.trans h.stopper, hg.promise.trans h.promise, hg.loop ▸ h.loop⟩

theorem runFront (h : q.Stuck i ls) (hinv : Inv cfg q) (hl : l ≠ some i)
    (hs : q.runFront cfg l = some q') : q'.Stuck i ls := by
  unfold ServerThreads.runFront at hs
  cases hq : q.queue l with
  | nil =>
      simp only [hq] at hs
      cases hs
  | cons t rest =>
      simp only [hq] at hs
      obtain rfl := Option.some.inj hs
      have hpop : (q.pop l rest).Stuck i ls := ⟨h.stopper, h.promise, h.loop⟩
      cases ht : t.isPromise with
      | false => exact hpop.grows ((Grows.refl _).runTask ht)
      | true =>
          obtain ⟨hawaits, -⟩ := hinv.front hq ht
          rw [h.stopper] at hawaits
          exact absurd (congrArg Prod.fst (Option.some.inj hawaits)).symm hl

theorem setLoop {j : Fin n} {pc : PoolLoopPc} (h : q.Stuck i ls) (hj : j ≠ i) :
    (q.setLoop j pc).Stuck i ls := by
  refine ⟨h.stopper, h.promise, ?_⟩
  change Function.update q.loop j pc i = .exited
  rw [Function.update_of_ne hj.symm, h.loop]

theorem execLoop {j : Fin n} (h : q.Stuck i ls) (hinv : Inv cfg q)
    (hs : q.execLoop cfg j = some q') : q'.Stuck i ls := by
  have hj : j ≠ i := by
    rintro rfl
    simp only [ServerThreads.execLoop, h.loop] at hs
    cases hs
  unfold ServerThreads.execLoop at hs
  split at hs
  · exact Option.some.inj hs ▸ h.setLoop hj
  · exact Option.some.inj hs ▸ h.setLoop hj
  · split at hs
    · exact Option.some.inj hs ▸ h.setLoop hj
    · exact h.runFront hinv (fun heq => hj (Option.some.inj heq)) hs
  · cases hs

/-- Nothing ever fulfils the promise of a functor of a loop that is gone. -/
theorem step {a : StopAct n} (h : q.Stuck i ls) (hinv : Inv cfg q) (hs : StopStep cfg q a q') :
    q'.Stuck i ls := by
  cases a with
  | stop =>
      simp only [StopStep, exec, execStop, h.stopper, h.promise, Bool.false_eq_true, if_false] at hs
      cases hs
  | server =>
      have hsweep : q.sweeping = none := hinv.not_sweeping (Or.inl (by simp [h.stopper]))
      simp only [StopStep, exec, execServer, hsweep, Option.ite_none_right_eq_some] at hs
      exact h.runFront hinv (Option.some_ne_none i).symm hs.2
  | loop j => exact h.execLoop hinv hs
  | accept c =>
      simp only [StopStep, exec, Option.ite_none_right_eq_some, Option.some.injEq] at hs
      exact hs.2 ▸ ⟨h.stopper, h.promise, h.loop⟩
  | peerClose c =>
      simp only [StopStep, exec, Option.ite_none_right_eq_some, Option.some.injEq] at hs
      exact hs.2 ▸ h.grows ((Grows.refl q).handleClose c)
  | post l =>
      simp only [StopStep, exec, Option.ite_none_right_eq_some, Option.some.injEq] at hs
      exact hs.2 ▸ ⟨h.stopper, h.promise, h.loop⟩

end Stuck

theorem hangs (hcfg : cfg.LosesWheels) :
    ∃ acts q i ls, Run (StopStep cfg) new acts q ∧ q.stopper = .waitWheel (some i) ls ∧
      q.dangled = true ∧ ∀ ms v, Run (StopStep cfg) q ms v → v.stopper = q.stopper := by
  obtain ⟨howned, hpool⟩ := hcfg
  have hinv : ∀ {acts : List (StopAct n)} {q q' : ServerThreads n}, Inv cfg q →
      Run (StopStep cfg) q acts q' → Inv cfg q' := by
    intro acts q q' h hrun
    exact hrun.invariant (fun _ _ _ h hs => h.step hs) h
  obtain ⟨ms, v, hrun, hclear, hloop⟩ := reaches_quit howned
  obtain ⟨ms', v', hrun', hclear'⟩ := reaches_wheels hclear (List.nodup_finRange n)
    fun i _ => hloop i
  have hv' := hinv (hinv Inv.new hrun) hrun'
  obtain ⟨ks, q, i, ls, hrun'', hstuck, hdangled⟩ := reaches_stuck hclear' hv' howned hpool
  refine ⟨_, q, i, ls, (hrun.append hrun').append hrun'', hstuck.stopper, hdangled, ?_⟩
  intro ms v hms
  have hlast := hms.invariant (I := fun v => Inv cfg v ∧ v.Stuck i ls)
    (fun _ _ _ h hs => ⟨h.1.step hs, h.2.step h.1 hs⟩) ⟨hinv hv' hrun'', hstuck⟩
  rw [hlast.2.stopper, hstuck.stopper]

end ServerThreads

/-! ## Which configurations are safe -/

theorem EventLoopThreadPool.exists_nextLoop {L : Type*} {p : EventLoopThreadPool L} {k : Nat}
    (h : p.loopIndex < p.loopThreadList.length) (hk : 0 < k) : ∃ l, l ∈ nextLoops k p := by
  obtain ⟨k, rfl⟩ := Nat.exists_eq_succ_of_ne_zero hk.ne'
  have hne : p.loopThreadList ≠ [] := List.ne_nil_of_length_pos (by omega)
  refine ⟨p.loopThreadList[p.loopIndex], List.mem_append_left _ ?_⟩
  rw [getNextLoop, if_pos hne, Option.mem_toList, List.getElem?_eq_getElem h]

theorem StopConfig.losesWheels_iff {n : Nat} (cfg : StopConfig n) :
    cfg.LosesWheels ↔
      0 < n ∧ cfg.owned = true ∧ cfg.started = true ∧ 0 < cfg.idleTimeout := by
  constructor
  · rintro ⟨howned, i, hi⟩
    unfold wheels at hi
    split at hi
    next hon =>
      rw [Bool.and_eq_true, decide_eq_true_eq] at hon
      exact ⟨i.pos, howned, hon⟩
    next => cases hi
  · rintro ⟨hn, howned, hstarted, hidle⟩
    have hidx : cfg.loopIndex < (List.finRange n).length := by
      rw [List.length_finRange]
      exact cfg.index_lt hn
    obtain ⟨i, hi⟩ := EventLoopThreadPool.exists_nextLoop
      (p := ⟨List.finRange n, cfg.loopIndex⟩) hidx hn
    refine ⟨howned, i, ?_⟩
    rw [wheels, hstarted, decide_eq_true hidle, Bool.and_self, if_pos rfl]
    exact (cfg.mem_order (some i)).mpr (Or.inr ⟨i, hi, rfl⟩)

open ServerThreads in
/-- **Stopping a server.** In all interleavings `stop()` only queues functors
in loops that run, resets each wheel before the loop is told to quit, and
waits for promises that can be fulfilled, exactly if the server is not one
that was started with an idle timeout and a pool of its own with threads in
it. For such a server there is a run in which `stop()` never returns. -/
theorem stop_safe_iff {n : Nat} (cfg : StopConfig n) :
    ((∀ acts, Throughout (StopStep cfg) (Safe cfg) new acts) ↔
      ¬ (0 < n ∧ cfg.owned = true ∧ cfg.started = true ∧ 0 < cfg.idleTimeout)) ∧
    (0 < n ∧ cfg.owned = true ∧ cfg.started = true ∧ 0 < cfg.idleTimeout →
      ∃ acts q i ls, Run (StopStep cfg) new acts q ∧ q.stopper = .waitWheel (some i) ls ∧
        q.dangled = true ∧ ∀ ms v, Run (StopStep cfg) q ms v → v.stopper = q.stopper) := by
  rw [← cfg.losesWheels_iff]
  refine ⟨⟨fun hall hcfg => ?_, fun hcfg acts pre q _ hrun => ?_⟩, hangs⟩
  · obtain ⟨acts, q, i, ls, hrun, -, hdangled, -⟩ := hangs hcfg
    have hsafe := (hall acts acts q List.prefix_rfl hrun).alive
    rw [hdangled] at hsafe
    cases hsafe
  · have hinv := hrun.invariant (I := fun q => Inv cfg q ∧ q.dangled = false)
      (fun _ _ _ h hs => ⟨h.1.step hs, (h.1.dangled_step hcfg hs).trans h.2⟩) ⟨Inv.new, rfl⟩
    exact hinv.1.safe hcfg hinv.2

/-- A server with one thread of its own and an idle timeout, stopped from
another thread. -/
def oneThread : StopConfig 1 where
  started := true
  idleTimeout := 60
  owned := true
  onLoop := false
  ioLoop _ := some 0
  loopIndex := 0
  index_lt h := h
  order := [none, some 0]
  mem_order l := by
    have hloops : EventLoopThreadPool.nextLoops 1 ⟨List.finRange 1, 0⟩ = [0] := rfl
    rw [hloops]
    simp

/-- A connection is accepted and closed, and the thread of the pool ends. -/
def closeAndEnd : List (StopAct 1) :=
  [.accept 5, .stop, .server, .server, .server, .stop, .stop, .loop 0, .loop 0, .loop 0, .loop 0,
    .loop 0, .stop, .stop, .stop]

/-- Without an idle timeout that is all. -/
theorem stop_safe_without_timeout :
    Throughout (StopStep { oneThread with idleTimeout := 0 })
      (ServerThreads.Safe { oneThread with idleTimeout := 0 }) .new closeAndEnd :=
  (stop_safe_iff _).1.mpr (fun h => absurd h.2.2.2 (lt_irrefl 0)) closeAndEnd

/-- With it, the wheel of the server's loop is reset, and then `stop()` queues
the functor for the wheel of the loop of the pool. -/
theorem stop_talks_to_dead_loop :
    ∃ q, Run (StopStep oneThread) ServerThreads.new
        (closeAndEnd ++ [.server, .server, .stop, .stop]) q ∧
      q.stopper = .waitWheel (some 0) [] ∧ q.promise = false ∧ q.loop 0 = .exited ∧
      q.dangled = true :=
  ⟨_, Run.of_foldlM (f := ServerThreads.exec oneThread) rfl, rfl, rfl, rfl, rfl⟩

end Netpoll
