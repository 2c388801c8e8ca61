import Netpoll.LoopRuns

/-!
# `EventLoopThread`

A thread that makes an event loop on its stack and runs it. Three promises
tie it to the threads around it: the constructor waits for the pointer to
the loop, the thread waits for `run()` before it calls `loop()`, and
`run()` waits for a function that the thread has queued first of all, so
that it returns when the loop runs. The destructor calls `run()`, loads
the pointer, calls `quit()` on the loop if it is not null, and joins.

The loop itself is the one of `Netpoll.EventLoop`: the thread is its loop
thread, the owner that constructs and destroys the object is the thread
`some none`, and the users of the loop are the threads `some (some u)`.
Once the thread has left the scope of its loop, using the loop is noted in
`stray`.
-/

namespace Netpoll

/-- The thread that takes a step; `none` is the loop thread. -/
def EventLoop.Act.caller {T : Type*} : EventLoop.Act T → Option T
  | .exchange t | .link t | .wakeup t | .quitLoad t | .quitStore t | .quitWakeup t => t
  | _ => none

/-- A step of `queueInLoop` or `quit()`. -/
def EventLoop.Act.isCall {T : Type*} : EventLoop.Act T → Bool
  | .exchange _ | .link _ | .wakeup _ | .quitLoad _ | .quitStore _ | .quitWakeup _ => true
  | _ => false

/-- Where `threadWorker` stands. -/
inductive ThreadPc
  /-- In `queueInLoop`, with the function that keeps `m_promiseForLoop`. -/
  | queueing
  /-- About to keep `m_promiseForLoopPointer`. -/
  | publishing
  /-- Waiting for `m_promiseForRun`. -/
  | awaiting
  | looping
  /-- About to store the null pointer. -/
  | clearing
  /-- About to leave the scope of the loop. -/
  | destroying
  | done
  deriving Repr, DecidableEq

/-- Where the owner stands: in the constructor, between two calls, in
`wait()`, or in the destructor, which has begun with `run()`. -/
inductive OwnerPc
  | constructing | live | waiting | running | loading | quitting | joining | destroyed
  deriving Repr, DecidableEq

/-- The destructor is past its call of `run()`. -/
def OwnerPc.afterRun : OwnerPc → Bool
  | .loading | .quitting | .joining | .destroyed => true
  | _ => false

/-- Where a thread stands in `run()`: before `call_once`, or in it. -/
inductive RunPc
  | idle | entered | awaiting
  deriving Repr, DecidableEq

/-- `std::once_flag`. -/
inductive OnceFlag
  | fresh | active | done
  deriving Repr, DecidableEq

structure LoopThread (U : Type*) where
  loop : EventLoop (Option U)
  worker : ThreadPc
  owner : OwnerPc
  /-- `m_loop` is not null. -/
  hasLoop : Bool
  promiseForLoopPointer : Bool
  promiseForRun : Bool
  promiseForLoop : Bool
  once : OnceFlag
  runPc : Option U → RunPc
  /-- History: a call of `run()` has returned. -/
  returned : Bool
  /-- History: who has used the loop after its end. -/
  stray : List (Option U)

namespace LoopThread

variable {U : Type*} [DecidableEq U]

inductive Act (U : Type*)
  /-- A step of `loop()`, `queueInLoop` or `quit()`, of whatever thread. -/
  | loop (a : EventLoop.Act (Option U))
  /-- The function that was queued first keeps its promise. -/
  | keepPromise
  | publish
  | clear
  | destroy
  | construct
  | wait
  | endWait
  | destruct
  | load
  | join
  | runCall (t : Option U)
  | runOnce (t : Option U)
  | runReturn (t : Option U)

/-- The constructor has started the thread. -/
def new : LoopThread U where
  loop := .new
  worker := .queueing
  owner := .constructing
  hasLoop := false
  promiseForLoopPointer := false
  promiseForRun := false
  promiseForLoop := false
  once := .fresh
  runPc _ := .idle
  returned := false
  stray := []

/-- What the thread itself may do with its loop. The first function ends
when it has kept its promise. -/
def mayStep (s : LoopThread U) : EventLoop.Act (Option U) → Bool
  | .exchange _ | .link _ | .wakeup _ => s.worker = .queueing || s.worker = .looping
  | .loop => s.worker = .awaiting && s.promiseForRun
  | .endFunc => s.worker = .looping && (s.loop.pc ≠ .running 0 || s.promiseForLoop)
  | _ => s.worker = .looping

/-- `threadWorker` goes on when its call returns. -/
def workerAfter : ThreadPc → EventLoop.Act (Option U) → ThreadPc
  | .queueing, .wakeup _ => .publishing
  | .awaiting, .loop => .looping
  | .looping, .leave => .clearing
  | w, _ => w

/-- A step of `quit()`. -/
def ofQuit : EventLoop.Act (Option U) → Bool
  | .quitLoad _ | .quitStore _ | .quitWakeup _ => true
  | _ => false

/-- Users have the pointer once the object is constructed; the destructor
calls `quit()`. -/
def mayUse (s : LoopThread U) (a : EventLoop.Act (Option U)) : Option U → Bool
  | some _ => s.owner ≠ .constructing
  | none => s.owner = .quitting && ofQuit a

/-- The destructor goes on when its call of `quit()` returns. -/
def afterUse (s : LoopThread U) : Option U → LoopThread U
  | some _ => s
  | none => if s.loop.stage (some none) = .idle then { s with owner := .joining } else s

def execLoop (s : LoopThread U) (a : EventLoop.Act (Option U)) : Option (LoopThread U) :=
  match a.caller with
  | none =>
    if s.mayStep a then
      (s.loop.exec a).map fun loop => { s with loop, worker := workerAfter s.worker a }
    else none
  | some t =>
    if s.mayUse a t then
      if s.worker = .done then some { s with stray := s.stray ++ [t] }
      else (s.loop.exec a).map fun loop => { s with loop }.afterUse t
    else none

/-- A call of `run()` returns; the destructor goes on. -/
def endRun (s : LoopThread U) (t : Option U) : LoopThread U :=
  { s with
    runPc := Function.update s.runPc t .idle
    returned := true
    owner := if t = none ∧ s.owner = .running then .loading else s.owner }

/-- While the owner is in `wait()`, other threads may call `run()`. -/
def mayRun (s : LoopThread U) (t : Option U) : Bool :=
  s.owner = .live || s.owner = .waiting && t.isSome

def exec (s : LoopThread U) : Act U → Option (LoopThread U)
  | .loop a => s.execLoop a
  | .keepPromise =>
    if s.worker = .looping ∧ s.loop.pc = .running 0 ∧ s.promiseForLoop = false then
      some { s with promiseForLoop := true }
    else none
  | .publish =>
    if s.worker = .publishing then
      some { s with worker := .awaiting, promiseForLoopPointer := true }
    else none
  | .clear =>
    if s.worker = .clearing then some { s with worker := .destroying, hasLoop := false } else none
  | .destroy => if s.worker = .destroying then some { s with worker := .done } else none
  | .construct =>
    if s.owner = .constructing ∧ s.promiseForLoopPointer then
      some { s with owner := .live, hasLoop := true }
    else none
  | .wait =>
    if s.owner = .live ∧ s.runPc none = .idle then some { s with owner := .waiting } else none
  | .endWait =>
    if s.owner = .waiting ∧ s.worker = .done then some { s with owner := .live } else none
  | .destruct =>
    if s.owner = .live ∧ s.runPc none = .idle then
      some { s with owner := .running, runPc := Function.update s.runPc none .entered }
    else none
  | .load =>
    if s.owner = .loading then
      some { s with owner := if s.hasLoop then .quitting else .joining }
    else none
  | .join =>
    if s.owner = .joining ∧ s.worker = .done then some { s with owner := .destroyed } else none
  | .runCall t =>
    if s.mayRun t ∧ s.runPc t = .idle then
      some { s with runPc := Function.update s.runPc t .entered }
    else none
  | .runOnce t =>
    if s.runPc t = .entered then
      match s.once with
      | .fresh =>
        some { s with
          once := .active
          promiseForRun := true
          runPc := Function.update s.runPc t .awaiting }
      | .active => none
      | .done => some (s.endRun t)
    else none
  | .runReturn t =>
    if s.runPc t = .awaiting ∧ s.promiseForLoop then some ({ s with once := .done }.endRun t)
    else none

end LoopThread

def LoopThread.Step {U : Type*} [DecidableEq U] (s : LoopThread U) (a : LoopThread.Act U)
    (t : LoopThread U) : Prop :=
  s.exec a = some t

/-! ## What other threads do to a loop -/

namespace EventLoop

variable {T : Type*} [DecidableEq T] {s s' : EventLoop T} {a : Act T} {t : T}

theorem Effect.stage_eq (h : Effect s a s') {u : Option T} (hu : u ≠ a.caller) :
    s'.stage u = s.stage u := by
  cases h with
  | exchange => exact (stage_setStage ..).trans (if_neg hu)
  | link => exact (stage_setStage ..).trans (if_neg hu)
  | wakeup => exact (stage_setStage ..).trans (if_neg hu)
  | quitLoad => exact (stage_setStage ..).trans (if_neg hu)
  | quitStore => exact (stage_setStage ..).trans (if_neg hu)
  | quitWakeup => exact (stage_setStage ..).trans (if_neg hu)
  | _ => rfl

omit [DecidableEq T] in
theorem Act.isCall_of_caller (h : a.caller = some t) : a.isCall = true := by
  cases a with
  | exchange | link | wakeup | quitLoad | quitStore | quitWakeup => rfl
  | _ => cases h

/-- What a step of a call leaves: the loop thread stands where it stood, the
flag is not cleared, and a front function that is visible stays in front. -/
structure Beside (s s' : EventLoop T) : Prop where
  pc : s'.pc = s.pc
  quit : s.quit = true → s'.quit = true
  wakeupFd : s.wakeupFd ≤ s'.wakeupFd
  front : ∀ c rest, s.funcs = c :: rest → c.linked = true → ∃ rest', s'.funcs = c :: rest'

theorem Effect.beside (h : Effect s a s') (ha : a.isCall = true) : Beside s s' := by
  cases h with
  | @exchange t =>
      refine ⟨rfl, id, le_rfl, fun c rest hf _ => ⟨rest ++ [⟨t, s.queued.length, false⟩], ?_⟩⟩
      simp only [Fifo.exchange, hf]
      rfl
  | @link t =>
      refine ⟨rfl, id, le_rfl, fun c rest hf hc => ⟨Fifo.link t rest, ?_⟩⟩
      obtain ⟨p, f, l⟩ := c
      obtain rfl : l = true := hc
      simp only [hf, Fifo.link, List.map_cons]
      split <;> rfl
  | wakeup =>
      refine ⟨rfl, id, ?_, fun c rest hf _ => ⟨rest, hf⟩⟩
      dsimp only
      split <;> omega
  | quitLoad => exact ⟨rfl, id, le_rfl, fun c rest hf _ => ⟨rest, hf⟩⟩
  | quitStore => exact ⟨rfl, fun _ => rfl, le_rfl, fun c rest hf _ => ⟨rest, hf⟩⟩
  | quitWakeup => exact ⟨rfl, id, Nat.le_succ _, fun c rest hf _ => ⟨rest, hf⟩⟩
  | _ => cases ha

/-- `loop()` is entered by its call and left by its return. -/
theorem Effect.pc_moves (h : Effect s a s') :
    (s'.pc = .starting → s.pc = .starting ∨ a = .loop) ∧
      (s'.pc = .outside → s.pc = .outside ∨ a = .leave) := by
  cases h with
  | exchange | link | wakeup | quitLoad | quitStore | quitWakeup => exact ⟨Or.inl, Or.inl⟩
  | loop => exact ⟨fun _ => Or.inr rfl, fun h => by cases h⟩
  | leave => exact ⟨(fun h => by cases h), fun _ => Or.inr rfl⟩
  | testQuit =>
      refine ⟨fun h => ?_, fun h => ?_⟩
      · dsimp only at h
        split at h <;> cases h
      · dsimp only at h
        split at h <;> cases h
  | testEmpty =>
      refine ⟨fun h => ?_, fun h => ?_⟩
      · dsimp only at h
        split at h <;> cases h
      · dsimp only at h
        split at h <;> cases h
  | clearQuit | pollReturn | wakeupRead | endHandling | dequeue | dequeueNone | endFunc
    | destroyFunc => exact ⟨(fun h => by cases h), fun h => by cases h⟩

/-- A blocked loop that was asked to quit has been woken up, or the thread
that asked is about to do it. -/
def Roused (s : EventLoop T) : Prop :=
  s.quit = true → s.pc = .poll → 0 < s.wakeupFd ∨ ∃ t, s.stage (some t) = .quitWake

theorem Roused.step (h : Roused s) (hawake : Awake s) (hs : Effect s a s') : Roused s' := by
  -- the loop thread itself never asks while it is blocked
  have hidle : s.pc = .poll → s.stage none = .idle := fun hpc => by
    by_contra hne
    have := hawake.own hne
    rw [hpc] at this
    cases this
  have hkeep : ∀ {u : Option T} {stage : CallStage}, s.stage u ≠ .quitWake →
      (∃ t, s.stage (some t) = .quitWake) →
      ∃ t, (s.setStage u stage).stage (some t) = .quitWake := by
    rintro u stage hu ⟨t, ht⟩
    refine ⟨t, ?_⟩
    rw [stage_setStage, if_neg]
    · exact ht
    · rintro rfl
      exact hu ht
  cases hs with
  | exchange hst => exact fun hq hpc => (h hq hpc).imp_right (hkeep (by rw [hst]; nofun))
  | link hst => exact fun hq hpc => (h hq hpc).imp_right (hkeep (by rw [hst]; nofun))
  | wakeup hst =>
      refine fun hq hpc => (h hq hpc).imp (fun hpos => ?_) (hkeep (by rw [hst]; nofun))
      dsimp only
      split <;> omega
  | quitLoad hst => exact fun hq hpc => (h hq hpc).imp_right (hkeep (by rw [hst]; nofun))
  | @quitStore u hst =>
      intro _ hpc
      cases u with
      | none =>
          have := hidle hpc
          rw [hst] at this
          cases this
      | some t => exact Or.inr ⟨t, (stage_setStage ..).trans (if_pos rfl)⟩
  | quitWakeup => exact fun _ _ => Or.inl (Nat.succ_pos _)
  | testQuit _ hpc =>
      intro hq hpoll
      dsimp only at hpoll hq
      rw [if_pos hq] at hpoll
      cases hpoll
  | testEmpty _ hpc =>
      intro _ hpoll
      dsimp only at hpoll
      split at hpoll <;> cases hpoll
  | loop | clearQuit | pollReturn | wakeupRead | endHandling | dequeue | dequeueNone | endFunc
    | destroyFunc | leave => exact fun _ hpoll => by cases hpoll

/-- The flag is cleared at the beginning of `loop()` only. -/
theorem Effect.quit_kept (h : Effect s a s') (hpc : s.pc ≠ .starting) (hq : s.quit = true) :
    s'.quit = true := by
  cases h with
  | clearQuit _ hst => exact absurd hst hpc
  | quitStore => rfl
  | _ => exact hq

end EventLoop

/-! ## What a step does -/

namespace LoopThread

variable {U : Type*} [DecidableEq U] {s s' : LoopThread U} {a : Act U}

/-- The outcome of each step, with what it found. -/
inductive Effect (s : LoopThread U) : Act U → LoopThread U → Prop
  | own {a : EventLoop.Act (Option U)} {l : EventLoop (Option U)} : a.caller = none →
      s.mayStep a = true → s.loop.exec a = some l →
      Effect s (.loop a) { s with loop := l, worker := workerAfter s.worker a }
  | use {a : EventLoop.Act (Option U)} {t : Option U} {l : EventLoop (Option U)} :
      a.caller = some t → s.mayUse a t = true → s.worker ≠ .done →
      s.loop.exec a = some l → Effect s (.loop a) ({ s with loop := l }.afterUse t)
  | stray {a : EventLoop.Act (Option U)} {t : Option U} : a.caller = some t →
      s.mayUse a t = true → s.worker = .done →
      Effect s (.loop a) { s with stray := s.stray ++ [t] }
  | keepPromise : s.worker = .looping → s.loop.pc = .running 0 → s.promiseForLoop = false →
      Effect s .keepPromise { s with promiseForLoop := true }
  | publish : s.worker = .publishing →
      Effect s .publish { s with worker := .awaiting, promiseForLoopPointer := true }
  | clear : s.worker = .clearing →
      Effect s .clear { s with worker := .destroying, hasLoop := false }
  | destroy : s.worker = .destroying → Effect s .destroy { s with worker := .done }
  | construct : s.owner = .constructing → s.promiseForLoopPointer = true →
      Effect s .construct { s with owner := .live, hasLoop := true }
  | wait : s.owner = .live → s.runPc none = .idle → Effect s .wait { s with owner := .waiting }
  | endWait : s.owner = .waiting → s.worker = .done →
      Effect s .endWait { s with owner := .live }
  | destruct : s.owner = .live → s.runPc none = .idle →
      Effect s .destruct
        { s with owner := .running, runPc := Function.update s.runPc none .entered }
  | load : s.owner = .loading →
      Effect s .load { s with owner := if s.hasLoop then .quitting else .joining }
  | join : s.owner = .joining → s.worker = .done →
      Effect s .join { s with owner := .destroyed }
  | runCall {t : Option U} : s.mayRun t = true → s.runPc t = .idle →
      Effect s (.runCall t) { s with runPc := Function.update s.runPc t .entered }
  | runFirst {t : Option U} : s.runPc t = .entered → s.once = .fresh →
      Effect s (.runOnce t)
        { s with
          once := .active
          promiseForRun := true
          runPc := Function.update s.runPc t .awaiting }
  | runAgain {t : Option U} : s.runPc t = .entered → s.once = .done →
      Effect s (.runOnce t) (s.endRun t)
  | runReturn {t : Option U} : s.runPc t = .awaiting → s.promiseForLoop = true →
      Effect s (.runReturn t) ({ s with once := .done }.endRun t)

theorem effect_of_execLoop {a : EventLoop.Act (Option U)} (h : s.execLoop a = some s') :
    Effect s (.loop a) s' := by
  unfold execLoop at h
  split at h
  next hc =>
      simp only [Option.ite_none_right_eq_some] at h
      obtain ⟨hmay, h⟩ := h
      obtain ⟨l, hl, rfl⟩ := Option.map_eq_some_iff.mp h
      exact .own hc hmay hl
  next t hc =>
      simp only [Option.ite_none_right_eq_some] at h
      obtain ⟨hmay, h⟩ := h
      split at h
      next hdone => exact Option.some.inj h ▸ .stray hc hmay hdone
      next hdone =>
          obtain ⟨l, hl, rfl⟩ := Option.map_eq_some_iff.mp h
          exact .use hc hmay hdone hl

theorem effect_of_step {a : Act U} (h : Step s a s') : Effect s a s' := by
  unfold Step exec at h
  split at h
  · exact effect_of_execLoop h
  · split at h
    next hc => exact Option.some.inj h ▸ .keepPromise hc.1 hc.2.1 hc.2.2
    · cases h
  · split at h
    next hc => exact Option.some.inj h ▸ .publish hc
    · cases h
  · split at h
    next hc => exact Option.some.inj h ▸ .clear hc
    · cases h
  · split at h
    next hc => exact Option.some.inj h ▸ .destroy hc
    · cases h
  · split at h
    next hc => exact Option.some.inj h ▸ .construct hc.1 hc.2
    · cases h
  · split at h
    next hc => exact Option.some.inj h ▸ .wait hc.1 hc.2
    · cases h
  · split at h
    next hc => exact Option.some.inj h ▸ .endWait hc.1 hc.2
    · cases h
  · split at h
    next hc => exact Option.some.inj h ▸ .destruct hc.1 hc.2
    · cases h
  · split at h
    next hc => exact Option.some.inj h ▸ .load hc
    · cases h
  · split at h
    next hc => exact Option.some.inj h ▸ .join hc.1 hc.2
    · cases h
  · split at h
    next hc => exact Option.some.inj h ▸ .runCall hc.1 hc.2
    · cases h
  · split at h
    next hc =>
        split at h
        next ho => exact Option.some.inj h ▸ .runFirst hc ho
        · cases h
        next ho => exact Option.some.inj h ▸ .runAgain hc ho
    · cases h
  · split at h
    next hc => exact Option.some.inj h ▸ .runReturn hc.1 hc.2
    · cases h

/-! ## The order of things -/

/-- `loop()` has returned. -/
def Over (s : LoopThread U) : Prop :=
  s.worker = .clearing ∨ s.worker = .destroying ∨ s.worker = .done

/-- `loop()` has cleared the quit flag. -/
def Started (s : LoopThread U) : Prop :=
  s.worker = .looping ∧ s.loop.pc ≠ .starting ∨ s.Over

structure Inv (s : LoopThread U) : Prop where
  awake : s.loop.Awake
  roused : s.loop.Roused
  before : s.worker = .queueing ∨ s.worker = .publishing ∨ s.worker = .awaiting →
    s.loop.pc = .outside
  looping : s.worker = .looping → s.loop.pc ≠ .outside
  kept : s.promiseForLoop = true → s.Started
  once : s.once = .done → s.promiseForLoop = true
  returned : s.returned = true ∨ s.owner.afterRun = true → s.once = .done
  pointer : s.owner ≠ .constructing → s.hasLoop = false → s.worker = .destroying ∨ s.worker = .done
  stage : s.owner ≠ .quitting → s.loop.stage (some none) = .idle
  waking : s.loop.stage (some none) = .quitWake → s.loop.quit = true
  asked : s.owner = .joining ∨ s.owner = .destroyed → s.Over ∨ s.loop.quit = true

omit [DecidableEq U] in
theorem Inv.new : Inv (new : LoopThread U) where
  awake := .new
  roused := fun h => by cases h
  before _ := rfl
  looping := fun h => by cases h
  kept := fun h => by cases h
  once := fun h => by cases h
  returned := by rintro (h | h) <;> cases h
  pointer := fun h => absurd rfl h
  stage _ := rfl
  waking := fun h => by cases h
  asked := by rintro (h | h) <;> cases h

omit [DecidableEq U] in
theorem mayStep_cases {a : EventLoop.Act (Option U)} (hc : a.caller = none)
    (h : s.mayStep a = true) :
    (s.worker = .queueing ∧ (a = .exchange none ∨ a = .link none ∨ a = .wakeup none)) ∨
      (s.worker = .awaiting ∧ a = .loop ∧ s.promiseForRun = true) ∨
      (s.worker = .looping ∧ a ≠ .loop) := by
  cases a with
  | exchange t =>
      obtain rfl : t = none := hc
      simp only [mayStep, Bool.or_eq_true, decide_eq_true_eq] at h
      exact h.imp (fun h => ⟨h, Or.inl rfl⟩) fun h => Or.inr ⟨h, nofun⟩
  | link t =>
      obtain rfl : t = none := hc
      simp only [mayStep, Bool.or_eq_true, decide_eq_true_eq] at h
      exact h.imp (fun h => ⟨h, Or.inr (Or.inl rfl)⟩) fun h => Or.inr ⟨h, nofun⟩
  | wakeup t =>
      obtain rfl : t = none := hc
      simp only [mayStep, Bool.or_eq_true, decide_eq_true_eq] at h
      exact h.imp (fun h => ⟨h, Or.inr (Or.inr rfl)⟩) fun h => Or.inr ⟨h, nofun⟩
  | loop =>
      simp only [mayStep, Bool.and_eq_true, decide_eq_true_eq] at h
      exact Or.inr (Or.inl ⟨h.1, rfl, h.2⟩)
  | endFunc =>
      simp only [mayStep, Bool.and_eq_true, decide_eq_true_eq] at h
      exact Or.inr (Or.inr ⟨h.1, nofun⟩)
  | _ => exact Or.inr (Or.inr ⟨of_decide_eq_true h, nofun⟩)

theorem Inv.queueing (h : Inv s) {a : EventLoop.Act (Option U)} {l : EventLoop (Option U)}
    (hw : s.worker = .queueing) (ha : a = .exchange none ∨ a = .link none ∨ a = .wakeup none)
    (hs : EventLoop.Effect s.loop a l) :
    Inv { s with loop := l, worker := workerAfter s.worker a } := by
  have hc : a.caller = none := by rcases ha with rfl | rfl | rfl <;> rfl
  have hpc : l.pc = s.loop.pc ∧ l.quit = s.loop.quit := by
    rcases ha with rfl | rfl | rfl <;> cases hs <;> exact ⟨rfl, rfl⟩
  have hst := hs.stage_eq (u := some none) (by rw [hc]; nofun)
  have hafter : workerAfter s.worker a = .queueing ∨ workerAfter s.worker a = .publishing := by
    rw [hw]
    rcases ha with rfl | rfl | rfl
    · exact Or.inl rfl
    · exact Or.inl rfl
    · exact Or.inr rfl
  have hnot : ¬ s.Started := by simp [Started, Over, hw]
  refine ⟨h.awake.step hs, h.roused.step h.awake hs, fun _ => hpc.1.trans (h.before (Or.inl hw)),
    fun hl => ?_, fun hk => absurd (h.kept hk) hnot, h.once, h.returned, fun ho hp => ?_,
    fun ho => hst.trans (h.stage ho), fun hk => hpc.2.trans (h.waking (hst ▸ hk)), fun ho => ?_⟩
  · rcases hafter with ha | ha <;> rw [ha] at hl <;> cases hl
  · have := h.pointer ho hp
    simp [hw] at this
  · have hdone := h.returned (Or.inr (by rcases ho with ho | ho <;> rw [ho] <;> rfl))
    exact absurd (h.kept (h.once hdone)) hnot

theorem Inv.entering (h : Inv s) {l : EventLoop (Option U)} (hw : s.worker = .awaiting)
    (hs : EventLoop.Effect s.loop .loop l) :
    Inv { s with
      loop := l, worker := workerAfter s.worker (.loop : EventLoop.Act (Option U)) } := by
  have hst := hs.stage_eq (u := some none) (by nofun)
  have hquit : l.quit = s.loop.quit := by cases hs; rfl
  have hpc : l.pc = .starting := by cases hs; rfl
  have hnot : ¬ s.Started := by simp [Started, Over, hw]
  rw [hw]
  refine ⟨h.awake.step hs, h.roused.step h.awake hs, fun hb => ?_, fun _ => by rw [hpc]; nofun,
    fun hk => absurd (h.kept hk) hnot, h.once, h.returned, fun ho hp => ?_,
    fun ho => hst.trans (h.stage ho), fun hk => hquit.trans (h.waking (hst ▸ hk)), fun ho => ?_⟩
  · rcases hb with hb | hb | hb <;> cases hb
  · have := h.pointer ho hp
    simp [hw] at this
  · have hdone := h.returned (Or.inr (by rcases ho with ho | ho <;> rw [ho] <;> rfl))
    exact absurd (h.kept (h.once hdone)) hnot

theorem Inv.going (h : Inv s) {a : EventLoop.Act (Option U)} {l : EventLoop (Option U)}
    (hw : s.worker = .looping) (hc : a.caller = none) (ha : a ≠ .loop)
    (hs : EventLoop.Effect s.loop a l) :
    Inv { s with loop := l, worker := workerAfter s.worker a } := by
  have hst := hs.stage_eq (u := some none) (by rw [hc]; nofun)
  have hafter : a = .leave ∧ workerAfter s.worker a = .clearing ∨
      a ≠ .leave ∧ workerAfter s.worker a = .looping := by
    rw [hw]
    cases a <;> first | exact Or.inl ⟨rfl, rfl⟩ | exact Or.inr ⟨nofun, rfl⟩
  have hstarted : s.loop.pc ≠ .starting →
      ({ s with loop := l, worker := workerAfter s.worker a } : LoopThread U).Started := by
    intro hpc
    rcases hafter with ⟨-, ha'⟩ | ⟨-, ha'⟩
    · exact Or.inr (Or.inl ha')
    · refine Or.inl ⟨ha', fun hst => ?_⟩
      exact (hs.pc_moves.1 hst).elim hpc ha
  have hnotOver : ¬ s.Over := by simp [Over, hw]
  refine ⟨h.awake.step hs, h.roused.step h.awake hs, fun hb => ?_, fun hl hout => ?_, fun hk => ?_,
    h.once, h.returned, fun ho hp => ?_, fun ho => hst.trans (h.stage ho), fun hk => ?_,
    fun ho => ?_⟩
  · rcases hafter with ⟨-, ha'⟩ | ⟨-, ha'⟩ <;> rw [ha'] at hb <;> simp at hb
  · rcases hafter with ⟨-, ha'⟩ | ⟨hne, -⟩
    · rw [ha'] at hl
      cases hl
    · exact (hs.pc_moves.2 hout).elim (h.looping hw) hne
  · exact hstarted ((h.kept hk).resolve_right hnotOver).2
  · have := h.pointer ho hp
    simp [hw] at this
  · have hq := h.waking (hst ▸ hk)
    have howner : s.owner = .quitting := by
      by_contra hne
      have hidle := h.stage hne
      rw [← hst] at hidle
      rw [hidle] at hk
      cases hk
    have hdone := h.returned (Or.inr (by rw [howner]; rfl))
    exact hs.quit_kept ((h.kept (h.once hdone)).resolve_right hnotOver).2 hq
  · have hdone := h.returned (Or.inr (by rcases ho with ho | ho <;> rw [ho] <;> rfl))
    have hpc := ((h.kept (h.once hdone)).resolve_right hnotOver).2
    exact Or.inr (hs.quit_kept hpc ((h.asked ho).resolve_left hnotOver))

theorem Inv.user (h : Inv s) {a : EventLoop.Act (Option U)} {u : U} {l : EventLoop (Option U)}
    (hc : a.caller = some (some u)) (hs : EventLoop.Effect s.loop a l) :
    Inv { s with loop := l } := by
  have hb := hs.beside (EventLoop.Act.isCall_of_caller hc)
  have hst := hs.stage_eq (u := some none) (by rw [hc]; nofun)
  have hstarted : s.Started → ({ s with loop := l } : LoopThread U).Started := by
    rintro (⟨hw, hpc⟩ | ho)
    · exact Or.inl ⟨hw, by rw [hb.pc]; exact hpc⟩
    · exact Or.inr ho
  exact ⟨h.awake.step hs, h.roused.step h.awake hs, fun hw => hb.pc.trans (h.before hw),
    fun hw => by rw [hb.pc]; exact h.looping hw, fun hk => hstarted (h.kept hk), h.once, h.returned,
    h.pointer, fun ho => hst.trans (h.stage ho), fun hk => hb.quit (h.waking (hst ▸ hk)),
    fun ho => (h.asked ho).imp id hb.quit⟩

theorem Inv.quitter (h : Inv s) {a : EventLoop.Act (Option U)} {l : EventLoop (Option U)}
    (hc : a.caller = some none) (ho : s.owner = .quitting) (hq : ofQuit a = true)
    (hs : EventLoop.Effect s.loop a l) :
    Inv (({ s with loop := l } : LoopThread U).afterUse none) := by
  have hb := hs.beside (EventLoop.Act.isCall_of_caller hc)
  have hstarted : s.Started → ({ s with loop := l } : LoopThread U).Started := by
    rintro (⟨hw, hpc⟩ | ho)
    · exact Or.inl ⟨hw, by rw [hb.pc]; exact hpc⟩
    · exact Or.inr ho
  have hdone := h.returned (Or.inr (by rw [ho]; rfl))
  -- the call returns having found the flag set, or having set it
  have hset : l.stage (some none) = .quitWake ∨ l.stage (some none) = .idle → l.quit = true := by
    cases hs with
    | quitLoad =>
        obtain rfl := hc
        rw [EventLoop.stage_setStage, if_pos rfl]
        intro hst
        by_contra hno
        have hno' : ¬ s.loop.quit = true := hno
        rw [if_neg hno'] at hst
        rcases hst with hst | hst <;> cases hst
    | quitStore => exact fun _ => rfl
    | quitWakeup hwake =>
        obtain rfl := hc
        exact fun _ => h.waking hwake
    | _ => cases hq
  have hkeep : ∀ owner, (owner = .joining → l.stage (some none) = .idle) →
      owner.afterRun = true → (owner ≠ .quitting → l.stage (some none) = .idle) →
      owner ≠ .destroyed →
      Inv { s with loop := l, owner := owner } := fun owner hj ha hidle hnd =>
    ⟨h.awake.step hs, h.roused.step h.awake hs, fun hw => hb.pc.trans (h.before hw),
      fun hw => by rw [hb.pc]; exact h.looping hw, fun hk => hstarted (h.kept hk), h.once,
      fun _ => hdone, fun _ hp => h.pointer (by rw [ho]; nofun) hp, hidle,
      fun hk => hset (Or.inl hk),
      fun hj' => Or.inr (hset (Or.inr (hj (hj'.resolve_right hnd))))⟩
  by_cases hidle : l.stage (some none) = .idle
  · rw [afterUse, if_pos hidle]
    exact hkeep .joining (fun _ => hidle) rfl (fun _ => hidle) nofun
  · rw [afterUse, if_neg hidle]
    have hstill := hkeep .quitting nofun rfl (fun hne => absurd rfl hne) nofun
    rwa [← ho] at hstill

omit [DecidableEq U] in
theorem Inv.beside (h : Inv s) (hl : s'.loop = s.loop) (hw : s'.worker = s.worker)
    (hk : s'.promiseForLoop = s.promiseForLoop) (ho : s'.once = .done → s'.promiseForLoop = true)
    (hr : s'.returned = true ∨ s'.owner.afterRun = true → s'.once = .done)
    (hp : s'.owner ≠ .constructing → s'.hasLoop = false →
      s.worker = .destroying ∨ s.worker = .done)
    (hq : s'.owner = .quitting ↔ s.owner = .quitting)
    (hj : s'.owner = .joining ∨ s'.owner = .destroyed → s.Over ∨ s.loop.quit = true) : Inv s' where
  awake := hl ▸ h.awake
  roused := hl ▸ h.roused
  before hb := by
    rw [hw] at hb
    rw [hl]
    exact h.before hb
  looping hb := by
    rw [hw] at hb
    rw [hl]
    exact h.looping hb
  kept hb := by
    rw [hk] at hb
    simpa only [Started, Over, hw, hl] using h.kept hb
  once := ho
  returned := hr
  pointer hc hb := by
    rw [hw]
    exact hp hc hb
  stage hb := by
    rw [hl]
    exact h.stage fun hb' => hb (hq.mpr hb')
  waking hb := by
    rw [hl] at hb ⊢
    exact h.waking hb
  asked hb := by
    simpa only [Over, hw, hl] using hj hb

theorem Inv.endRun (h : Inv s) (hp : s.promiseForLoop = true) (t : Option U) :
    Inv (({ s with once := .done } : LoopThread U).endRun t) := by
  have howner : ∀ o, (({ s with once := .done } : LoopThread U).endRun t).owner = o →
      o ≠ .loading → s.owner = o := by
    intro o ho hne
    simp only [LoopThread.endRun] at ho
    split at ho
    · exact absurd ho.symm hne
    · exact ho
  refine h.beside rfl rfl rfl (fun _ => hp) (fun _ => rfl) (fun hc => h.pointer fun hb => ?_)
    ⟨fun hq => howner _ hq nofun, fun hq => ?_⟩
    fun hj => h.asked (hj.imp (howner _ · nofun) (howner _ · nofun))
  · simp [LoopThread.endRun, hb] at hc
  · simp [LoopThread.endRun, hq]

theorem Inv.step (h : Inv s) {a : Act U} (hs : Effect s a s') : Inv s' := by
  cases hs with
  | own hc hmay hl =>
      have hs := EventLoop.effect_of_exec hl
      rcases mayStep_cases hc hmay with ⟨hw, ha⟩ | ⟨hw, rfl, -⟩ | ⟨hw, ha⟩
      · exact h.queueing hw ha hs
      · exact h.entering hw hs
      · exact h.going hw hc ha hs
  | @use a t l hc hmay _ hl =>
      have hs := EventLoop.effect_of_exec hl
      cases t with
      | some u => exact h.user hc hs
      | none =>
          simp only [mayUse, Bool.and_eq_true, decide_eq_true_eq] at hmay
          exact h.quitter hc hmay.1 hmay.2 hs
  | stray => exact h.beside rfl rfl rfl h.once h.returned h.pointer Iff.rfl h.asked
  | keepPromise hw hpc =>
      have hstarted : s.Started := Or.inl ⟨hw, by rw [hpc]; nofun⟩
      exact ⟨h.awake, h.roused, h.before, h.looping, fun _ => hstarted, fun _ => rfl, h.returned,
        h.pointer, h.stage, h.waking, h.asked⟩
  | publish hw =>
      have hnot : ¬ s.Started := by simp [Started, Over, hw]
      exact ⟨h.awake, h.roused, fun _ => h.before (Or.inr (Or.inl hw)), nofun,
        fun hk => absurd (h.kept hk) hnot, h.once, h.returned,
        fun ho hp => by simpa [hw] using h.pointer ho hp, h.stage, h.waking,
        fun ho => Or.inr ((h.asked ho).resolve_left (by simp [Over, hw]))⟩
  | clear hw =>
      exact ⟨h.awake, h.roused, by simp, nofun, fun _ => Or.inr (Or.inr (Or.inl rfl)), h.once,
        h.returned, fun _ _ => Or.inl rfl, h.stage, h.waking,
        fun _ => Or.inl (Or.inr (Or.inl rfl))⟩
  | destroy hw =>
      exact ⟨h.awake, h.roused, by simp, nofun, fun _ => Or.inr (Or.inr (Or.inr rfl)), h.once,
        h.returned, fun _ _ => Or.inr rfl, h.stage, h.waking,
        fun _ => Or.inl (Or.inr (Or.inr rfl))⟩
  | construct ho hp =>
      refine h.beside rfl rfl rfl h.once (fun hr => h.returned (hr.imp id ?_)) nofun (by simp [ho])
        (by simp)
      nofun
  | wait ho hr =>
      refine h.beside rfl rfl rfl h.once (fun hr => h.returned (hr.imp id ?_))
        (fun _ => h.pointer (by simp [ho])) (by simp [ho]) (by simp)
      nofun
  | endWait ho hw =>
      refine h.beside rfl rfl rfl h.once (fun hr => h.returned (hr.imp id ?_))
        (fun _ => h.pointer (by simp [ho])) (by simp [ho]) (by simp)
      nofun
  | destruct ho hr =>
      refine h.beside rfl rfl rfl h.once (fun hr => h.returned (hr.imp id ?_))
        (fun _ => h.pointer (by simp [ho])) (by simp [ho]) (by simp)
      nofun
  | load ho =>
      have hdone := h.returned (Or.inr (by rw [ho]; rfl))
      refine ⟨h.awake, h.roused, h.before, h.looping, h.kept, h.once, fun _ => hdone,
        fun _ => h.pointer (by simp [ho]), fun _ => h.stage (by simp [ho]), h.waking, fun hj => ?_⟩
      by_cases hl : s.hasLoop = true
      · simp [hl] at hj
      · exact Or.inl (Or.inr (h.pointer (by simp [ho]) (by simpa using hl)))
  | join ho hw =>
      exact h.beside rfl rfl rfl h.once (fun _ => h.returned (Or.inr (by rw [ho]; rfl)))
        (fun _ => h.pointer (by simp [ho])) (by simp [ho]) fun _ => h.asked (Or.inl ho)
  | runCall ho hr => exact h.beside rfl rfl rfl h.once h.returned h.pointer Iff.rfl h.asked
  | runFirst hr ho =>
      refine h.beside rfl rfl rfl nofun (fun hret => ?_) h.pointer Iff.rfl h.asked
      have := h.returned hret
      rw [ho] at this
      cases this
  | @runAgain t hr ho =>
      have hend := h.endRun (h.once ho) t
      rwa [← ho] at hend
  | @runReturn t hr hp => exact h.endRun hp t

theorem Inv.run {acts : List (Act U)} (h : Run Step LoopThread.new acts s) : Inv s :=
  h.invariant (fun _ _ _ hi hs => hi.step (effect_of_step hs)) .new

/-! ## A quit request is heeded -/

/-- The loop thread tests the quit flag. -/
def Act.isTest : Act U → Bool
  | .loop .testQuit => true
  | _ => false

/-- The loop thread has found the flag set. -/
def Ended (s : LoopThread U) : Prop := s.worker = .looping ∧ s.loop.pc = .exited ∨ s.Over

omit [DecidableEq U] in
theorem afterUse_eq (s : LoopThread U) (t : Option U) :
    s.afterUse t = s ∨ t = none ∧ s.loop.stage (some none) = .idle ∧
      s.afterUse t = { s with owner := .joining } := by
  cases t with
  | some u => exact Or.inl rfl
  | none =>
      by_cases hidle : s.loop.stage (some none) = .idle
      · exact Or.inr ⟨rfl, hidle, if_pos hidle⟩
      · exact Or.inl (if_neg hidle)

omit [DecidableEq U] in
theorem exists_afterUse (s : LoopThread U) (t : Option U) :
    ∃ o, s.afterUse t = { s with owner := o } := by
  rcases s.afterUse_eq t with h | ⟨-, -, h⟩
  · exact ⟨s.owner, h⟩
  · exact ⟨.joining, h⟩

theorem Effect.over_kept (hs : Effect s a s') (h : s.Over) : s'.Over := by
  cases hs with
  | own hc hmay =>
      rcases mayStep_cases hc hmay with ⟨hw, -⟩ | ⟨hw, -⟩ | ⟨hw, -⟩ <;> simp [Over, hw] at h
  | @use _ t l =>
      obtain ⟨o, ho⟩ := exists_afterUse { s with loop := l } t
      rw [ho]
      exact h
  | publish hw => simp [Over, hw] at h
  | clear => exact Or.inr (Or.inl rfl)
  | destroy => exact Or.inr (Or.inr rfl)
  | _ => exact h

omit [DecidableEq U] in
theorem isTest_of_caller {b : EventLoop.Act (Option U)} {t : Option U} (h : b.caller = some t) :
    (Act.loop b).isTest = false := by
  cases b with
  | testQuit => cases h
  | _ => rfl

/-- After the loop has found the flag set it does not test it again. -/
theorem Ended.step (h : s.Ended) (hs : Effect s a s') : a.isTest = false ∧ s'.Ended := by
  rcases h with ⟨hw, hpc⟩ | hover
  · cases hs with
    | @own b l hc hmay hl =>
        cases EventLoop.effect_of_exec hl with
        | exchange | link | wakeup | quitLoad | quitStore | quitWakeup =>
            exact ⟨rfl, Or.inl ⟨by rw [hw]; rfl, hpc⟩⟩
        | leave => exact ⟨rfl, Or.inr (Or.inl (by rw [hw]; rfl))⟩
        | loop _ hpc' | clearQuit _ hpc' | testQuit _ hpc' | pollReturn _ hpc' | wakeupRead _ hpc'
          | endHandling _ hpc' | testEmpty _ hpc' | dequeue _ hpc' | dequeueNone _ hpc'
          | endFunc _ hpc' | destroyFunc _ hpc' => cases hpc.symm.trans hpc'
    | @use _ t l hc _ _ hl =>
        have hb := (EventLoop.effect_of_exec hl).beside (EventLoop.Act.isCall_of_caller hc)
        obtain ⟨o, ho⟩ := exists_afterUse { s with loop := l } t
        rw [ho]
        exact ⟨isTest_of_caller hc, Or.inl ⟨hw, hb.pc.trans hpc⟩⟩
    | stray hc => exact ⟨isTest_of_caller hc, Or.inl ⟨hw, hpc⟩⟩
    | publish hw' | clear hw' | destroy hw' => cases hw.symm.trans hw'
    | _ => exact ⟨rfl, Or.inl ⟨hw, hpc⟩⟩
  · refine ⟨?_, Or.inr (hs.over_kept hover)⟩
    cases hs with
    | own hc hmay =>
        rcases mayStep_cases hc hmay with ⟨hw, -⟩ | ⟨hw, -⟩ | ⟨hw, -⟩ <;> simp [Over, hw] at hover
    | use hc | stray hc => exact isTest_of_caller hc
    | _ => rfl

/-- `loop()` has returned, or will find the flag set. -/
def Asked (s : LoopThread U) : Prop := s.once = .done ∧ (s.Over ∨ s.loop.quit = true)

theorem Effect.once_kept (hs : Effect s a s') (h : s.once = .done) : s'.once = .done := by
  cases hs with
  | @use _ t l =>
      obtain ⟨o, ho⟩ := exists_afterUse { s with loop := l } t
      rw [ho]
      exact h
  | runFirst _ ho => cases h.symm.trans ho
  | runReturn => rfl
  | _ => exact h

/-- The first function has kept its promise, so the flag is not cleared any more. -/
theorem Asked.step (h : s.Asked) (hi : Inv s) (hs : Effect s a s') :
    s'.Asked ∧ (a.isTest = true → s'.Ended) := by
  obtain ⟨hdone, hover | hquit⟩ := h
  · refine ⟨⟨hs.once_kept hdone, Or.inl (hs.over_kept hover)⟩, fun _ => Or.inr (hs.over_kept hover)⟩
  · have hpc : s.worker = .looping → s.loop.pc ≠ .starting := fun hw =>
      ((hi.kept (hi.once hdone)).resolve_right (by simp [Over, hw])).2
    have honce := hs.once_kept hdone
    cases hs with
    | @own b l hc hmay hl =>
        have heff := EventLoop.effect_of_exec hl
        have hst := hi.kept (hi.once hdone)
        rcases mayStep_cases hc hmay with ⟨hw, -⟩ | ⟨hw, -⟩ | ⟨hw, -⟩
        · simp [Started, Over, hw] at hst
        · simp [Started, Over, hw] at hst
        · refine ⟨⟨honce, Or.inr (heff.quit_kept (hpc hw) hquit)⟩, fun ht => ?_⟩
          cases heff with
          | testQuit => exact Or.inl ⟨by rw [hw]; rfl, if_pos hquit⟩
          | _ => cases ht
    | @use b t l hc _ _ hl =>
        have hb := (EventLoop.effect_of_exec hl).beside (EventLoop.Act.isCall_of_caller hc)
        obtain ⟨o, ho⟩ := exists_afterUse { s with loop := l } t
        rw [ho]
        refine ⟨⟨hdone, Or.inr (hb.quit hquit)⟩, fun ht => ?_⟩
        rw [isTest_of_caller hc] at ht
        cases ht
    | stray hc =>
        refine ⟨⟨honce, Or.inr hquit⟩, fun ht => ?_⟩
        rw [isTest_of_caller hc] at ht
        cases ht
    | _ => exact ⟨⟨honce, Or.inr hquit⟩, nofun⟩

theorem Asked.run {ms : List (Act U)} {t : LoopThread U} (h : s.Asked) (hi : Inv s)
    (hr : Run Step s ms t) :
    Inv t ∧ t.Asked ∧ (ms.countP Act.isTest = 0 ∨ ms.countP Act.isTest = 1 ∧ t.Ended) := by
  induction hr with
  | nil => exact ⟨hi, h, Or.inl rfl⟩
  | @snoc t u ms b _ hs ih =>
      obtain ⟨hit, hat, hcount⟩ := ih
      have heff := effect_of_step hs
      obtain ⟨hau, hend⟩ := hat.step hit heff
      refine ⟨hit.step heff, hau, ?_⟩
      rw [List.countP_append, List.countP_singleton]
      rcases hcount with hzero | ⟨hone, hended⟩
      · cases hb : b.isTest with
        | false => exact Or.inl (by simp [hzero])
        | true => exact Or.inr ⟨by simp [hzero], hend hb⟩
      · obtain ⟨hb, hended'⟩ := hended.step heff
        exact Or.inr ⟨by simp [hone, hb], hended'⟩

/-- **A quit request is heeded once `run()` has returned.** When the
destructor waits in `join`, or the flag is set after `run()` has returned,
then in every later state the loop has returned or will find the flag set,
which it tests at most once more, and a loop that is blocked has been woken
up or is about to be. -/
theorem quit_heeded {acts ms : List (Act U)} {s t : LoopThread U}
    (hr : Run Step LoopThread.new acts s)
    (hq : s.owner = .joining ∨ s.returned = true ∧ s.loop.quit = true) (ht : Run Step s ms t) :
    ms.countP Act.isTest ≤ 1 ∧
      (t.Over ∨ t.loop.quit = true ∧
        (t.loop.pc = .poll → 0 < t.loop.wakeupFd ∨ ∃ v, t.loop.stage (some v) = .quitWake)) := by
  have hi := Inv.run hr
  have hasked : s.Asked := by
    rcases hq with hj | ⟨hret, hquit⟩
    · exact ⟨hi.returned (Or.inr (by rw [hj]; rfl)), hi.asked (Or.inl hj)⟩
    · exact ⟨hi.returned (Or.inl hret), Or.inr hquit⟩
  obtain ⟨hit, ⟨-, hat⟩, hcount⟩ := hasked.run hi ht
  exact ⟨by omega, hat.imp_right fun hquit => ⟨hquit, hit.roused hquit⟩⟩

/-- The object is made, and destroyed while the loop runs its first function. -/
def madeAndDestroyed : List (Act Unit) :=
  [.loop (.exchange none), .loop (.link none), .loop (.wakeup none), .publish, .construct,
    .destruct, .runOnce none, .loop .loop, .loop .clearQuit, .loop .testQuit, .loop (.pollReturn true),
    .loop (.wakeupRead 0), .loop .endHandling, .loop .testEmpty, .loop .dequeue, .keepPromise,
    .runReturn none, .load, .loop (.quitLoad (some none)), .loop (.quitStore (some none)),
    .loop (.quitWakeup (some none))]

/-- The loop thread drains its queue, finds the flag set and ends. -/
def lastDrain : List (Act Unit) :=
  [.loop .endFunc, .loop .dequeue, .loop .destroyFunc, .loop .testEmpty, .loop .testQuit,
    .loop .leave, .clear, .destroy, .join]

theorem destroyed_run :
    ∃ s t : LoopThread Unit, Run Step LoopThread.new madeAndDestroyed s ∧ s.owner = .joining ∧
      Run Step s lastDrain t ∧ t.owner = .destroyed :=
  ⟨_, _, Run.of_foldlM (f := exec) rfl, rfl, Run.of_foldlM (f := exec) rfl, rfl⟩

theorem quit_heeded_destroyed :
    ∃ s t : LoopThread Unit, Run Step LoopThread.new madeAndDestroyed s ∧ Run Step s lastDrain t ∧
      t.owner = .destroyed ∧ lastDrain.countP Act.isTest ≤ 1 := by
  obtain ⟨s, t, hr, hj, ht, hd⟩ := destroyed_run
  exact ⟨s, t, hr, ht, hd, (quit_heeded hr (Or.inl hj) ht).1⟩

/-! ## The loop under the destructor -/

/-- A step of `quit()` of anyone but the destructor. -/
def QuitsAside : Act U → Prop
  | .loop (.quitLoad t) | .loop (.quitStore t) | .loop (.quitWakeup t) => t ≠ some none
  | _ => False

/-- The steps of a program in which the destructor alone asks the loop to quit. -/
def SoleStep : LoopThread U → Act U → LoopThread U → Prop :=
  Guarded Step fun _ a => ¬ QuitsAside a

/-- The destructor is in `quit()` of a loop that does not exist any more. -/
def Dangling (s : LoopThread U) : Prop := s.owner = .quitting ∧ s.worker = .done

structure Sole (s : LoopThread U) : Prop where
  others : ∀ t, t ≠ some none → s.loop.stage t ≠ .quitting
  quit : s.loop.quit = true →
    s.loop.stage (some none) = .quitWake ∨ s.owner = .joining ∨ s.owner = .destroyed
  flag : s.loop.FlagSet
  ended : s.Over → s.loop.quit = true

omit [DecidableEq U] in
theorem Sole.new : Sole (new : LoopThread U) where
  others := fun _ _ h => by cases h
  quit := nofun
  flag := nofun
  ended := by rintro (h | h | h) <;> cases h

theorem quit_of_not_ofQuit {l l' : EventLoop (Option U)} {b : EventLoop.Act (Option U)}
    (hs : EventLoop.Effect l b l') (hb : ofQuit b = false) :
    (∀ t, l'.stage t = .quitting → l.stage t = .quitting) ∧ (l'.quit = true → l.quit = true) := by
  have hset : ∀ {u : Option (Option U)} {stage : CallStage}, stage ≠ .quitting →
      ∀ t, (l.setStage u stage).stage t = .quitting → l.stage t = .quitting := by
    intro u stage hne t ht
    rw [EventLoop.stage_setStage] at ht
    split at ht
    · exact absurd ht hne
    · exact ht
  cases hs with
  | exchange => exact ⟨hset nofun, id⟩
  | link => exact ⟨hset nofun, id⟩
  | wakeup => exact ⟨hset nofun, id⟩
  | quitLoad | quitStore | quitWakeup => cases hb
  | clearQuit => exact ⟨fun _ => id, nofun⟩
  | _ => exact ⟨fun _ => id, id⟩

theorem Sole.own (h : Sole s) {b : EventLoop.Act (Option U)} {l : EventLoop (Option U)}
    (hc : b.caller = none) (hmay : s.mayStep b = true) (hs : EventLoop.Effect s.loop b l)
    (hn : ¬ QuitsAside (.loop b)) :
    Sole { s with loop := l, worker := workerAfter s.worker b } := by
  have hb : ofQuit b = false := by
    cases b with
    | quitLoad t | quitStore t | quitWakeup t =>
        obtain rfl : t = none := hc
        exact absurd nofun hn
    | _ => rfl
  obtain ⟨hstage, hquit⟩ := quit_of_not_ofQuit hs hb
  have hown := hs.stage_eq (u := some none) (by rw [hc]; nofun)
  refine ⟨fun t ht hq => h.others t ht (hstage t hq), fun hq => ?_, h.flag.step hs, fun hover => ?_⟩
  · rw [hown]
    exact h.quit (hquit hq)
  · rcases mayStep_cases hc hmay with ⟨hw, hcase⟩ | ⟨hw, rfl, -⟩ | ⟨hw, -⟩
    · rw [hw] at hover
      rcases hcase with rfl | rfl | rfl <;> simp [workerAfter, Over] at hover
    · simp [hw, workerAfter, Over] at hover
    · rw [hw] at hover
      cases hs with
      | leave _ hpc => exact h.flag hpc
      | _ => simp [workerAfter, Over] at hover

theorem Sole.call (h : Sole s) {b : EventLoop.Act (Option U)} {t : Option U}
    {l : EventLoop (Option U)} (hc : b.caller = some t) (hmay : s.mayUse b t = true)
    (hs : EventLoop.Effect s.loop b l) (hn : ¬ QuitsAside (.loop b)) :
    Sole (({ s with loop := l } : LoopThread U).afterUse t) := by
  have hb := hs.beside (EventLoop.Act.isCall_of_caller hc)
  cases t with
  | some u =>
      have hb' : ofQuit b = false := by
        cases b with
        | quitLoad v | quitStore v | quitWakeup v =>
            obtain rfl : v = some (some u) := hc
            exact absurd nofun hn
        | _ => rfl
      obtain ⟨hstage, hquit⟩ := quit_of_not_ofQuit hs hb'
      have hown := hs.stage_eq (u := some none) (by rw [hc]; nofun)
      refine ⟨fun t ht hq => h.others t ht (hstage t hq), fun hq => ?_, h.flag.step hs,
        fun hover => hb.quit (h.ended hover)⟩
      rw [show (({ s with loop := l } : LoopThread U).afterUse (some u)).loop = l from rfl, hown]
      exact h.quit (hquit hq)
  | none =>
      have hothers : ∀ v, v ≠ some none → l.stage v ≠ .quitting := by
        intro v hv
        rw [hs.stage_eq (by rw [hc]; exact hv)]
        exact h.others v hv
      simp only [mayUse, Bool.and_eq_true, decide_eq_true_eq] at hmay
      obtain ⟨ho, hq⟩ := hmay
      -- the flag is set by the destructor, which then writes the wake-up and goes on to `join`
      have hset : l.quit = true →
          l.stage (some none) = .quitWake ∨ l.stage (some none) = .idle := by
        cases hs with
        | quitLoad hidle =>
            obtain rfl := hc
            intro hquit
            have := h.quit hquit
            simp [hidle, ho] at this
        | quitStore =>
            obtain rfl := hc
            exact fun _ => Or.inl (by simp [EventLoop.setStage])
        | quitWakeup =>
            obtain rfl := hc
            exact fun _ => Or.inr (by simp [EventLoop.setStage])
        | _ => cases hq
      have hflag := h.flag.step hs
      have hover : ({ s with loop := l } : LoopThread U).Over → l.quit = true :=
        fun hover => hb.quit (h.ended hover)
      rcases afterUse_eq { s with loop := l } none with hu | ⟨-, -, hu⟩
      · rw [hu]
        refine ⟨hothers, fun hquit => Or.inl ((hset hquit).resolve_right fun hidle => ?_), hflag,
          hover⟩
        have : (afterUse { s with loop := l } none).owner = .joining := by
          rw [afterUse, if_pos hidle]
        rw [hu, ho] at this
        cases this
      · rw [hu]
        exact ⟨hothers, fun _ => Or.inr (Or.inl rfl), hflag, hover⟩

theorem Sole.endRun (h : Sole s) (t : Option U) :
    Sole (({ s with once := .done } : LoopThread U).endRun t) := by
  refine ⟨h.others, fun hq => (h.quit hq).imp_right ?_, h.flag, h.ended⟩
  rintro (ho | ho) <;> simp [LoopThread.endRun, ho]

theorem Sole.step (h : Sole s) (hi : Inv s) (hn : ¬ QuitsAside a) (hs : Effect s a s') :
    Sole s' := by
  -- before the destructor calls `quit()` the flag is clear
  have hclear : s.owner ≠ .quitting → s.owner ≠ .joining → s.owner ≠ .destroyed →
      s.loop.quit ≠ true := by
    intro hq hj hd hquit
    have := h.quit hquit
    simp [hi.stage hq, hj, hd] at this
  cases hs with
  | own hc hmay hl => exact h.own hc hmay (EventLoop.effect_of_exec hl) hn
  | use hc hmay _ hl => exact h.call hc hmay (EventLoop.effect_of_exec hl) hn
  | stray | keepPromise => exact ⟨h.others, h.quit, h.flag, h.ended⟩
  | publish hw => exact ⟨h.others, h.quit, h.flag, by simp [Over]⟩
  | clear hw => exact ⟨h.others, h.quit, h.flag, fun _ => h.ended (Or.inl hw)⟩
  | destroy hw => exact ⟨h.others, h.quit, h.flag, fun _ => h.ended (Or.inr (Or.inl hw))⟩
  | join => exact ⟨h.others, fun _ => Or.inr (Or.inr rfl), h.flag, h.ended⟩
  | construct ho | wait ho | endWait ho | destruct ho | load ho =>
      exact ⟨h.others, fun hq => absurd hq (hclear (by simp [ho]) (by simp [ho]) (by simp [ho])),
        h.flag, h.ended⟩
  | runCall | runFirst => exact ⟨h.others, h.quit, h.flag, h.ended⟩
  | @runAgain t _ ho =>
      have hend := h.endRun t
      rwa [← ho] at hend
  | @runReturn t => exact h.endRun t

theorem Effect.of_done (hs : Effect s a s') (hw : s'.worker = .done) :
    s'.loop = s.loop ∧ (a = .destroy ∨ s.worker = .done) := by
  cases hs with
  | @own b l hc hmay =>
      rcases mayStep_cases hc hmay with ⟨hw', -⟩ | ⟨hw', -⟩ | ⟨hw', -⟩ <;> rw [hw'] at hw <;>
        cases b <;> cases hw
  | @use _ t l _ _ hne =>
      obtain ⟨o, ho⟩ := exists_afterUse { s with loop := l } t
      rw [ho] at hw
      exact absurd hw hne
  | destroy => exact ⟨rfl, Or.inl rfl⟩
  | publish | clear => cases hw
  | _ => exact ⟨rfl, Or.inr hw⟩

/-- **The wake-up at the end of `quit()` is the one use of a dead loop.**
If the destructor alone asks the loop to quit, the loop never ends under a
destructor that is in `quit()`, except by ending between the store of the
flag and the wake-up. -/
theorem never_dangling_iff (acts : List (Act U)) :
    Throughout SoleStep (fun s => ¬ s.Dangling) LoopThread.new acts ↔
      EveryStep SoleStep (fun s a => a = .destroy → s.loop.stage (some none) ≠ .quitWake)
        LoopThread.new acts := by
  refine throughout_iff_everyStep (I := fun s => Inv s ∧ Sole s ∧ ¬ s.Dangling)
    ⟨.new, .new, nofun⟩ ?_ (fun s h => h.2.2) ?_
  · rintro s a t ⟨hi, hsole, hd⟩ hg ⟨hs, hn⟩
    have heff := effect_of_step hs
    have hi' := hi.step heff
    have hsole' := hsole.step hi hn heff
    refine ⟨hi', hsole', fun ⟨ho, hw⟩ => ?_⟩
    -- the flag is set, so the destructor stands before its wake-up, and stood there before
    have hwake : t.loop.stage (some none) = .quitWake := by
      have := hsole'.quit (hsole'.ended (by simp [Over, hw]))
      simpa [ho] using this
    obtain ⟨hloop, rfl | hdone⟩ := heff.of_done hw
    · rw [hloop] at hwake
      exact hg rfl hwake
    · rw [hloop, hi.stage fun hq => hd ⟨hq, hdone⟩] at hwake
      cases hwake
  · rintro s a t ⟨hi, hsole, hd⟩ hg ⟨hs, hn⟩ hnot
    obtain ⟨rfl, hwake⟩ := Classical.not_imp.mp hg
    have howner : s.owner = .quitting := by
      by_contra hne
      exact hwake (by rw [hi.stage hne]; nofun)
    cases effect_of_step hs
    exact hnot ⟨howner, rfl⟩

end LoopThread

end Netpoll
