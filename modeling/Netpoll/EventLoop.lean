import Mathlib.Logic.Function.Basic
import Netpoll.Fifo
import Netpoll.Runs

/-!
# The event loop

`EventLoop::loop()` polls, handles the events and then drains `m_funcs`,
until it finds the quit flag set. Other threads call `queueInLoop` and
`quit()` at any moment, in steps of one atomic access each; so does the
loop thread itself, from an event callback, from a function it runs or
from the destructor of one.

`m_funcs` is the abstract queue of `Netpoll.Fifo`, which the lock-free
queue refines. Its functions are numbered in the order in which they got
their place. The wake-up descriptor counts what was written to it and not
read: a read of an eventfd takes everything, a read of a pipe takes one.
-/

namespace Netpoll

/-- Where the loop thread stands. -/
inductive LoopPc
  /-- Not in `loop()`. -/
  | outside
  /-- In `loop()`, with `m_looping` set and `m_quit` not yet cleared. -/
  | starting
  /-- About to test `m_quit`. -/
  | test
  /-- About to block, or blocked, in `poll`. -/
  | poll
  /-- Handling events; `wake` if the wake-up channel is still to be handled. -/
  | handling (wake : Bool)
  /-- About to test `m_funcs.empty()`. -/
  | outer
  /-- About to call `m_funcs.dequeue`. -/
  | inner
  /-- In a function, or in the destructor of the one before it. -/
  | running (f : Nat)
  /-- At the end of the block, which destroys the last function. -/
  | destroying
  /-- Out of the `while`, about to return. -/
  | exited
  deriving DecidableEq

/-- The points at which the loop thread runs code of the user. -/
def LoopPc.userCode : LoopPc → Bool
  | .outside | .handling _ | .running _ | .destroying => true
  | _ => false

/-- Where a thread stands in `queueInLoop` or `quit()`. -/
inductive CallStage
  | idle
  /-- The function has its place, `next_` is not stored. -/
  | enqueuing (f : Nat)
  /-- The function is in the queue, the wake-up is not written. -/
  | enqueued (f : Nat)
  /-- In `quit()`, having found the flag clear. -/
  | quitting
  /-- In `quit()`, having set the flag. -/
  | quitWake
  deriving DecidableEq

/-- The thread `none` is the loop thread. -/
structure EventLoop (T : Type*) where
  funcs : List (Cell (Option T) Nat)
  wakeupFd : Nat
  looping : Bool
  quit : Bool
  pc : LoopPc
  stage : Option T → CallStage
  /-- History: who queued which function. -/
  queued : List (Option T × Nat)
  /-- History: the functions that were run. -/
  executed : List Nat
  /-- History: the functions that a thread had queued before it called
  `quit()` on the running loop. -/
  covered : List Nat

namespace EventLoop

/-- One step of `queueInLoop` or `quit()` of a thread, or of `loop()`. -/
inductive Act (T : Type*)
  | exchange (t : Option T)
  | link (t : Option T)
  /-- The end of `queueInLoop`, with `wakeup()` unless it is not needed. -/
  | wakeup (t : Option T)
  | quitLoad (t : Option T)
  | quitStore (t : Option T)
  | quitWakeup (t : Option T)
  | loop
  | clearQuit
  | testQuit
  | pollReturn (wake : Bool)
  | wakeupRead (left : Nat)
  | endHandling
  | testEmpty
  | dequeue
  | endFunc
  | destroyFunc
  | leave

variable {T : Type*} [DecidableEq T]

def new : EventLoop T where
  funcs := []
  wakeupFd := 0
  looping := false
  quit := false
  pc := .outside
  stage _ := .idle
  queued := []
  executed := []
  covered := []

def setStage (t : Option T) (stage : CallStage) (s : EventLoop T) : EventLoop T :=
  { s with stage := Function.update s.stage t stage }

/-- The functions that a thread has queued. -/
def queuedBy (t : Option T) (s : EventLoop T) : List Nat :=
  (s.queued.filter fun e => e.1 = t).map Prod.snd

/-- Note what `t` has queued before its call of `quit()`. -/
def cover (t : Option T) (s : EventLoop T) : EventLoop T :=
  { s with covered := s.covered ++ s.queuedBy t }

/-- Other threads may begin a call at any time. -/
def mayCall (t : Option T) (s : EventLoop T) : Bool := t.isSome || s.pc.userCode

/-- A step of `loop()`. -/
def execLoop (s : EventLoop T) : Act T → Option (EventLoop T)
  | .loop =>
    match s.pc with
    | .outside => some { s with pc := .starting, looping := true }
    | _ => none
  | .clearQuit =>
    match s.pc with
    | .starting => some { s with pc := .test, quit := false, covered := [] }
    | _ => none
  | .testQuit =>
    match s.pc with
    | .test => some { s with pc := if s.quit then .exited else .poll }
    | _ => none
  | .pollReturn wake =>
    match s.pc with
    | .poll =>
      if wake && s.wakeupFd == 0 then none else some { s with pc := .handling wake }
    | _ => none
  | .wakeupRead left =>
    match s.pc with
    | .handling true =>
      if left < s.wakeupFd then some { s with pc := .handling false, wakeupFd := left } else none
    | _ => none
  | .endHandling =>
    match s.pc with
    | .handling false => some { s with pc := .outer }
    | _ => none
  | .testEmpty =>
    match s.pc with
    | .outer => some { s with pc := if (Fifo.pop? s.funcs).isNone then .test else .inner }
    | _ => none
  | .dequeue =>
    match s.pc with
    | .inner =>
      match Fifo.pop? s.funcs with
      | some (f, funcs) =>
        some { s with pc := .running f, funcs := funcs, executed := s.executed ++ [f] }
      | none => some { s with pc := .destroying }
    | _ => none
  | .endFunc =>
    match s.pc with
    | .running _ => some { s with pc := .inner }
    | _ => none
  | .destroyFunc =>
    match s.pc with
    | .destroying => some { s with pc := .outer }
    | _ => none
  | .leave =>
    match s.pc with
    | .exited => some { s with pc := .outside, looping := false }
    | _ => none
  | _ => none

def exec (s : EventLoop T) : Act T → Option (EventLoop T)
  | .exchange t =>
    match s.stage t with
    | .idle =>
      if s.mayCall t then
        let f := s.queued.length
        some { s.setStage t (.enqueuing f) with
          funcs := Fifo.exchange t f s.funcs
          queued := s.queued ++ [(t, f)] }
      else none
    | _ => none
  | .link t =>
    match s.stage t with
    | .enqueuing f => some { s.setStage t (.enqueued f) with funcs := Fifo.link t s.funcs }
    | _ => none
  | .wakeup t =>
    match s.stage t with
    | .enqueued _ =>
      some { s.setStage t .idle with
        wakeupFd := if t.isSome || !s.looping then s.wakeupFd + 1 else s.wakeupFd }
    | _ => none
  | .quitLoad t =>
    match s.stage t with
    | .idle =>
      if s.mayCall t then some ((s.cover t).setStage t (if s.quit then .idle else .quitting))
      else none
    | _ => none
  | .quitStore t =>
    match s.stage t with
    | .quitting =>
      some { (s.cover t).setStage t (if t.isSome then .quitWake else .idle) with quit := true }
    | _ => none
  | .quitWakeup t =>
    match s.stage t with
    | .quitWake => some { s.setStage t .idle with wakeupFd := s.wakeupFd + 1 }
    | _ => none
  | a =>
    -- the loop thread goes on when it is in no call of its own
    match s.stage none with
    | .idle => s.execLoop a
    | _ => none

end EventLoop

def EventLoop.Step {T : Type*} [DecidableEq T] (s : EventLoop T) (a : EventLoop.Act T)
    (t : EventLoop T) : Prop :=
  s.exec a = some t

/-! ## What a step does -/

namespace EventLoop

variable {T : Type*} [DecidableEq T] {s s' : EventLoop T}

/-- The outcome of each step, with what it found. -/
inductive Effect (s : EventLoop T) : Act T → EventLoop T → Prop
  | exchange {t : Option T} : s.stage t = .idle → s.mayCall t = true →
      Effect s (.exchange t)
        { s.setStage t (.enqueuing s.queued.length) with
          funcs := Fifo.exchange t s.queued.length s.funcs
          queued := s.queued ++ [(t, s.queued.length)] }
  | link {t : Option T} {f : Nat} : s.stage t = .enqueuing f →
      Effect s (.link t) { s.setStage t (.enqueued f) with funcs := Fifo.link t s.funcs }
  | wakeup {t : Option T} {f : Nat} : s.stage t = .enqueued f →
      Effect s (.wakeup t)
        { s.setStage t .idle with
          wakeupFd := if t.isSome || !s.looping then s.wakeupFd + 1 else s.wakeupFd }
  | quitLoad {t : Option T} : s.stage t = .idle → s.mayCall t = true →
      Effect s (.quitLoad t) ((s.cover t).setStage t (if s.quit then .idle else .quitting))
  | quitStore {t : Option T} : s.stage t = .quitting →
      Effect s (.quitStore t)
        { (s.cover t).setStage t (if t.isSome then .quitWake else .idle) with quit := true }
  | quitWakeup {t : Option T} : s.stage t = .quitWake →
      Effect s (.quitWakeup t) { s.setStage t .idle with wakeupFd := s.wakeupFd + 1 }
  | loop : s.stage none = .idle → s.pc = .outside →
      Effect s .loop { s with pc := .starting, looping := true }
  | clearQuit : s.stage none = .idle → s.pc = .starting →
      Effect s .clearQuit { s with pc := .test, quit := false, covered := [] }
  | testQuit : s.stage none = .idle → s.pc = .test →
      Effect s .testQuit { s with pc := if s.quit then .exited else .poll }
  | pollReturn {wake : Bool} : s.stage none = .idle → s.pc = .poll →
      Effect s (.pollReturn wake) { s with pc := .handling wake }
  | wakeupRead {left : Nat} : s.stage none = .idle → s.pc = .handling true →
      Effect s (.wakeupRead left) { s with pc := .handling false, wakeupFd := left }
  | endHandling : s.stage none = .idle → s.pc = .handling false →
      Effect s .endHandling { s with pc := .outer }
  | testEmpty : s.stage none = .idle → s.pc = .outer →
      Effect s .testEmpty { s with pc := if (Fifo.pop? s.funcs).isNone then .test else .inner }
  | dequeue {f : Nat} {funcs : List (Cell (Option T) Nat)} : s.stage none = .idle →
      s.pc = .inner → Fifo.pop? s.funcs = some (f, funcs) →
      Effect s .dequeue { s with pc := .running f, funcs := funcs, executed := s.executed ++ [f] }
  | dequeueNone : s.stage none = .idle → s.pc = .inner → Fifo.pop? s.funcs = none →
      Effect s .dequeue { s with pc := .destroying }
  | endFunc {f : Nat} : s.stage none = .idle → s.pc = .running f →
      Effect s .endFunc { s with pc := .inner }
  | destroyFunc : s.stage none = .idle → s.pc = .destroying →
      Effect s .destroyFunc { s with pc := .outer }
  | leave : s.stage none = .idle → s.pc = .exited →
      Effect s .leave { s with pc := .outside, looping := false }

theorem effect_of_execLoop {a : Act T} (hidle : s.stage none = .idle)
    (hs : s.execLoop a = some s') : Effect s a s' := by
  unfold execLoop at hs
  split at hs
  · split at hs
    next hpc => exact Option.some.inj hs ▸ .loop hidle hpc
    · cases hs
  · split at hs
    next hpc => exact Option.some.inj hs ▸ .clearQuit hidle hpc
    · cases hs
  · split at hs
    next hpc => exact Option.some.inj hs ▸ .testQuit hidle hpc
    · cases hs
  · split at hs
    next hpc =>
        simp only [Option.ite_none_left_eq_some, Option.some.injEq] at hs
        exact hs.2 ▸ .pollReturn hidle hpc
    · cases hs
  · split at hs
    next hpc =>
        simp only [Option.ite_none_right_eq_some, Option.some.injEq] at hs
        exact hs.2 ▸ .wakeupRead hidle hpc
    · cases hs
  · split at hs
    next hpc => exact Option.some.inj hs ▸ .endHandling hidle hpc
    · cases hs
  · split at hs
    next hpc => exact Option.some.inj hs ▸ .testEmpty hidle hpc
    · cases hs
  · split at hs
    next hpc =>
        split at hs
        next f funcs hpop => exact Option.some.inj hs ▸ .dequeue hidle hpc hpop
        next hpop => exact Option.some.inj hs ▸ .dequeueNone hidle hpc hpop
    · cases hs
  · split at hs
    next hpc => exact Option.some.inj hs ▸ .endFunc hidle hpc
    · cases hs
  · split at hs
    next hpc => exact Option.some.inj hs ▸ .destroyFunc hidle hpc
    · cases hs
  · split at hs
    next hpc => exact Option.some.inj hs ▸ .leave hidle hpc
    · cases hs
  · cases hs

theorem effect_of_exec {a : Act T} (hs : s.exec a = some s') : Effect s a s' := by
  unfold exec at hs
  split at hs
  · split at hs
    next hidle =>
        simp only [Option.ite_none_right_eq_some, Option.some.injEq] at hs
        exact hs.2 ▸ .exchange hidle hs.1
    · cases hs
  · split at hs
    next f hf => exact Option.some.inj hs ▸ .link hf
    · cases hs
  · split at hs
    next f hf => exact Option.some.inj hs ▸ .wakeup hf
    · cases hs
  · split at hs
    next hidle =>
        simp only [Option.ite_none_right_eq_some, Option.some.injEq] at hs
        exact hs.2 ▸ .quitLoad hidle hs.1
    · cases hs
  · split at hs
    next hq => exact Option.some.inj hs ▸ .quitStore hq
    · cases hs
  · split at hs
    next hq => exact Option.some.inj hs ▸ .quitWakeup hq
    · cases hs
  · split at hs
    next hidle => exact effect_of_execLoop hidle hs
    · cases hs

end EventLoop

end Netpoll
