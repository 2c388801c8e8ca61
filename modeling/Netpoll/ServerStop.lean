import Mathlib.Data.List.FinRange
import Netpoll.Runs
import Netpoll.TcpServer

/-!
# Stopping a server

`TcpServer::stop()` (`net/tcp_server.cc`) among the threads it deals with:
the thread it is called on, the server's loop, and the loops of a pool of
`n` threads. It closes the connections on the server's loop, lets go of the
pool, and then has the timing wheel of each loop reset on that loop. Each
time it waits for a promise that a functor of its own is to fulfil.

If nobody else holds the pool, letting go of it ends its threads: each is
told to quit and joined (`~EventLoopThread`), and its `EventLoop`, a local
variable of the thread function, is gone. A wheel of such a loop is reset
after that.

The server's loop is taken to run all the time, as the thread of a pool's
loop does until it is told to quit. What the loops do besides is there as
far as it can get in the way: connections are accepted and closed, which
passes functors between the loops, and anybody may queue other ones.
-/

namespace Netpoll

/-- The server's loop (`none`) and the loops of the pool. -/
abbrev LoopId (n : Nat) := Option (Fin n)

/-- The loops that `start()` gets from the pool in `k` turns. -/
def EventLoopThreadPool.nextLoops {L : Type*} : Nat → EventLoopThreadPool L → List L
  | 0, _ => []
  | k + 1, p => p.getNextLoop.1.toList ++ nextLoops k p.getNextLoop.2

/-- A server as it is when `stop()` is called, and how it is called. -/
structure StopConfig (n : Nat) where
  started : Bool
  idleTimeout : Nat
  /-- The server has the only reference to the pool. -/
  owned : Bool
  /-- `stop()` is called on the thread of the server's loop. -/
  onLoop : Bool
  /-- The loop that a connection is given to. -/
  ioLoop : ConnId → LoopId n
  /-- `m_loopIndex` of the pool when the server is started. -/
  loopIndex : Nat
  index_lt : 0 < n → loopIndex < n
  /-- The keys of `m_timingWheelMap` in their order, if `start()` makes wheels. -/
  order : List (LoopId n)
  mem_order : ∀ l, l ∈ order ↔ l = none ∨
    ∃ i ∈ EventLoopThreadPool.nextLoops n ⟨List.finRange n, loopIndex⟩, l = some i

/-- The loops with a timing wheel. -/
def StopConfig.wheels {n : Nat} (cfg : StopConfig n) : List (LoopId n) :=
  if cfg.started && 0 < cfg.idleTimeout then cfg.order else []

/-- The pool is destroyed with its loops, and some of them have wheels. -/
def StopConfig.LosesWheels {n : Nat} (cfg : StopConfig n) : Prop :=
  cfg.owned = true ∧ ∃ i, some i ∈ cfg.wheels

/-- The functors in the queues of the loops. -/
inductive StopTask (n : Nat) where
  /-- Resets the acceptor, closes the connections, and fulfils a promise. -/
  | closeAll
  | forceClose (c : ConnId)
  | handleCloseInLoop (c : ConnId)
  | connectDestroyed (c : ConnId)
  /-- Resets the wheel of a loop and fulfils a promise. -/
  | resetWheel (l : LoopId n)
  | other
  deriving DecidableEq

/-- Somebody waits for the functor. -/
def StopTask.isPromise {n : Nat} : StopTask n → Bool
  | .closeAll | .resetWheel _ => true
  | _ => false

/-- Where the thread of a pool's loop stands. -/
inductive PoolLoopPc where
  /-- About to test `m_quit`. -/
  | test
  /-- Polling and handling events. -/
  | poll
  /-- In `doRunInLoopFuncs`. -/
  | funcs
  /-- The thread has ended, and the loop with it. -/
  | exited
  deriving DecidableEq

/-- Where `stop()` stands. -/
inductive StopAt (n : Nat) where
  | idle
  /-- Waiting for the connections to be closed. -/
  | waitClose
  /-- Destroying the pool, with these threads left. -/
  | quit (threads : List (Fin n))
  /-- Joining one of them. -/
  | join (i : Fin n) (threads : List (Fin n))
  /-- In the loop over the wheels, with these left. -/
  | wheels (ls : List (LoopId n))
  /-- Waiting for one of them to be reset. -/
  | waitWheel (l : LoopId n) (ls : List (LoopId n))
  | done
  deriving DecidableEq

structure ServerThreads (n : Nat) where
  queue : LoopId n → List (StopTask n)
  loop : Fin n → PoolLoopPc
  quit : Fin n → Bool
  accepting : Bool
  connSet : List ConnId
  isOpen : ConnId → Bool
  /-- The connections that are still to be closed on the server's loop. -/
  sweeping : Option (List ConnId)
  stopper : StopAt n
  /-- The promise that `stop()` waits for, or waited for last, is fulfilled. -/
  promise : Bool
  /-- History: `stop()` has queued a functor in a loop that was gone. -/
  dangled : Bool

inductive StopAct (n : Nat) where
  /-- The next step of `stop()`. -/
  | stop
  /-- The next step of the server's loop. -/
  | server
  /-- The next step of a loop of the pool. -/
  | loop (i : Fin n)
  | accept (c : ConnId)
  /-- The peer closes a connection. -/
  | peerClose (c : ConnId)
  /-- Some thread queues a functor in a loop. -/
  | post (l : LoopId n)

namespace ServerThreads

variable {n : Nat} (cfg : StopConfig n)

def new : ServerThreads n where
  queue _ := []
  loop _ := .poll
  quit _ := false
  accepting := true
  connSet := []
  isOpen _ := false
  sweeping := none
  stopper := .idle
  promise := false
  dangled := false

def alive (q : ServerThreads n) : LoopId n → Bool
  | none => true
  | some i => q.loop i ≠ .exited

/-- `stop()` is on its way. -/
def stopping (q : ServerThreads n) : Bool := q.stopper ≠ .idle ∧ q.stopper ≠ .done

/-- The thread of the server's loop is not busy with `stop()`. -/
def serverFree (q : ServerThreads n) : Bool :=
  q.sweeping.isNone && !(cfg.onLoop && q.stopping)

def queueInLoop (q : ServerThreads n) (l : LoopId n) (t : StopTask n) : ServerThreads n :=
  { q with queue := Function.update q.queue l (q.queue l ++ [t]) }

/-- `queueInLoop` in a statement of `stop()`. -/
def stopQueues (q : ServerThreads n) (l : LoopId n) (t : StopTask n) : ServerThreads n :=
  { q.queueInLoop l t with dangled := q.dangled || !q.alive l }

def handleCloseInLoop (q : ServerThreads n) (c : ConnId) : ServerThreads n :=
  { q with connSet := q.connSet.erase c }.queueInLoop (cfg.ioLoop c) (.connectDestroyed c)

/-- `handleClose` of a connection, on its loop; the close callback is
`connectionClosed`. -/
def handleClose (q : ServerThreads n) (c : ConnId) : ServerThreads n :=
  if q.isOpen c then
    let q := { q with isOpen := Function.update q.isOpen c false }
    match cfg.ioLoop c with
    | none => q.handleCloseInLoop cfg c
    | some _ => q.queueInLoop none (.handleCloseInLoop c)
  else q

/-- `connection->forceClose()` on the thread of the server's loop. -/
def forceClose (q : ServerThreads n) (c : ConnId) : ServerThreads n :=
  match cfg.ioLoop c with
  | none => q.handleClose cfg c
  | some i => q.stopQueues (some i) (.forceClose c)

/-- The beginning of `stop()` on the thread of the server's loop. -/
def closeAll (q : ServerThreads n) : ServerThreads n :=
  { q with accepting := false, sweeping := some q.connSet }

def runTask (q : ServerThreads n) : StopTask n → ServerThreads n
  | .closeAll => q.closeAll
  | .forceClose c => q.handleClose cfg c
  | .handleCloseInLoop c => q.handleCloseInLoop cfg c
  | .resetWheel _ => { q with promise := true }
  | .connectDestroyed _ | .other => q

def pop (q : ServerThreads n) (l : LoopId n) (rest : List (StopTask n)) : ServerThreads n :=
  { q with queue := Function.update q.queue l rest }

/-- The loop runs the functor at the front of its queue. -/
def runFront (q : ServerThreads n) (l : LoopId n) : Option (ServerThreads n) :=
  match q.queue l with
  | [] => none
  | t :: rest => some ((q.pop l rest).runTask cfg t)

def execServer (q : ServerThreads n) : Option (ServerThreads n) :=
  match q.sweeping with
  | some (c :: cs) => some ({ q with sweeping := some cs }.forceClose cfg c)
  | some [] => some { q with sweeping := none, promise := true }
  | none => if q.serverFree cfg then q.runFront cfg none else none

def setLoop (q : ServerThreads n) (i : Fin n) (pc : PoolLoopPc) : ServerThreads n :=
  { q with loop := Function.update q.loop i pc }

def execLoop (q : ServerThreads n) (i : Fin n) : Option (ServerThreads n) :=
  match q.loop i with
  | .test => some (q.setLoop i (if q.quit i then .exited else .poll))
  | .poll => some (q.setLoop i .funcs)
  | .funcs =>
    match q.queue (some i) with
    | [] => some (q.setLoop i .test)
    | _ :: _ => q.runFront cfg (some i)
  | .exited => none

/-- The next step of `stop()`; `none` where it waits. -/
def execStop (q : ServerThreads n) : Option (ServerThreads n) :=
  match q.stopper with
  | .idle =>
    if cfg.onLoop then
      if q.sweeping.isNone then some { q.closeAll with stopper := .waitClose, promise := false }
      else none
    else some { q.stopQueues none .closeAll with stopper := .waitClose, promise := false }
  | .waitClose =>
    if q.promise then
      some { q with stopper := if cfg.owned then .quit (List.finRange n) else .wheels cfg.wheels }
    else none
  | .quit [] => some { q with stopper := .wheels cfg.wheels }
  | .quit (i :: is) =>
    some { q with quit := Function.update q.quit i true, stopper := .join i is }
  | .join i is => if q.loop i = .exited then some { q with stopper := .quit is } else none
  | .wheels [] => some { q with stopper := .done }
  | .wheels (l :: ls) =>
    if cfg.onLoop && l.isNone then some { q with stopper := .wheels ls }
    else
      some { q.stopQueues l (.resetWheel l) with stopper := .waitWheel l ls, promise := false }
  | .waitWheel _ ls => if q.promise then some { q with stopper := .wheels ls } else none
  | .done => none

/-- The thread of the loop handles events. -/
def handling (q : ServerThreads n) : LoopId n → Bool
  | none => q.serverFree cfg
  | some i => q.loop i = .poll

def exec (q : ServerThreads n) : StopAct n → Option (ServerThreads n)
  | .stop => q.execStop cfg
  | .server => q.execServer cfg
  | .loop i => q.execLoop cfg i
  | .accept c =>
    if q.accepting && q.serverFree cfg && !q.isOpen c then
      some ({ q with
        connSet := c :: q.connSet
        isOpen := Function.update q.isOpen c true }.queueInLoop (cfg.ioLoop c) .other)
    else none
  | .peerClose c => if q.handling cfg (cfg.ioLoop c) then some (q.handleClose cfg c) else none
  | .post l => if q.alive l then some (q.queueInLoop l .other) else none

end ServerThreads

def StopStep {n : Nat} (cfg : StopConfig n) (q : ServerThreads n) (a : StopAct n)
    (q' : ServerThreads n) : Prop :=
  q.exec cfg a = some q'

namespace StopAt

variable {n : Nat}

/-- The functor that is to fulfil the promise, and the loop it is for. -/
def awaits : StopAt n → Option (LoopId n × StopTask n)
  | .waitClose => some (none, .closeAll)
  | .waitWheel l _ => some (l, .resetWheel l)
  | _ => none

/-- The connections are closed. -/
def afterClose : StopAt n → Bool
  | .idle | .waitClose => false
  | _ => true

/-- The pool is being destroyed. -/
def endsPool : StopAt n → Bool
  | .quit _ | .join _ _ => true
  | _ => false

/-- The destructor of the pool, if it was called, has joined the thread. -/
def joined (i : Fin n) : StopAt n → Bool
  | .idle | .waitClose => false
  | .quit is => i ∉ is
  | .join j is => i ∉ j :: is
  | _ => true

/-- The wheels that the loop over them has before it. -/
def left : StopAt n → List (LoopId n)
  | .wheels ls => ls
  | .waitWheel l ls => l :: ls
  | _ => []

/-- The wheels that are not reset yet. -/
def wheelsLeft (wheels : List (LoopId n)) : StopAt n → List (LoopId n)
  | .wheels ls => ls
  | .waitWheel l ls => l :: ls
  | .done => []
  | _ => wheels

theorem mem_of_wheelsLeft {a : StopAt n} {wheels : List (LoopId n)} {l : LoopId n}
    (h : ∀ l ∈ a.left, l ∈ wheels) (hl : l ∈ a.wheelsLeft wheels) : l ∈ wheels := by
  cases a with
  | wheels | waitWheel => exact h l hl
  | done => cases hl
  | idle | waitClose | quit | join => exact hl

theorem mem_left {a : StopAt n} {i : Fin n} {t : StopTask n} (h : a.awaits = some (some i, t)) :
    some i ∈ a.left := by
  cases a with
  | waitWheel l ls =>
      obtain ⟨rfl, -⟩ := Prod.mk.inj (Option.some.inj h)
      exact List.mem_cons_self
  | waitClose => cases h
  | idle | quit | join | wheels | done => cases h

theorem eq_waitClose {a : StopAt n} {l : LoopId n} (h : a.awaits = some (l, .closeAll)) :
    a = .waitClose := by
  cases a <;> first | rfl | cases h

end StopAt

namespace ServerThreads

variable {n : Nat} {cfg : StopConfig n} {q q' : ServerThreads n} {l : LoopId n} {t : StopTask n}

/-! ## What a step does -/

/-- The outcome of each step, with what it found. -/
inductive StopEffect (cfg : StopConfig n) (q : ServerThreads n) :
    StopAct n → ServerThreads n → Prop
  | closeHere : q.stopper = .idle → cfg.onLoop = true →
      StopEffect cfg q .stop { q.closeAll with stopper := .waitClose, promise := false }
  | closeThere : q.stopper = .idle → cfg.onLoop ≠ true →
      StopEffect cfg q .stop
        { q.stopQueues none .closeAll with stopper := .waitClose, promise := false }
  | closed : q.stopper = .waitClose → q.promise = true →
      StopEffect cfg q .stop
        { q with stopper := if cfg.owned then .quit (List.finRange n) else .wheels cfg.wheels }
  | tell {i : Fin n} {is : List (Fin n)} : q.stopper = .quit (i :: is) →
      StopEffect cfg q .stop
        { q with quit := Function.update q.quit i true, stopper := .join i is }
  | joined {i : Fin n} {is : List (Fin n)} : q.stopper = .join i is → q.loop i = .exited →
      StopEffect cfg q .stop { q with stopper := .quit is }
  | allJoined : q.stopper = .quit [] →
      StopEffect cfg q .stop { q with stopper := .wheels cfg.wheels }
  | wheelHere {l : LoopId n} {ls : List (LoopId n)} : q.stopper = .wheels (l :: ls) →
      StopEffect cfg q .stop { q with stopper := .wheels ls }
  | wheelThere {l : LoopId n} {ls : List (LoopId n)} : q.stopper = .wheels (l :: ls) →
      (cfg.onLoop = true → l ≠ none) →
      StopEffect cfg q .stop
        { q.stopQueues l (.resetWheel l) with stopper := .waitWheel l ls, promise := false }
  | wheelReset {l : LoopId n} {ls : List (LoopId n)} : q.stopper = .waitWheel l ls →
      q.promise = true → StopEffect cfg q .stop { q with stopper := .wheels ls }
  | done : q.stopper = .wheels [] → StopEffect cfg q .stop { q with stopper := .done }
  | sweep {c : ConnId} {cs : List ConnId} : q.sweeping = some (c :: cs) →
      StopEffect cfg q .server ({ q with sweeping := some cs }.forceClose cfg c)
  | swept : q.sweeping = some [] →
      StopEffect cfg q .server { q with sweeping := none, promise := true }
  | serverTask {t : StopTask n} {rest : List (StopTask n)} : q.queue none = t :: rest →
      StopEffect cfg q .server ((q.pop none rest).runTask cfg t)
  | loopGoes {i : Fin n} {pc : PoolLoopPc} : q.loop i ≠ .exited →
      (pc = .exited → q.quit i = true) → StopEffect cfg q (.loop i) (q.setLoop i pc)
  | loopTask {i : Fin n} {t : StopTask n} {rest : List (StopTask n)} :
      q.queue (some i) = t :: rest →
      StopEffect cfg q (.loop i) ((q.pop (some i) rest).runTask cfg t)
  | accept {c : ConnId} :
      StopEffect cfg q (.accept c)
        ({ q with
          connSet := c :: q.connSet
          isOpen := Function.update q.isOpen c true }.queueInLoop (cfg.ioLoop c) .other)
  | peerClose {c : ConnId} : StopEffect cfg q (.peerClose c) (q.handleClose cfg c)
  | post {l : LoopId n} : StopEffect cfg q (.post l) (q.queueInLoop l .other)

theorem stopEffect_of_execStop (h : q.execStop cfg = some q') : StopEffect cfg q .stop q' := by
  unfold execStop at h
  split at h
  next hstop =>
    split at h
    next hon =>
      split at h
      · exact Option.some.inj h ▸ .closeHere hstop hon
      · cases h
    next hon => exact Option.some.inj h ▸ .closeThere hstop hon
  next hstop =>
    split at h
    next hp => exact Option.some.inj h ▸ .closed hstop hp
    · cases h
  next hstop => exact Option.some.inj h ▸ .allJoined hstop
  next hstop => exact Option.some.inj h ▸ .tell hstop
  next hstop =>
    split at h
    next hexit => exact Option.some.inj h ▸ .joined hstop hexit
    · cases h
  next hstop => exact Option.some.inj h ▸ .done hstop
  next l ls hstop =>
    split at h
    · exact Option.some.inj h ▸ .wheelHere hstop
    next hdirect =>
      refine Option.some.inj h ▸ .wheelThere hstop fun hon hl => hdirect ?_
      rw [hon, hl]
      rfl
  next hstop =>
    split at h
    next hp => exact Option.some.inj h ▸ .wheelReset hstop hp
    · cases h
  · cases h

theorem exists_front (h : q.runFront cfg l = some q') :
    ∃ t rest, q.queue l = t :: rest ∧ q' = (q.pop l rest).runTask cfg t := by
  unfold runFront at h
  split at h
  · cases h
  next t rest hq => exact ⟨t, rest, hq, (Option.some.inj h).symm⟩

theorem stopEffect_of_execServer (h : q.execServer cfg = some q') :
    StopEffect cfg q .server q' := by
  unfold execServer at h
  split at h
  next hsweep => exact Option.some.inj h ▸ .sweep hsweep
  next hsweep => exact Option.some.inj h ▸ .swept hsweep
  · split at h
    · obtain ⟨t, rest, hq, rfl⟩ := exists_front h
      exact .serverTask hq
    · cases h

theorem stopEffect_of_execLoop {i : Fin n} (h : q.execLoop cfg i = some q') :
    StopEffect cfg q (.loop i) q' := by
  unfold execLoop at h
  split at h
  next hpc =>
    refine Option.some.inj h ▸ .loopGoes (fun heq => nomatch hpc.symm.trans heq) fun hexit => ?_
    split at hexit
    · assumption
    · cases hexit
  next hpc =>
    exact Option.some.inj h ▸
      .loopGoes (fun heq => nomatch hpc.symm.trans heq) fun hexit => nomatch hexit
  next hpc =>
    split at h
    · exact Option.some.inj h ▸
        .loopGoes (fun heq => nomatch hpc.symm.trans heq) fun hexit => nomatch hexit
    · obtain ⟨t, rest, hq, rfl⟩ := exists_front h
      exact .loopTask hq
  · cases h

theorem stopEffect_of_step {a : StopAct n} (h : StopStep cfg q a q') : StopEffect cfg q a q' := by
  cases a with
  | stop => exact stopEffect_of_execStop h
  | server => exact stopEffect_of_execServer h
  | loop i => exact stopEffect_of_execLoop h
  | accept c =>
      simp only [StopStep, exec, Option.ite_none_right_eq_some, Option.some.injEq] at h
      exact h.2 ▸ .accept
  | peerClose c =>
      simp only [StopStep, exec, Option.ite_none_right_eq_some, Option.some.injEq] at h
      exact h.2 ▸ .peerClose
  | post l =>
      simp only [StopStep, exec, Option.ite_none_right_eq_some, Option.some.injEq] at h
      exact h.2 ▸ .post

/-! ## The queues -/

theorem queue_pop_self {rest : List (StopTask n)} : (q.pop l rest).queue l = rest :=
  Function.update_self ..

theorem queue_pop_of_ne {rest : List (StopTask n)} {l' : LoopId n} (h : l' ≠ l) :
    (q.pop l rest).queue l' = q.queue l' :=
  Function.update_of_ne h ..

theorem queue_queueInLoop_self : (q.queueInLoop l t).queue l = q.queue l ++ [t] :=
  Function.update_self ..

theorem queue_queueInLoop_of_ne {l' : LoopId n} (h : l' ≠ l) :
    (q.queueInLoop l t).queue l' = q.queue l' :=
  Function.update_of_ne h ..

/-! ## Functors that pass by -/

/-- Functors that nobody waits for are queued, and nothing else that `stop()`
sees changes. -/
structure Grows (q q' : ServerThreads n) : Prop where
  loop : q'.loop = q.loop
  quit : q'.quit = q.quit
  sweeping : q'.sweeping = q.sweeping
  stopper : q'.stopper = q.stopper
  promise : q'.promise = q.promise
  dangled : q'.dangled = q.dangled
  queue : ∀ l, ∃ more, q'.queue l = q.queue l ++ more ∧ ∀ t ∈ more, t.isPromise = false

namespace Grows

theorem refl (q : ServerThreads n) : Grows q q :=
  ⟨rfl, rfl, rfl, rfl, rfl, rfl, fun _ => ⟨[], (List.append_nil _).symm, fun _ h => nomatch h⟩⟩

theorem queueInLoop (h : Grows q q') (l : LoopId n) (ht : t.isPromise = false) :
    Grows q (q'.queueInLoop l t) where
  loop := h.loop
  quit := h.quit
  sweeping := h.sweeping
  stopper := h.stopper
  promise := h.promise
  dangled := h.dangled
  queue l' := by
    obtain ⟨more, hmore, hother⟩ := h.queue l'
    by_cases hl : l' = l
    · subst hl
      refine ⟨more ++ [t], ?_, fun u hu => ?_⟩
      · rw [queue_queueInLoop_self, hmore, List.append_assoc]
      · rcases List.mem_append.mp hu with hu | hu
        · exact hother u hu
        · exact List.mem_singleton.mp hu ▸ ht
    · exact ⟨more, by rw [queue_queueInLoop_of_ne hl, hmore], hother⟩

theorem handleCloseInLoop (h : Grows q q') (c : ConnId) :
    Grows q (q'.handleCloseInLoop cfg c) := by
  have herase : Grows q { q' with connSet := q'.connSet.erase c } := { h with }
  exact herase.queueInLoop _ rfl

theorem handleClose (h : Grows q q') (c : ConnId) : Grows q (q'.handleClose cfg c) := by
  unfold ServerThreads.handleClose
  split
  · have hclosed : Grows q { q' with isOpen := Function.update q'.isOpen c false } := { h with }
    dsimp only
    split
    · exact hclosed.handleCloseInLoop c
    · exact hclosed.queueInLoop _ rfl
  · exact h

theorem runTask (h : Grows q q') (ht : t.isPromise = false) : Grows q (q'.runTask cfg t) := by
  cases t with
  | closeAll | resetWheel => cases ht
  | forceClose c => exact h.handleClose c
  | handleCloseInLoop c => exact h.handleCloseInLoop c
  | connectDestroyed c | other => exact h

theorem filter_queue (h : Grows q q') (l : LoopId n) :
    (q'.queue l).filter StopTask.isPromise = (q.queue l).filter StopTask.isPromise := by
  obtain ⟨more, hmore, hother⟩ := h.queue l
  have hnone : more.filter StopTask.isPromise = [] :=
    List.filter_eq_nil_iff.mpr fun t ht => by rw [hother t ht]; exact Bool.false_ne_true
  rw [hmore, List.filter_append, hnone, List.append_nil]

end Grows

/-! ## What `stop()` waits for -/

/-- The functors in the queue of a loop that `stop()` waits for: none, or the
one whose promise is not fulfilled and that does not run yet. -/
def owed (q : ServerThreads n) (l : LoopId n) : List (StopTask n) :=
  match q.stopper.awaits with
  | some (l', t) => if l' = l ∧ q.promise = false ∧ q.sweeping = none then [t] else []
  | none => []

theorem owed_of_awaits_none (h : q.stopper.awaits = none) : q.owed l = [] := by
  rw [owed, h]

theorem owed_of_promise (h : q.promise = true) : q.owed l = [] := by
  unfold owed
  split
  · exact if_neg fun hand => Bool.false_ne_true (hand.2.1.symm.trans h)
  · rfl

theorem owed_of_sweeping (h : q.sweeping ≠ none) : q.owed l = [] := by
  unfold owed
  split
  · exact if_neg fun hand => h hand.2.2
  · rfl

theorem owed_eq_cons {us : List (StopTask n)} (h : q.owed l = t :: us) :
    q.stopper.awaits = some (l, t) ∧ q.promise = false ∧ q.sweeping = none ∧ us = [] := by
  unfold owed at h
  split at h
  next l' t' hawaits =>
    split at h
    next hand =>
      obtain ⟨rfl, rfl⟩ := List.cons.inj h
      exact ⟨hand.1 ▸ hawaits, hand.2.1, hand.2.2, rfl⟩
    next => cases h
  next => cases h

theorem owed_of_awaits (h : q.stopper.awaits = some (l, t)) (hp : q.promise = false)
    (hs : q.sweeping = none) : q.owed l = [t] := by
  rw [owed, h]
  exact if_pos ⟨rfl, hp, hs⟩

theorem owed_of_ne {l' : LoopId n} (h : q.stopper.awaits = some (l', t)) (hl : l ≠ l') :
    q.owed l = [] := by
  rw [owed, h]
  exact if_neg fun hand => hl hand.1.symm

/-- `stop()` may stand where it does: the threads of the pool are told to quit
only when a pool that nobody else holds is let go of, they have ended when
they are joined, and the wheels that are left are some of the wheels. -/
structure Fits (cfg : StopConfig n) (loop : Fin n → PoolLoopPc) (quit : Fin n → Bool)
    (a : StopAt n) : Prop where
  told : ∀ i, quit i = true → cfg.owned = true ∧ a.afterClose = true
  ending : a.endsPool = true → cfg.owned = true
  joined : cfg.owned = true → ∀ i, a.joined i = true → loop i = .exited
  wheels : ∀ l ∈ a.left, l ∈ cfg.wheels

namespace Fits

variable {loop : Fin n → PoolLoopPc} {quit : Fin n → Bool} {i : Fin n} {is : List (Fin n)}
  {ls : List (LoopId n)}

theorem quit_ne {a : StopAt n} (h : Fits cfg loop quit a) (ha : a.afterClose = false) (i : Fin n) :
    quit i ≠ true :=
  fun hi => Bool.false_ne_true (ha.symm.trans (h.told i hi).2)

theorem waitClose (h : Fits cfg loop quit .idle) : Fits cfg loop quit .waitClose where
  told i hi := absurd hi (h.quit_ne rfl i)
  ending ha := nomatch ha
  joined _ _ hj := nomatch hj
  wheels _ hl := nomatch hl

theorem closed (h : Fits cfg loop quit .waitClose) :
    Fits cfg loop quit (if cfg.owned then .quit (List.finRange n) else .wheels cfg.wheels) := by
  have hquit := h.quit_ne rfl
  split
  next howned =>
    refine ⟨fun i hi => absurd hi (hquit i), fun _ => howned, fun _ i hi => ?_,
      (fun _ hl => nomatch hl)⟩
    exact absurd (List.mem_finRange i) (of_decide_eq_true hi)
  next hshared =>
    exact ⟨fun i hi => absurd hi (hquit i), (fun ha => nomatch ha),
      fun howned => absurd howned hshared, fun _ hl => hl⟩

theorem allJoined (h : Fits cfg loop quit (.quit [])) :
    Fits cfg loop quit (.wheels cfg.wheels) where
  told i hi := ⟨(h.told i hi).1, rfl⟩
  ending ha := nomatch ha
  joined howned i _ := h.joined howned i rfl
  wheels _ hl := hl

theorem join (h : Fits cfg loop quit (.join i is)) (hexit : loop i = .exited) :
    Fits cfg loop quit (.quit is) where
  told := h.told
  ending := h.ending
  joined howned j hj := by
    by_cases hji : j = i
    · rw [hji, hexit]
    · refine h.joined howned j (decide_eq_true ?_)
      rw [List.mem_cons, not_or]
      exact ⟨hji, of_decide_eq_true hj⟩
  wheels := h.wheels

theorem waitWheel (h : Fits cfg loop quit (.wheels (l :: ls))) :
    Fits cfg loop quit (.waitWheel l ls) :=
  ⟨h.told, (fun ha => nomatch ha), h.joined, h.wheels⟩

theorem nextWheel (h : Fits cfg loop quit (.waitWheel l ls)) : Fits cfg loop quit (.wheels ls) :=
  ⟨h.told, (fun ha => nomatch ha), h.joined, fun l' hl' => h.wheels l' (List.mem_cons_of_mem l hl')⟩

theorem done (h : Fits cfg loop quit (.wheels [])) : Fits cfg loop quit .done :=
  ⟨h.told, (fun ha => nomatch ha), h.joined, h.wheels⟩

end Fits

/-- The promise that `stop()` waits for is always that of one functor, which
is in the queue of its loop or runs. -/
structure Inv (cfg : StopConfig n) (q : ServerThreads n) : Prop where
  owed : ∀ l, (q.queue l).filter StopTask.isPromise = q.owed l
  sweeping : q.sweeping ≠ none → q.stopper = .waitClose ∧ q.promise = false
  direct : cfg.onLoop = true → q.owed none = []
  exited : ∀ i, q.loop i = .exited → q.quit i = true
  fits : Fits cfg q.loop q.quit q.stopper

namespace Inv

theorem new : Inv cfg (ServerThreads.new : ServerThreads n) where
  owed _ := rfl
  sweeping h := absurd rfl h
  direct _ := rfl
  exited _ h := nomatch h
  fits := ⟨(fun _ h => nomatch h), (fun h => nomatch h), (fun _ _ h => nomatch h),
    (fun _ h => nomatch h)⟩

theorem congr (h : Inv cfg q) (hloop : q'.loop = q.loop) (hquit : q'.quit = q.quit)
    (hsweep : q'.sweeping = q.sweeping) (hstop : q'.stopper = q.stopper)
    (hpromise : q'.promise = q.promise)
    (hqueue : ∀ l, (q'.queue l).filter StopTask.isPromise =
      (q.queue l).filter StopTask.isPromise) : Inv cfg q' := by
  have howed : ∀ l, q'.owed l = q.owed l := by
    intro l
    rw [ServerThreads.owed, ServerThreads.owed, hstop, hpromise, hsweep]
  refine ⟨fun l => ?_, ?_, ?_, ?_, ?_⟩
  · rw [hqueue, howed, h.owed]
  · rw [hsweep, hstop, hpromise]
    exact h.sweeping
  · rw [howed]
    exact h.direct
  · rw [hloop, hquit]
    exact h.exited
  · rw [hloop, hquit, hstop]
    exact h.fits

theorem grows (h : Inv cfg q) (hg : Grows q q') : Inv cfg q' :=
  h.congr hg.loop hg.quit hg.sweeping hg.stopper hg.promise hg.filter_queue

theorem pop {rest : List (StopTask n)} (h : Inv cfg q) (hq : q.queue l = t :: rest)
    (ht : t.isPromise = false) : Inv cfg (q.pop l rest) := by
  refine h.congr rfl rfl rfl rfl rfl fun l' => ?_
  by_cases hl : l' = l
  · subst hl
    rw [queue_pop_self, hq, List.filter_cons_of_neg]
    rw [ht]
    exact Bool.false_ne_true
  · rw [queue_pop_of_ne hl]

theorem front {rest : List (StopTask n)} (h : Inv cfg q) (hq : q.queue l = t :: rest)
    (ht : t.isPromise = true) :
    q.stopper.awaits = some (l, t) ∧ q.promise = false ∧ q.sweeping = none ∧
      ∀ l', ((q.pop l rest).queue l').filter StopTask.isPromise = [] := by
  have howed := h.owed l
  rw [hq, List.filter_cons_of_pos ht] at howed
  obtain ⟨hawaits, hp, hs, hrest⟩ := owed_eq_cons howed.symm
  refine ⟨hawaits, hp, hs, fun l' => ?_⟩
  by_cases hl : l' = l
  · subst hl
    rw [queue_pop_self, hrest]
  · rw [queue_pop_of_ne hl, h.owed, owed_of_ne hawaits hl]

theorem settle (h : Inv cfg q) (hloop : q'.loop = q.loop) (hquit : q'.quit = q.quit)
    (hfits : Fits cfg q.loop q.quit q'.stopper)
    (hsweep : q'.sweeping ≠ none → q'.stopper = .waitClose ∧ q'.promise = false)
    (howed : ∀ l, q'.owed l = [])
    (hqueue : ∀ l, (q'.queue l).filter StopTask.isPromise = []) : Inv cfg q' := by
  refine ⟨fun l => ?_, hsweep, fun _ => howed none, ?_, ?_⟩
  · rw [hqueue, howed]
  · rw [hloop, hquit]
    exact h.exited
  · rw [hloop, hquit]
    exact hfits

theorem runFront {rest : List (StopTask n)} (h : Inv cfg q) (hq : q.queue l = t :: rest) :
    Inv cfg ((q.pop l rest).runTask cfg t) := by
  cases ht : t.isPromise with
  | false => exact (h.pop hq ht).grows ((Grows.refl _).runTask ht)
  | true =>
      obtain ⟨hawaits, hp, hsweep, hnone⟩ := h.front hq ht
      cases t with
      | closeAll =>
          refine h.settle rfl rfl h.fits (fun _ => ⟨?_, hp⟩)
            (fun l' => owed_of_sweeping (fun heq => nomatch heq)) hnone
          exact StopAt.eq_waitClose hawaits
      | resetWheel l' =>
          exact h.settle rfl rfl h.fits (absurd hsweep) (fun l' => owed_of_promise rfl) hnone
      | forceClose | handleCloseInLoop | connectDestroyed | other => cases ht

/-- Where a connection is closed in the sweep, it passes functors by, or
`stop()` queues one. -/
theorem forceClose (h : Inv cfg q) (c : ConnId) : Inv cfg (q.forceClose cfg c) := by
  unfold ServerThreads.forceClose
  split
  · exact h.grows ((Grows.refl q).handleClose c)
  next i _ =>
    have hg := (Grows.refl q).queueInLoop (some i) (t := .forceClose c) rfl
    exact h.congr hg.loop hg.quit hg.sweeping hg.stopper hg.promise hg.filter_queue

theorem sweep {c : ConnId} {cs : List ConnId} (h : Inv cfg q)
    (hsweep : q.sweeping = some (c :: cs)) :
    Inv cfg ({ q with sweeping := some cs }.forceClose cfg c) := by
  have hne : q.sweeping ≠ none := by
    rw [hsweep]
    exact fun heq => nomatch heq
  have hrest : Inv cfg { q with sweeping := some cs } :=
    h.settle rfl rfl h.fits (fun _ => h.sweeping hne)
      (fun l => owed_of_sweeping (fun heq => nomatch heq))
      fun l => (h.owed l).trans (owed_of_sweeping hne)
  exact hrest.forceClose c

theorem swept (h : Inv cfg q) (hsweep : q.sweeping = some []) :
    Inv cfg { q with sweeping := none, promise := true } := by
  have hne : q.sweeping ≠ none := by
    rw [hsweep]
    exact fun heq => nomatch heq
  exact h.settle rfl rfl h.fits (absurd rfl) (fun l => owed_of_promise rfl)
    fun l => (h.owed l).trans (owed_of_sweeping hne)

theorem setLoop {i : Fin n} {pc : PoolLoopPc} (h : Inv cfg q) (hi : q.loop i ≠ .exited)
    (hpc : pc = .exited → q.quit i = true) : Inv cfg (q.setLoop i pc) := by
  refine ⟨h.owed, h.sweeping, h.direct, fun j hj => ?_, h.fits.told, h.fits.ending,
    fun howned j hj => ?_, h.fits.wheels⟩
  · change Function.update q.loop i pc j = .exited at hj
    by_cases hji : j = i
    · subst hji
      rw [Function.update_self] at hj
      exact hpc hj
    · rw [Function.update_of_ne hji] at hj
      exact h.exited j hj
  · change Function.update q.loop i pc j = .exited
    have hexit := h.fits.joined howned j hj
    have hji : j ≠ i := fun heq => hi (heq ▸ hexit)
    rw [Function.update_of_ne hji, hexit]

theorem move {a : StopAt n} (h : Inv cfg q) (hfits : Fits cfg q.loop q.quit a)
    (hnone : ∀ l, q.owed l = []) (hsweep : q.sweeping = none) (ha : a.awaits = none) :
    Inv cfg { q with stopper := a } :=
  h.settle rfl rfl hfits (absurd hsweep) (fun _ => owed_of_awaits_none ha)
    fun l => (h.owed l).trans (hnone l)

theorem send {a : StopAt n} (h : Inv cfg q) (hfits : Fits cfg q.loop q.quit a)
    (hnone : ∀ l, q.owed l = []) (hsweep : q.sweeping = none) (ha : a.awaits = some (l, t))
    (ht : t.isPromise = true) (hdirect : cfg.onLoop = true → l ≠ none) :
    Inv cfg { q.stopQueues l t with stopper := a, promise := false } := by
  let r : ServerThreads n := { q.stopQueues l t with stopper := a, promise := false }
  have hawaits : r.stopper.awaits = some (l, t) := ha
  refine ⟨fun l' => ?_, absurd hsweep, fun hon => ?_, h.exited, hfits⟩
  · change ((q.queueInLoop l t).queue l').filter StopTask.isPromise = r.owed l'
    by_cases hl : l' = l
    · subst hl
      rw [queue_queueInLoop_self, List.filter_append, h.owed, hnone, List.filter_cons_of_pos ht,
        owed_of_awaits hawaits rfl hsweep]
      rfl
    · rw [queue_queueInLoop_of_ne hl, h.owed, hnone, owed_of_ne hawaits hl]
  · exact owed_of_ne hawaits (Ne.symm (hdirect hon))

theorem tell {i : Fin n} {is : List (Fin n)} (h : Inv cfg q) (hstop : q.stopper = .quit (i :: is))
    (hsweep : q.sweeping = none) :
    Inv cfg { q with quit := Function.update q.quit i true, stopper := .join i is } := by
  have hfits := h.fits
  rw [hstop] at hfits
  have howned := hfits.ending rfl
  refine ⟨fun l => ?_, absurd hsweep, fun _ => rfl, fun j hj => ?_,
    ⟨fun _ _ => ⟨howned, rfl⟩, fun _ => howned, hfits.joined, hfits.wheels⟩⟩
  · rw [h.owed, owed_of_awaits_none (by rw [hstop]; rfl), owed_of_awaits_none rfl]
  · change Function.update q.quit i true j = true
    by_cases hji : j = i
    · rw [hji, Function.update_self]
    · rw [Function.update_of_ne hji]
      exact h.exited j hj

theorem not_sweeping (h : Inv cfg q) (hstop : q.stopper ≠ .waitClose ∨ q.promise = true) :
    q.sweeping = none := by
  by_contra hne
  obtain ⟨hwait, hp⟩ := h.sweeping hne
  rcases hstop with hstop | hstop
  · exact hstop hwait
  · exact Bool.false_ne_true (hp.symm.trans hstop)

/-- Where `stop()` waits for no promise, nothing is owed and nothing swept. -/
theorem nothing_owed (h : Inv cfg q) (hstop : q.stopper.awaits = none) :
    (∀ l, q.owed l = []) ∧ q.sweeping = none := by
  refine ⟨fun l => owed_of_awaits_none hstop, h.not_sweeping (Or.inl ?_)⟩
  intro hwait
  rw [hwait] at hstop
  cases hstop

theorem step {a : StopAct n} (h : Inv cfg q) (hs : StopStep cfg q a q') : Inv cfg q' := by
  have hfits := h.fits
  have hfree := h.nothing_owed
  cases stopEffect_of_step hs with
  | closeHere hstop hon =>
      rw [hstop] at hfits hfree
      obtain ⟨hnone, -⟩ := hfree rfl
      exact h.settle rfl rfl hfits.waitClose (fun _ => ⟨rfl, rfl⟩)
        (fun l => owed_of_sweeping (fun heq => nomatch heq)) fun l => (h.owed l).trans (hnone l)
  | closeThere hstop hon =>
      rw [hstop] at hfits hfree
      obtain ⟨hnone, hsweep⟩ := hfree rfl
      exact h.send hfits.waitClose hnone hsweep rfl rfl fun hon' => absurd hon' hon
  | closed hstop hp =>
      rw [hstop] at hfits
      refine h.move hfits.closed (fun l => owed_of_promise hp) (h.not_sweeping (Or.inr hp)) ?_
      split <;> rfl
  | tell hstop =>
      rw [hstop] at hfree
      exact h.tell hstop (hfree rfl).2
  | joined hstop hexit =>
      rw [hstop] at hfits hfree
      obtain ⟨hnone, hsweep⟩ := hfree rfl
      exact h.move (hfits.join hexit) hnone hsweep rfl
  | allJoined hstop =>
      rw [hstop] at hfits hfree
      obtain ⟨hnone, hsweep⟩ := hfree rfl
      exact h.move hfits.allJoined hnone hsweep rfl
  | wheelHere hstop =>
      rw [hstop] at hfits hfree
      obtain ⟨hnone, hsweep⟩ := hfree rfl
      exact h.move hfits.waitWheel.nextWheel hnone hsweep rfl
  | wheelThere hstop hdirect =>
      rw [hstop] at hfits hfree
      obtain ⟨hnone, hsweep⟩ := hfree rfl
      exact h.send hfits.waitWheel hnone hsweep rfl rfl hdirect
  | wheelReset hstop hp =>
      rw [hstop] at hfits
      exact h.move hfits.nextWheel (fun l => owed_of_promise hp) (h.not_sweeping (Or.inr hp)) rfl
  | done hstop =>
      rw [hstop] at hfits hfree
      obtain ⟨hnone, hsweep⟩ := hfree rfl
      exact h.move hfits.done hnone hsweep rfl
  | sweep hsweep => exact h.sweep hsweep
  | swept hsweep => exact h.swept hsweep
  | serverTask hq => exact h.runFront hq
  | loopGoes hi hpc => exact h.setLoop hi hpc
  | loopTask hq => exact h.runFront hq
  | @accept c =>
      have hnew : Grows q { q with
          connSet := c :: q.connSet
          isOpen := Function.update q.isOpen c true } := { Grows.refl q with }
      exact h.grows (hnew.queueInLoop _ rfl)
  | @peerClose c => exact h.grows ((Grows.refl q).handleClose c)
  | post => exact h.grows ((Grows.refl q).queueInLoop _ rfl)

end Inv

end ServerThreads

end Netpoll
