import Mathlib.Logic.Function.Basic
import Netpoll.MessageBuffer
import Netpoll.Runs

/-!
# Sends from many threads

The way from a call of `send`, `sendFile`, `sendStream` or `shutdown` in
any thread to the loop thread, from `net/inner/tcp_connection_impl.{h,cc}`
and `EventLoop::queueInLoop`, `runInLoop` and `doRunInLoopFuncs`.

A thread other than the loop's bumps `m_sendNum` and enqueues a task. The
loop thread hands its data over directly if it reads 0, and otherwise does
the same as the others, so that it does not overtake what is queued. The
loop runs the tasks in order and drops `m_sendNum` after each. Every access
to `m_sendNum`, every enqueue and every task is a step of its own, and
`exec` answers `none` where a thread would have to wait.

The trace records when a call starts and returns, when `m_sendNum` goes up
and down on behalf of a call, and when a call is handled on the loop
thread: a payload reaches `sendInLoop` (or the write list), a `shutdown()`
reaches its body. `took` says that it had an effect: the payload was not
dropped, the status did leave `Connected`.
-/

namespace Netpoll

/-- The ways to hand over data: the four overloads of `send`, `sendFile`
and `sendStream`. -/
inductive Overload where
  | stringView | sharedPtr | constBuffer | movedBuffer | file | stream
deriving Repr, DecidableEq

/-- These hold `m_sendNumMutex` from start to end; the others take it for
each access to `m_sendNum`. -/
def Overload.locks : Overload → Bool
  | .sharedPtr | .constBuffer => true
  | _ => false

/-- A message goes through `sendInLoop`, which drops it unless the status
is `Connected`; files and streams go to the write list in any case. -/
def Overload.isMessage : Overload → Bool
  | .file | .stream => false
  | _ => true

inductive Op where
  | send (o : Overload)
  | shutdown
deriving Repr, DecidableEq

/-- One call. -/
structure Job (T : Type) where
  id : Nat
  thread : T
  op : Op
deriving Repr, DecidableEq

/-- How far a call has come. In `delivered` user callbacks may run, out of
`sendInLoop`; in `done` it only has to return. -/
inductive Stage where
  | start | locked | plus | enqueue | direct | delivered | done
deriving Repr, DecidableEq

inductive Mark (T : Type) where
  | call (j : Job T)
  | ret (j : Job T)
  | inc (j : Job T)
  | fin (j : Job T)
  | handle (j : Job T) (took : Bool)
deriving Repr, DecidableEq

/-- What the threads share, and where each of them is. `task` is the task
that the loop runs, and whether its payload has been handled. -/
structure Threads (T : Type) where
  connected : Bool
  sendNum : Nat
  mutex : Option (Job T)
  queue : List (Job T)
  task : Option (Job T × Bool)
  calls : T → List (Job T × Stage)
  next : Nat
  trace : List (Mark T)

namespace Threads

variable {T : Type} [DecidableEq T]

/-- A connected connection that nobody has used yet. -/
def new : Threads T :=
  { connected := true, sendNum := 0, mutex := none, queue := [], task := none, calls := fun _ => [],
    next := 0, trace := [] }

def log (s : Threads T) (m : Mark T) : Threads T := { s with trace := s.trace ++ [m] }

def setCalls (s : Threads T) (t : T) (cs : List (Job T × Stage)) : Threads T :=
  { s with calls := Function.update s.calls t cs }

/-- `++m_sendNum`; there is no memory for 2^64 tasks. -/
def plusSendNum (s : Threads T) (j : Job T) : Threads T :=
  { s with sendNum := s.sendNum + 1 }.log (.inc j)

/-- `--m_sendNum`, which would wrap at 0. -/
def minusSendNum (s : Threads T) (j : Job T) : Threads T :=
  { s with sendNum := if s.sendNum = 0 then sizeMod - 1 else s.sendNum - 1 }.log (.fin j)

def queueInLoop (s : Threads T) (j : Job T) : Threads T := { s with queue := s.queue ++ [j] }

/-- On the loop thread: hand over the data, or run the body of
`shutdown`. -/
def handle (s : Threads T) (j : Job T) : Threads T :=
  match j.op with
  | .send o => s.log (.handle j (s.connected || !o.isMessage))
  | .shutdown => { s with connected := false }.log (.handle j s.connected)

/-- The end of a call, with that of its `lock_guard`. -/
def ret (s : Threads T) (j : Job T) (o : Overload) : Threads T :=
  { s with mutex := if o.locks then none else s.mutex }.log (.ret j)

/-- The call `j` of a send in thread `t` goes on. -/
def stepSend (loop : T) (s : Threads T) (t : T) (j : Job T) (o : Overload)
    (rest : List (Job T × Stage)) : Stage → Option (Threads T)
  | .start =>
      if s.mutex.isSome then none
      else if o.locks then some ({ s with mutex := some j }.setCalls t ((j, .locked) :: rest))
      else if t = loop then
        some (s.setCalls t ((j, if s.sendNum = 0 then .direct else .plus) :: rest))
      else some ((s.plusSendNum j).setCalls t ((j, .enqueue) :: rest))
  | .locked =>
      if t = loop ∧ s.sendNum = 0 then some (s.setCalls t ((j, .direct) :: rest))
      else some ((s.plusSendNum j).setCalls t ((j, .enqueue) :: rest))
  | .plus =>
      if s.mutex.isSome then none
      else some ((s.plusSendNum j).setCalls t ((j, .enqueue) :: rest))
  | .enqueue => some ((s.queueInLoop j).setCalls t ((j, .done) :: rest))
  | .direct => some ((s.handle j).setCalls t ((j, .delivered) :: rest))
  | .delivered | .done => some ((s.ret j o).setCalls t rest)

/-- `shutdown()` is `runInLoop`: at once on the loop thread, whatever is
queued. -/
def stepShutdown (loop : T) (s : Threads T) (t : T) (j : Job T) (rest : List (Job T × Stage)) :
    Stage → Option (Threads T)
  | .start =>
      if t = loop then some ((s.handle j).setCalls t ((j, .done) :: rest))
      else some ((s.queueInLoop j).setCalls t ((j, .done) :: rest))
  | .done => some ((s.log (.ret j)).setCalls t rest)
  | _ => none

/-- The innermost call of thread `t` goes on. -/
def stepCall (loop : T) (s : Threads T) (t : T) : Option (Threads T) :=
  match s.calls t with
  | [] => none
  | (j, stage) :: rest =>
    match j.op with
    | .send o => stepSend loop s t j o rest stage
    | .shutdown => stepShutdown loop s t j rest stage

/-- User code runs in thread `t`: in the loop thread between tasks, or in a
callback out of `sendInLoop`. -/
def MayCall (loop : T) (s : Threads T) (t : T) : Prop :=
  match s.calls t with
  | [] => t = loop → ∀ j, s.task ≠ some (j, false)
  | (_, stage) :: _ => stage = .delivered

instance (loop : T) (s : Threads T) (t : T) : Decidable (MayCall loop s t) :=
  match h : s.calls t, h' : s.task with
  | [], none => isTrue (by unfold MayCall; rw [h]; simp [h'])
  | [], some (j, ran) =>
      decidable_of_iff (t = loop → ran = true) (by unfold MayCall; rw [h]; simp [h'])
  | (_, stage) :: _, _ => decidable_of_iff (stage = .delivered) (by unfold MayCall; rw [h])

def startCall (loop : T) (s : Threads T) (t : T) (op : Op) : Option (Threads T) :=
  if MayCall loop s t then
    let j : Job T := ⟨s.next, t, op⟩
    some (({ s with next := s.next + 1 }.log (.call j)).setCalls t ((j, .start) :: s.calls t))
  else none

/-- `m_funcs.dequeue(func)`. -/
def dequeue (loop : T) (s : Threads T) : Option (Threads T) :=
  match s.task, s.calls loop, s.queue with
  | none, [], j :: q => some { s with task := some (j, false), queue := q }
  | _, _, _ => none

/-- The task goes on, once the calls out of it have returned. -/
def stepTask (loop : T) (s : Threads T) : Option (Threads T) :=
  match s.task, s.calls loop with
  | some (j, false), [] => some { s.handle j with task := some (j, true) }
  | some (j, true), [] =>
    match j.op with
    | .send _ => if s.mutex.isSome then none else some { s.minusSendNum j with task := none }
    | .shutdown => some { s with task := none }
  | _, _ => none

end Threads

inductive Turn (T : Type) where
  | startCall (t : T) (op : Op)
  | stepCall (t : T)
  | dequeue
  | stepTask
deriving Repr, DecidableEq

namespace Threads

variable {T : Type} [DecidableEq T]

def exec (loop : T) (s : Threads T) : Turn T → Option (Threads T)
  | .startCall t op => startCall loop s t op
  | .stepCall t => stepCall loop s t
  | .dequeue => dequeue loop s
  | .stepTask => stepTask loop s

end Threads

/-- One step of some thread. -/
def ThreadStep {T : Type} [DecidableEq T] (loop : T) (s : Threads T) (l : Turn T)
    (s' : Threads T) : Prop :=
  s.exec loop l = some s'

/-! ## What a step can do -/

def Job.isSend {T : Type} (j : Job T) : Bool := j.op ≠ .shutdown

/-- The call has not touched `m_sendNum` yet. -/
def Stage.early : Stage → Bool
  | .start | .locked | .plus => true
  | _ => false

/-- The call has been handled or enqueued. -/
def Stage.entered : Stage → Bool
  | .delivered | .done => true
  | _ => false

namespace Threads

variable {T : Type} [DecidableEq T]

/-- The steps, by what they do to the counter, the queue and the trace. -/
inductive Moves (loop : T) (s : Threads T) : Turn T → Threads T → Prop
  | call {t : T} (op : Op) : MayCall loop s t →
      Moves loop s (.startCall t op)
        (({ s with next := s.next + 1 }.log (.call ⟨s.next, t, op⟩)).setCalls t
          ((⟨s.next, t, op⟩, .start) :: s.calls t))
  | advance {t : T} {j : Job T} {st st' : Stage} {rest : List (Job T × Stage)}
      (m : Option (Job T)) : s.calls t = (j, st) :: rest → j.isSend = true → st.early = true →
      (st'.early = true ∧ st' ≠ .start ∨ st' = .direct ∧ t = loop ∧ s.sendNum = 0) →
      Moves loop s (.stepCall t) ({ s with mutex := m }.setCalls t ((j, st') :: rest))
  | inc {t : T} {j : Job T} {st : Stage} {rest : List (Job T × Stage)} :
      s.calls t = (j, st) :: rest → j.isSend = true → st.early = true →
      Moves loop s (.stepCall t) ((s.plusSendNum j).setCalls t ((j, .enqueue) :: rest))
  | enqueue {t : T} {j : Job T} {st : Stage} {rest : List (Job T × Stage)} :
      s.calls t = (j, st) :: rest →
      (j.isSend = true ∧ st = .enqueue ∨ j.op = .shutdown ∧ st = .start ∧ t ≠ loop) →
      Moves loop s (.stepCall t) ((s.queueInLoop j).setCalls t ((j, .done) :: rest))
  | handle {t : T} {j : Job T} {st st' : Stage} {rest : List (Job T × Stage)} :
      s.calls t = (j, st) :: rest →
      (j.isSend = true ∧ st = .direct ∧ st' = .delivered ∨
        j.op = .shutdown ∧ st = .start ∧ t = loop ∧ st' = .done) →
      Moves loop s (.stepCall t) ((s.handle j).setCalls t ((j, st') :: rest))
  | ret {t : T} {j : Job T} {st : Stage} {rest : List (Job T × Stage)} (m : Option (Job T)) :
      s.calls t = (j, st) :: rest → st.entered = true →
      Moves loop s (.stepCall t) (({ s with mutex := m }.log (.ret j)).setCalls t rest)
  | dequeue {j : Job T} {q : List (Job T)} : s.task = none → s.calls loop = [] →
      s.queue = j :: q → Moves loop s .dequeue { s with task := some (j, false), queue := q }
  | run {j : Job T} : s.task = some (j, false) → s.calls loop = [] →
      Moves loop s .stepTask { s.handle j with task := some (j, true) }
  | fin {j : Job T} : s.task = some (j, true) → s.calls loop = [] → j.isSend = true →
      Moves loop s .stepTask { s.minusSendNum j with task := none }
  | idle {j : Job T} : s.task = some (j, true) → s.calls loop = [] → j.op = .shutdown →
      Moves loop s .stepTask { s with task := none }

variable {loop : T} {s s' : Threads T}

theorem stepSend_moves {t : T} {j : Job T} {o : Overload} {st : Stage}
    {rest : List (Job T × Stage)} (hc : s.calls t = (j, st) :: rest) (hop : j.op = .send o)
    (hex : stepSend loop s t j o rest st = some s') : Moves loop s (.stepCall t) s' := by
  have hj : j.isSend = true := by simp [Job.isSend, hop]
  cases st with
  | start =>
      simp only [stepSend] at hex
      split at hex
      · cases hex
      · split at hex
        · cases hex
          exact .advance _ hc hj rfl (Or.inl ⟨rfl, by simp⟩)
        · split at hex
          · rename_i hloop
            cases hex
            refine .advance s.mutex hc hj rfl ?_
            by_cases h0 : s.sendNum = 0
            · rw [if_pos h0]
              exact Or.inr ⟨rfl, hloop, h0⟩
            · rw [if_neg h0]
              exact Or.inl ⟨rfl, by simp⟩
          · cases hex
            exact .inc hc hj rfl
  | locked =>
      simp only [stepSend] at hex
      split at hex
      · rename_i hloop
        cases hex
        exact .advance s.mutex hc hj rfl (Or.inr ⟨rfl, hloop⟩)
      · cases hex
        exact .inc hc hj rfl
  | plus =>
      simp only [stepSend] at hex
      split at hex
      · cases hex
      · cases hex
        exact .inc hc hj rfl
  | enqueue =>
      cases hex
      exact .enqueue hc (Or.inl ⟨hj, rfl⟩)
  | direct =>
      cases hex
      exact .handle hc (Or.inl ⟨hj, rfl, rfl⟩)
  | delivered =>
      cases hex
      exact .ret _ hc rfl
  | done =>
      cases hex
      exact .ret _ hc rfl

theorem stepShutdown_moves {t : T} {j : Job T} {st : Stage} {rest : List (Job T × Stage)}
    (hc : s.calls t = (j, st) :: rest) (hop : j.op = .shutdown)
    (hex : stepShutdown loop s t j rest st = some s') : Moves loop s (.stepCall t) s' := by
  cases st with
  | start =>
      simp only [stepShutdown] at hex
      split at hex
      · rename_i hloop
        cases hex
        exact .handle hc (Or.inr ⟨hop, rfl, hloop, rfl⟩)
      · rename_i hloop
        cases hex
        exact .enqueue hc (Or.inr ⟨hop, rfl, hloop⟩)
  | done =>
      cases hex
      exact .ret s.mutex hc rfl
  | _ => cases hex

theorem step_moves {l : Turn T} (h : ThreadStep loop s l s') : Moves loop s l s' := by
  unfold ThreadStep at h
  cases l with
  | startCall t op =>
      simp only [exec, startCall] at h
      split at h
      · rename_i hmay
        cases h
        exact .call op hmay
      · cases h
  | stepCall t =>
      simp only [exec, stepCall] at h
      split at h
      · cases h
      · rename_i j st rest hc
        split at h
        · rename_i o hop
          exact stepSend_moves hc hop h
        · rename_i hop
          exact stepShutdown_moves hc hop h
  | dequeue =>
      simp only [exec, Threads.dequeue] at h
      split at h
      · rename_i j q ht hc hq
        cases h
        exact .dequeue ht hc hq
      · cases h
  | stepTask =>
      simp only [exec, stepTask] at h
      split at h
      · rename_i j ht hc
        cases h
        exact .run ht hc
      · rename_i j ht hc
        split at h
        · rename_i o hop
          split at h
          · cases h
          · cases h
            exact .fin ht hc (by simp [Job.isSend, hop])
        · rename_i hop
          cases h
          exact .idle ht hc hop
      · cases h

end Threads

end Netpoll
