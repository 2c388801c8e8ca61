import Mathlib.Data.Fintype.Basic
import Netpoll.Mutex
import Netpoll.Runs

/-!
# The worker pool

`ConcurrentTaskQueue` (`util/concurrent_task_queue.cc`): `n` workers run
`queueFunc`, any threads call `runTask`, one thread calls `stop()`. The
steps are those between which the threads interleave: the lock, each test
of `m_stop` and of the queue, the atomic release-and-wait, the two
notifications, and the store of `m_stop`, for which `stop()` takes no lock.
A task that calls `runTask` while a worker runs it is one more of the
threads that call it.

The tasks are taken in the order in which they were pushed, each once
(`Orderly`): the queue is only touched under the lock.

A worker can miss the stop: it tests `m_stop` under the lock, `stop()`
stores the flag and notifies, and then the worker waits. That needs a
worker that is past its test when `notify_all` is issued and will find the
queue empty (`NotifiesClear`); no worker that tests later waits at all.
-/

namespace Netpoll

/-- Where a worker stands in `queueFunc`. -/
inductive WorkerPc (A : Type)
  /-- About to test `m_stop` in the outer `while`. -/
  | top
  /-- About to lock `m_mtx`. -/
  | lock
  /-- About to test `m_stop` in the inner `while`. -/
  | testStop
  /-- Having found it clear, about to test `m_que.empty()`. -/
  | testEmpty
  /-- About to wait. -/
  | wait
  /-- Blocked in the wait, with no notification pending. -/
  | waiting
  /-- Notified, about to lock `m_mtx` again. -/
  | notified
  /-- Out of the inner `while`, about to test the queue once more. -/
  | check
  /-- With a task, about to unlock. -/
  | took (task : A)
  /-- Without one, about to unlock. -/
  | skip
  | running (task : A)
  | done
  deriving DecidableEq

def WorkerPc.isWaiting {A : Type} : WorkerPc A → Bool
  | .waiting => true
  | _ => false

theorem WorkerPc.eq_waiting {A : Type} {pc : WorkerPc A} (h : pc.isWaiting = true) :
    pc = .waiting := by
  cases pc <;> first | rfl | cases h

/-- The worker is not in the wait, nor between the test of `m_stop` and it. -/
def WorkerPc.apart {A : Type} : WorkerPc A → Bool
  | .testEmpty | .wait | .waiting => false
  | _ => true

/-- The worker holds `m_mtx`. -/
def WorkerPc.holds {A : Type} : WorkerPc A → Bool
  | .testStop | .testEmpty | .wait | .check | .took _ | .skip => true
  | _ => false

/-- Where a thread stands in `runTask`. -/
inductive ProducerPc (A : Type)
  | idle
  /-- With the lock, about to push. -/
  | push (task : A)
  /-- About to notify. -/
  | notify
  /-- About to unlock. -/
  | unlock
  deriving DecidableEq

def ProducerPc.holds {A : Type} : ProducerPc A → Bool
  | .idle => false
  | _ => true

/-- Where the thread that calls `stop()` stands. -/
inductive StopPc
  | idle
  /-- Having found `m_stop` clear, about to store it. -/
  | store
  /-- About to notify. -/
  | notifyAll
  | join
  deriving DecidableEq

/-- The threads that use the lock. -/
abbrev PoolThread (n : Nat) (P : Type) := Fin n ⊕ P

structure ConcurrentTaskQueue (n : Nat) (P A : Type) where
  stop : Bool
  mtx : Option (PoolThread n P)
  que : List A
  worker : Fin n → WorkerPc A
  producer : P → ProducerPc A
  stopper : StopPc
  /-- History: the tasks that were pushed. -/
  pushed : List A
  /-- History: the tasks that were taken, and by whom. -/
  taken : List (Fin n × A)

inductive PoolAct (n : Nat) (P A : Type)
  /-- The next step of a worker that is not blocked. -/
  | worker (w : Fin n)
  /-- The wait of a worker ends without a notification. -/
  | spurious (w : Fin n)
  /-- The call of `runTask`, which locks `m_mtx`. -/
  | runTask (p : P) (task : A)
  | push (p : P)
  /-- `notify_one`, with the worker that it wakes, if any. -/
  | notifyOne (p : P) (w : Option (Fin n))
  | unlock (p : P)
  /-- The next step of `stop()`. -/
  | stop

namespace ConcurrentTaskQueue

variable {n : Nat} {P A : Type} [DecidableEq P]

def new : ConcurrentTaskQueue n P A where
  stop := false
  mtx := none
  que := []
  worker _ := .top
  producer _ := .idle
  stopper := .idle
  pushed := []
  taken := []

def setWorker (s : ConcurrentTaskQueue n P A) (w : Fin n) (pc : WorkerPc A) :
    ConcurrentTaskQueue n P A :=
  { s with worker := Function.update s.worker w pc }

def setProducer (s : ConcurrentTaskQueue n P A) (p : P) (pc : ProducerPc A) :
    ConcurrentTaskQueue n P A :=
  { s with producer := Function.update s.producer p pc }

/-- The next step of a worker; `none` if it is blocked or done. -/
def execWorker (s : ConcurrentTaskQueue n P A) (w : Fin n) : Option (ConcurrentTaskQueue n P A) :=
  match s.worker w with
  | .top => some (s.setWorker w (if s.stop then .done else .lock))
  | .lock | .notified =>
    match s.mtx with
    | none => some { s.setWorker w .testStop with mtx := some (.inl w) }
    | some _ => none
  | .testStop => some (s.setWorker w (if s.stop then .check else .testEmpty))
  | .testEmpty => some (s.setWorker w (if s.que.isEmpty then .wait else .check))
  | .wait => some { s.setWorker w .waiting with mtx := none }
  | .check =>
    match s.que with
    | [] => some (s.setWorker w .skip)
    | task :: que => some { s.setWorker w (.took task) with que, taken := s.taken ++ [(w, task)] }
  | .took task => some { s.setWorker w (.running task) with mtx := none }
  | .skip => some { s.setWorker w .top with mtx := none }
  | .running _ => some (s.setWorker w .top)
  | .waiting | .done => none

/-- `notify_one` wakes a waiting worker, if there is one. -/
def wakeOne (s : ConcurrentTaskQueue n P A) : Option (Fin n) → Option (ConcurrentTaskQueue n P A)
  | some w => if (s.worker w).isWaiting then some (s.setWorker w .notified) else none
  | none => if ∃ w, (s.worker w).isWaiting then none else some s

/-- `notify_all` wakes all of them. -/
def wakeAll (s : ConcurrentTaskQueue n P A) : ConcurrentTaskQueue n P A :=
  { s with worker := fun w => if (s.worker w).isWaiting then .notified else s.worker w }

/-- The next step of `stop()`; `join` is its end. -/
def execStop (s : ConcurrentTaskQueue n P A) : Option (ConcurrentTaskQueue n P A) :=
  match s.stopper with
  | .idle => if s.stop then none else some { s with stopper := .store }
  | .store => some { s with stopper := .notifyAll, stop := true }
  | .notifyAll => some { s.wakeAll with stopper := .join }
  | .join => none

def exec (s : ConcurrentTaskQueue n P A) : PoolAct n P A → Option (ConcurrentTaskQueue n P A)
  | .worker w => s.execWorker w
  | .spurious w =>
    match s.worker w with
    | .waiting => some (s.setWorker w .notified)
    | _ => none
  | .runTask p task =>
    match s.producer p, s.mtx with
    | .idle, none => some { s.setProducer p (.push task) with mtx := some (.inr p) }
    | _, _ => none
  | .push p =>
    match s.producer p with
    | .push task =>
        some { s.setProducer p .notify with que := s.que ++ [task], pushed := s.pushed ++ [task] }
    | _ => none
  | .notifyOne p w =>
    match s.producer p with
    | .notify => (s.setProducer p .unlock).wakeOne w
    | _ => none
  | .unlock p =>
    match s.producer p with
    | .unlock => some { s.setProducer p .idle with mtx := none }
    | _ => none
  | .stop => s.execStop

end ConcurrentTaskQueue

def PoolStep {n : Nat} {P A : Type} [DecidableEq P] (s : ConcurrentTaskQueue n P A)
    (a : PoolAct n P A) (s' : ConcurrentTaskQueue n P A) : Prop :=
  s.exec a = some s'

namespace ConcurrentTaskQueue

variable {n : Nat} {P A : Type} [DecidableEq P]

/-! ## What a step does -/

variable {s s' : ConcurrentTaskQueue n P A} {w : Fin n} {a : PoolAct n P A}

/-- The outcome of a worker's step, with what it found. -/
inductive WorkerEffect (s : ConcurrentTaskQueue n P A) (w : Fin n) :
    ConcurrentTaskQueue n P A → Prop
  | exit : s.worker w = .top → s.stop = true → WorkerEffect s w (s.setWorker w .done)
  | enter : s.worker w = .top → s.stop = false → WorkerEffect s w (s.setWorker w .lock)
  | lock : s.worker w = .lock ∨ s.worker w = .notified → s.mtx = none →
      WorkerEffect s w { s.setWorker w .testStop with mtx := some (.inl w) }
  | stopped : s.worker w = .testStop → s.stop = true → WorkerEffect s w (s.setWorker w .check)
  | notStopped : s.worker w = .testStop → s.stop = false →
      WorkerEffect s w (s.setWorker w .testEmpty)
  | empty : s.worker w = .testEmpty → s.que = [] → WorkerEffect s w (s.setWorker w .wait)
  | notEmpty : s.worker w = .testEmpty → s.que ≠ [] → WorkerEffect s w (s.setWorker w .check)
  | wait : s.worker w = .wait → WorkerEffect s w { s.setWorker w .waiting with mtx := none }
  | take {task : A} {que : List A} : s.worker w = .check → s.que = task :: que →
      WorkerEffect s w { s.setWorker w (.took task) with que, taken := s.taken ++ [(w, task)] }
  | skip : s.worker w = .check → s.que = [] → WorkerEffect s w (s.setWorker w .skip)
  | run {task : A} : s.worker w = .took task →
      WorkerEffect s w { s.setWorker w (.running task) with mtx := none }
  | again : s.worker w = .skip → WorkerEffect s w { s.setWorker w .top with mtx := none }
  | finish {task : A} : s.worker w = .running task → WorkerEffect s w (s.setWorker w .top)

omit [DecidableEq P] in
theorem workerEffect_of_exec (h : s.execWorker w = some s') : WorkerEffect s w s' := by
  unfold execWorker at h
  cases hpc : s.worker w with
  | top =>
      simp only [hpc] at h
      cases hstop : s.stop with
      | true => rw [hstop] at h; exact Option.some.inj h ▸ .exit hpc hstop
      | false => rw [hstop] at h; exact Option.some.inj h ▸ .enter hpc hstop
  | lock =>
      simp only [hpc] at h
      cases hm : s.mtx with
      | none => rw [hm] at h; exact Option.some.inj h ▸ .lock (Or.inl hpc) hm
      | some t => rw [hm] at h; cases h
  | notified =>
      simp only [hpc] at h
      cases hm : s.mtx with
      | none => rw [hm] at h; exact Option.some.inj h ▸ .lock (Or.inr hpc) hm
      | some t => rw [hm] at h; cases h
  | testStop =>
      simp only [hpc] at h
      cases hstop : s.stop with
      | true => rw [hstop] at h; exact Option.some.inj h ▸ .stopped hpc hstop
      | false => rw [hstop] at h; exact Option.some.inj h ▸ .notStopped hpc hstop
  | testEmpty =>
      simp only [hpc] at h
      cases hq : s.que with
      | nil => rw [hq] at h; exact Option.some.inj h ▸ .empty hpc hq
      | cons task que =>
          rw [hq] at h
          exact Option.some.inj h ▸ .notEmpty hpc (by rw [hq]; exact List.cons_ne_nil _ _)
  | wait =>
      simp only [hpc] at h
      exact Option.some.inj h ▸ .wait hpc
  | check =>
      simp only [hpc] at h
      cases hq : s.que with
      | nil => rw [hq] at h; exact Option.some.inj h ▸ .skip hpc hq
      | cons task que => rw [hq] at h; exact Option.some.inj h ▸ .take hpc hq
  | took task =>
      simp only [hpc] at h
      exact Option.some.inj h ▸ .run hpc
  | skip =>
      simp only [hpc] at h
      exact Option.some.inj h ▸ .again hpc
  | running task =>
      simp only [hpc] at h
      exact Option.some.inj h ▸ .finish hpc
  | waiting | done => simp only [hpc] at h; cases h

/-- The outcome of each step, with what it found. -/
inductive PoolEffect (s : ConcurrentTaskQueue n P A) :
    PoolAct n P A → ConcurrentTaskQueue n P A → Prop
  | worker {w : Fin n} {s' : ConcurrentTaskQueue n P A} : WorkerEffect s w s' →
      PoolEffect s (.worker w) s'
  | spurious {w : Fin n} : s.worker w = .waiting →
      PoolEffect s (.spurious w) (s.setWorker w .notified)
  | runTask {p : P} {task : A} : s.mtx = none →
      PoolEffect s (.runTask p task) { s.setProducer p (.push task) with mtx := some (.inr p) }
  | push {p : P} {task : A} : s.producer p = .push task →
      PoolEffect s (.push p)
        { s.setProducer p .notify with que := s.que ++ [task], pushed := s.pushed ++ [task] }
  | notifyOne {p : P} {w : Fin n} : s.producer p = .notify → s.worker w = .waiting →
      PoolEffect s (.notifyOne p (some w)) ((s.setProducer p .unlock).setWorker w .notified)
  | notifyNone {p : P} : s.producer p = .notify →
      PoolEffect s (.notifyOne p none) (s.setProducer p .unlock)
  | unlock {p : P} : s.producer p = .unlock →
      PoolEffect s (.unlock p) { s.setProducer p .idle with mtx := none }
  | stopTest : s.stopper = .idle → PoolEffect s .stop { s with stopper := .store }
  | stopStore : s.stopper = .store →
      PoolEffect s .stop { s with stopper := .notifyAll, stop := true }
  | notifyAll : s.stopper = .notifyAll → PoolEffect s .stop { s.wakeAll with stopper := .join }

theorem poolEffect_of_exec (h : s.exec a = some s') : PoolEffect s a s' := by
  cases a with
  | worker w => exact .worker (workerEffect_of_exec h)
  | spurious w =>
      simp only [exec] at h
      split at h
      next hw => exact Option.some.inj h ▸ .spurious hw
      · cases h
  | runTask p task =>
      simp only [exec] at h
      split at h
      next hp hm => exact Option.some.inj h ▸ .runTask hm
      · cases h
  | push p =>
      simp only [exec] at h
      split at h
      next task hp => exact Option.some.inj h ▸ .push hp
      · cases h
  | notifyOne p w =>
      simp only [exec] at h
      split at h
      next hp =>
          cases w with
          | none =>
              simp only [wakeOne, Option.ite_none_left_eq_some, Option.some.injEq] at h
              exact h.2 ▸ .notifyNone hp
          | some w =>
              simp only [wakeOne, Option.ite_none_right_eq_some, Option.some.injEq] at h
              exact h.2 ▸ .notifyOne hp (WorkerPc.eq_waiting h.1)
      · cases h
  | unlock p =>
      simp only [exec] at h
      split at h
      next hp => exact Option.some.inj h ▸ .unlock hp
      · cases h
  | stop =>
      simp only [exec, execStop] at h
      split at h
      next hs =>
          simp only [Option.ite_none_left_eq_some, Option.some.injEq] at h
          exact h.2 ▸ .stopTest hs
      next hs => exact Option.some.inj h ▸ .stopStore hs
      next hs => exact Option.some.inj h ▸ .notifyAll hs
      · cases h

/-! ## The lock and the queue -/

def Holds (s : ConcurrentTaskQueue n P A) : PoolThread n P → Bool
  | .inl w => (s.worker w).holds
  | .inr p => (s.producer p).holds

omit [DecidableEq P] in
theorem holds_setWorker (s : ConcurrentTaskQueue n P A) (w : Fin n) (pc : WorkerPc A)
    [DecidableEq (PoolThread n P)] :
    (s.setWorker w pc).Holds = Function.update s.Holds (.inl w) pc.holds := by
  funext t
  rcases t with v | p
  · by_cases hv : v = w
    · subst hv
      simp [Holds, setWorker]
    · rw [Function.update_of_ne (by simpa using hv)]
      simp [Holds, setWorker, hv]
  · rw [Function.update_of_ne (by simp)]
    rfl

theorem holds_setProducer (s : ConcurrentTaskQueue n P A) (p : P) (pc : ProducerPc A) :
    (s.setProducer p pc).Holds = Function.update s.Holds (.inr p) pc.holds := by
  funext t
  rcases t with w | q
  · rw [Function.update_of_ne (by simp)]
    rfl
  · by_cases hq : q = p
    · subst hq
      simp [Holds, setProducer]
    · rw [Function.update_of_ne (by simpa using hq)]
      simp [Holds, setProducer, hq]

/-- Every thread that is in a critical section owns the lock, and the tasks
that were taken and those in the queue are the tasks that were pushed. -/
structure Orderly (s : ConcurrentTaskQueue n P A) : Prop where
  owner : Exclusive s.mtx s.Holds
  fifo : s.taken.map Prod.snd ++ s.que = s.pushed

namespace Orderly

omit [DecidableEq P] in
theorem new : Orderly (ConcurrentTaskQueue.new : ConcurrentTaskQueue n P A) where
  owner t ht := by rcases t with w | p <;> cases ht
  fifo := rfl

theorem goOn (h : Orderly s) (pc : WorkerPc A)
    (hpc : pc.holds = true → (s.worker w).holds = true) : Orderly (s.setWorker w pc) where
  owner := by
    rw [holds_setWorker]
    exact h.owner.goOn hpc
  fifo := h.fifo

theorem acquire (h : Orderly s) (hm : s.mtx = none) (pc : WorkerPc A) :
    Orderly { s.setWorker w pc with mtx := some (.inl w) } where
  owner := by
    change Exclusive _ (s.setWorker w pc).Holds
    rw [holds_setWorker]
    exact (hm ▸ h.owner).acquire
  fifo := h.fifo

theorem release (h : Orderly s) (hw : (s.worker w).holds = true) {pc : WorkerPc A}
    (hpc : pc.holds = false) : Orderly { s.setWorker w pc with mtx := none } where
  owner := by
    change Exclusive _ (s.setWorker w pc).Holds
    rw [holds_setWorker, hpc]
    exact h.owner.release hw
  fifo := h.fifo

theorem take (h : Orderly s) {task : A} {que : List A} (hw : s.worker w = .check)
    (hq : s.que = task :: que) :
    Orderly { s.setWorker w (.took task) with que, taken := s.taken ++ [(w, task)] } where
  owner := (h.goOn (.took task) fun _ => by rw [hw]; rfl).owner
  fifo := by
    change (s.taken ++ [(w, task)]).map Prod.snd ++ que = s.pushed
    rw [List.map_append, List.append_assoc, ← h.fifo, hq]
    rfl

theorem producer_goOn (h : Orderly s) {p : P} (pc : ProducerPc A)
    (hpc : pc.holds = true → (s.producer p).holds = true) : Orderly (s.setProducer p pc) where
  owner := by
    rw [holds_setProducer]
    exact h.owner.goOn hpc
  fifo := h.fifo

theorem producer_acquire (h : Orderly s) (hm : s.mtx = none) (p : P) (pc : ProducerPc A) :
    Orderly { s.setProducer p pc with mtx := some (.inr p) } where
  owner := by
    change Exclusive _ (s.setProducer p pc).Holds
    rw [holds_setProducer]
    exact (hm ▸ h.owner).acquire
  fifo := h.fifo

theorem producer_release (h : Orderly s) {p : P} (hp : (s.producer p).holds = true)
    {pc : ProducerPc A} (hpc : pc.holds = false) :
    Orderly { s.setProducer p pc with mtx := none } where
  owner := by
    change Exclusive _ (s.setProducer p pc).Holds
    rw [holds_setProducer, hpc]
    exact h.owner.release hp
  fifo := h.fifo

theorem push (h : Orderly s) {p : P} {task : A} (hp : s.producer p = .push task) :
    Orderly { s.setProducer p .notify with
      que := s.que ++ [task], pushed := s.pushed ++ [task] } where
  owner := (h.producer_goOn .notify fun _ => by rw [hp]; rfl).owner
  fifo := by
    change s.taken.map Prod.snd ++ (s.que ++ [task]) = s.pushed ++ [task]
    rw [← List.append_assoc, h.fifo]

omit [DecidableEq P] in
theorem wakeAll (h : Orderly s) (pc : StopPc) : Orderly { s.wakeAll with stopper := pc } where
  owner t ht := by
    refine h.owner t ?_
    rcases t with w | p
    · change (if (s.worker w).isWaiting then WorkerPc.notified else s.worker w).holds = true at ht
      split at ht
      · cases ht
      · exact ht
    · exact ht
  fifo := h.fifo

theorem workerEffect (h : Orderly s) (he : WorkerEffect s w s') : Orderly s' := by
  cases he with
  | exit | enter | finish => exact h.goOn _ (fun hpc => nomatch hpc)
  | lock _ hm => exact h.acquire hm _
  | stopped hw | notStopped hw | empty hw | notEmpty hw | skip hw =>
      exact h.goOn _ fun _ => by rw [hw]; rfl
  | wait hw | run hw | again hw => exact h.release (by rw [hw]; rfl) rfl
  | take hw hq => exact h.take hw hq

theorem step (h : Orderly s) (hs : PoolStep s a s') : Orderly s' := by
  cases poolEffect_of_exec hs with
  | worker he => exact h.workerEffect he
  | spurious => exact h.goOn _ (fun hpc => nomatch hpc)
  | runTask hm => exact h.producer_acquire hm _ _
  | push hp => exact h.push hp
  | notifyOne hp =>
      have hkept := h.producer_goOn .unlock fun _ => by rw [hp]; rfl
      exact hkept.goOn _ (fun hpc => nomatch hpc)
  | notifyNone hp => exact h.producer_goOn _ fun _ => by rw [hp]; rfl
  | unlock hp => exact h.producer_release (by rw [hp]; rfl) rfl
  | stopTest | stopStore => exact ⟨h.owner, h.fifo⟩
  | notifyAll => exact h.wakeAll _

end Orderly

/-! ## Stopping -/

/-- The worker has found `m_stop` clear and will wait. -/
def Between (s : ConcurrentTaskQueue n P A) (w : Fin n) : Prop :=
  s.worker w = .wait ∨ s.worker w = .testEmpty ∧ s.que = []

/-- No worker is about to wait when `notify_all` is issued. -/
def NotifiesClear (s : ConcurrentTaskQueue n P A) : PoolAct n P A → Prop
  | .stop => s.stopper = .notifyAll → ∀ w, ¬ s.Between w
  | _ => True

/-- `stop()` has notified and joins a worker that no notification is for. -/
def Hang (s : ConcurrentTaskQueue n P A) : Prop :=
  s.stopper = .join ∧ ∃ w, s.worker w = .waiting

instance [DecidableEq A] (s : ConcurrentTaskQueue n P A) (w : Fin n) : Decidable (s.Between w) :=
  inferInstanceAs (Decidable (_ ∨ _ ∧ _))

instance [DecidableEq A] (s : ConcurrentTaskQueue n P A) (a : PoolAct n P A) :
    Decidable (s.NotifiesClear a) :=
  match a with
  | .stop => inferInstanceAs (Decidable (_ → ∀ w, ¬ s.Between w))
  | .worker _ | .spurious _ | .runTask _ _ | .push _ | .notifyOne _ _ | .unlock _ =>
      .isTrue trivial

/-- The worker waits, or it has found `m_stop` clear and will. -/
def Misses (s : ConcurrentTaskQueue n P A) (w : Fin n) : Prop :=
  s.worker w = .waiting ∨ s.Between w

/-- The flag is stored before the notification; after it no worker misses
the stop. -/
structure Stopping (s : ConcurrentTaskQueue n P A) : Prop where
  flag : s.stopper = .notifyAll ∨ s.stopper = .join → s.stop = true
  woken : s.stopper = .join → ∀ w, ¬ s.Misses w

omit [DecidableEq P] in
theorem not_misses_of_apart (h : (s.worker w).apart = true) : ¬ s.Misses w := by
  rintro (hw | hw | ⟨hw, -⟩) <;> rw [hw] at h <;> cases h

omit [DecidableEq P] in
theorem not_misses_setWorker {pc : WorkerPc A} (hpc : pc.apart = true)
    (h : ∀ v, v ≠ w → ¬ s.Misses v) (v : Fin n) : ¬ (s.setWorker w pc).Misses v := by
  by_cases hv : v = w
  · refine not_misses_of_apart ?_
    subst hv
    simpa [setWorker] using hpc
  · have hsame : (s.setWorker w pc).worker v = s.worker v := Function.update_of_ne hv _ _
    rw [Misses, Between, hsame]
    exact h v hv

namespace Stopping

omit [DecidableEq P] in
theorem new : Stopping (ConcurrentTaskQueue.new : ConcurrentTaskQueue n P A) where
  flag h := by rcases h with h | h <;> cases h
  woken h := nomatch h

omit [DecidableEq P] in
theorem move (h : Stopping s) {pc : WorkerPc A} (hpc : pc.apart = true)
    {mtx : Option (PoolThread n P)} : Stopping { s.setWorker w pc with mtx } where
  flag := h.flag
  woken hj := not_misses_setWorker hpc fun v _ => h.woken hj v

omit [DecidableEq P] in
/-- Taking a task may empty the queue, but only the worker that takes it is
in the critical section. -/
theorem take (h : Stopping s) (ho : Orderly s) {task : A} {que : List A}
    {taken : List (Fin n × A)} (hw : s.worker w = .check) :
    Stopping { s.setWorker w (.took task) with que, taken } where
  flag := h.flag
  woken hj := by
    refine not_misses_setWorker (s := { s with que, taken }) rfl fun v hv hmiss => ?_
    rcases hmiss with hv' | hv' | ⟨hv', -⟩
    · exact h.woken hj v (Or.inl hv')
    · exact h.woken hj v (Or.inr (Or.inl hv'))
    · have htest : s.worker v = .testEmpty := hv'
      have heq := ho.owner.unique (t := .inl v) (u := .inl w)
        (by rw [Holds, htest]; rfl) (by rw [Holds, hw]; rfl)
      exact hv (Sum.inl.inj heq)

omit [DecidableEq P] in
theorem workerEffect (h : Stopping s) (ho : Orderly s) (he : WorkerEffect s w s') :
    Stopping s' := by
  cases he with
  | exit | enter | lock | stopped | notEmpty | skip | run | again | finish => exact h.move rfl
  | notStopped _ hstop =>
      refine ⟨h.flag, fun hj => ?_⟩
      have hset := h.flag (Or.inr hj)
      rw [hstop] at hset
      cases hset
  | empty hw hq => exact ⟨h.flag, fun hj => absurd (Or.inr (Or.inr ⟨hw, hq⟩)) (h.woken hj w)⟩
  | wait hw => exact ⟨h.flag, fun hj => absurd (Or.inr (Or.inl hw)) (h.woken hj w)⟩
  | take hw => exact h.take ho hw

omit [DecidableEq P] in
theorem wakeAll (h : Stopping s) (hs : s.stopper = .notifyAll) (hclear : ∀ w, ¬ s.Between w) :
    Stopping { s.wakeAll with stopper := .join } where
  flag _ := h.flag (Or.inl hs)
  woken _ w := by
    cases hw : (s.worker w).isWaiting with
    | true =>
        refine not_misses_of_apart ?_
        simp [ConcurrentTaskQueue.wakeAll, hw, WorkerPc.apart]
    | false =>
        have hsame : s.wakeAll.worker w = s.worker w := by simp [ConcurrentTaskQueue.wakeAll, hw]
        rw [Misses, Between, hsame]
        rintro (hv | hv)
        · rw [hv] at hw
          cases hw
        · exact hclear w hv

theorem step (h : Stopping s) (ho : Orderly s) (hg : s.NotifiesClear a) (hs : PoolStep s a s') :
    Stopping s' := by
  cases poolEffect_of_exec hs with
  | worker he => exact h.workerEffect ho he
  | spurious => exact h.move rfl
  | runTask | notifyNone | unlock => exact ⟨h.flag, h.woken⟩
  | push =>
      refine ⟨h.flag, fun hj w => ?_⟩
      rintro (hw | hw | ⟨-, hq⟩)
      · exact h.woken hj w (Or.inl hw)
      · exact h.woken hj w (Or.inr (Or.inl hw))
      · exact List.append_ne_nil_of_right_ne_nil _ (List.cons_ne_nil _ _) hq
  | @notifyOne p w =>
      have hkept : Stopping (s.setProducer p .unlock) := ⟨h.flag, h.woken⟩
      exact hkept.move rfl
  | stopTest =>
      refine ⟨?_, fun hj => nomatch hj⟩
      rintro (hj | hj) <;> cases hj
  | stopStore => exact ⟨fun _ => rfl, fun hj => nomatch hj⟩
  | notifyAll hstop => exact h.wakeAll hstop (hg hstop)

omit [DecidableEq P] in
theorem not_hang (h : Stopping s) : ¬ s.Hang := by
  rintro ⟨hj, w, hw⟩
  exact h.woken hj w (Or.inl hw)

end Stopping

/-- A worker that is about to wait when `notify_all` is issued goes on to
wait: it has the lock, so the queue stays empty until then. -/
theorem hangs_of_between (hb : s.Between w) (hs : s.stopper = .join) :
    ∃ ms v, Run PoolStep s ms v ∧ v.Hang := by
  have last : ∀ {r : ConcurrentTaskQueue n P A}, r.worker w = .wait → r.stopper = .join →
      ∃ v, PoolStep r (.worker w) v ∧ v.Hang := by
    intro r hw hr
    refine ⟨{ r.setWorker w .waiting with mtx := none }, ?_, hr, w, Function.update_self ..⟩
    simp only [PoolStep, exec, execWorker, hw]
  rcases hb with hw | ⟨hw, hq⟩
  · obtain ⟨v, hstep, hv⟩ := last hw hs
    exact ⟨[.worker w], v, .cons hstep (.nil v), hv⟩
  · have hfirst : PoolStep s (.worker w) (s.setWorker w .wait) := by
      simp [PoolStep, exec, execWorker, hw, hq]
    obtain ⟨v, hstep, hv⟩ := last (r := s.setWorker w .wait) (Function.update_self ..) hs
    exact ⟨[.worker w, .worker w], v, .cons hfirst (.cons hstep (.nil v)), hv⟩

theorem hangs_after (hs : PoolStep s a s') (hg : ¬ s.NotifiesClear a) :
    ∃ ms v, Run PoolStep s' ms v ∧ v.Hang := by
  cases poolEffect_of_exec hs with
  | notifyAll hstop =>
      have hb : ∃ w, s.Between w := by
        by_contra hnone
        exact hg fun _ => not_exists.mp hnone
      obtain ⟨w, hb⟩ := hb
      have hsame : s.wakeAll.worker w = s.worker w := by
        rcases hb with hw | ⟨hw, -⟩ <;> simp [wakeAll, hw, WorkerPc.isWaiting]
      refine hangs_of_between (w := w) ?_ rfl
      rw [Between, hsame]
      exact hb
  | stopTest hstop | stopStore hstop =>
      exact absurd (fun hn => nomatch hstop.symm.trans hn) hg
  | _ => exact absurd trivial hg

end ConcurrentTaskQueue

open ConcurrentTaskQueue in
/-- **The stop protocol.** In every interleaving the tasks are taken in the
order in which they were pushed, each once. In no interleaving in which
`notify_all` is issued while no worker is about to wait does `stop()` join a
worker that waits for good; and after any run, a `notify_all` that is issued
otherwise can be followed by such a wait. -/
theorem stop_protocol {n : Nat} {P A : Type} [DecidableEq P] (acts : List (PoolAct n P A)) :
    (∀ s, Run PoolStep new acts s → s.taken.map Prod.snd ++ s.que = s.pushed) ∧
      (EveryStep PoolStep NotifiesClear new acts →
        Throughout PoolStep (fun s => ¬ s.Hang) new acts) ∧
      ∀ s a s', Run PoolStep new acts s → PoolStep s a s' → ¬ s.NotifiesClear a →
        ∃ ms v, Run PoolStep s' ms v ∧ v.Hang := by
  refine ⟨fun s hrun => ?_, fun hclear pre s hpre hrun => ?_,
    fun s a s' _ hs hg => hangs_after hs hg⟩
  · exact (hrun.invariant (fun _ _ _ h hs => h.step hs) Orderly.new).fifo
  · have hboth := (hclear.guarded hpre hrun).invariant (I := fun s => Orderly s ∧ Stopping s)
      (fun _ _ _ h hs => ⟨h.1.step hs.1, h.2.step h.1 hs.2 hs.1⟩) ⟨.new, .new⟩
    exact hboth.2.not_hang

/-- A worker waits, is given a task, runs it, and waits again; then `stop()`
is called and the worker ends. -/
def workAndStop : List (PoolAct 1 Unit Nat) :=
  List.replicate 5 (PoolAct.worker (Fin.last 0)) ++
    [.runTask () 7, .push (), .notifyOne () (some (Fin.last 0)), .unlock ()] ++
    List.replicate 11 (PoolAct.worker (Fin.last 0)) ++ [.stop, .stop, .stop] ++
    List.replicate 5 (PoolAct.worker (Fin.last 0))

theorem stop_protocol_at_rest :
    (∃ s, Run PoolStep ConcurrentTaskQueue.new workAndStop s ∧ s.worker 0 = .done ∧
        s.taken = [(0, 7)] ∧ s.taken.map Prod.snd ++ s.que = s.pushed) ∧
      Throughout PoolStep (fun s => ¬ s.Hang) ConcurrentTaskQueue.new workAndStop := by
  have hrun : ∃ s, Run PoolStep ConcurrentTaskQueue.new workAndStop s ∧ s.worker 0 = .done ∧
      s.taken = [(0, 7)] :=
    ⟨_, Run.of_foldlM (f := ConcurrentTaskQueue.exec) rfl, rfl, rfl⟩
  obtain ⟨s, hs, hdone, htaken⟩ := hrun
  refine ⟨⟨s, hs, hdone, htaken, (stop_protocol workAndStop).1 s hs⟩, ?_⟩
  exact (stop_protocol workAndStop).2.1
    (everyStep_of_stepsMeet (f := ConcurrentTaskQueue.exec) rfl)

/-- The worker tests `m_stop`, `stop()` stores it and notifies, the worker
waits. -/
theorem stop_hangs_on_late_wait :
    ∃ s, Run PoolStep (ConcurrentTaskQueue.new : ConcurrentTaskQueue 1 Unit Nat)
        [.worker 0, .worker 0, .worker 0, .stop, .stop, .stop, .worker 0, .worker 0] s ∧
      s.Hang ∧ s.stop = true :=
  ⟨_, Run.of_foldlM (f := ConcurrentTaskQueue.exec) rfl, ⟨rfl, 0, rfl⟩, rfl⟩

end Netpoll
