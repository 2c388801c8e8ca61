import Mathlib.Data.Finset.Basic
import Netpoll.MinQueue
import Netpoll.Runs

/-!
# The timer queue

`TimerQueue` keeps the timers in a priority queue by expiry time and,
apart from it, the set of the ids that are still valid: cancelling a timer
only takes its id out of the set. An expiry pass (`handleRead`, or
`processTimers` where there is no timerfd; the two bodies are the same)
first moves the expired timers out of the queue, then gives each its turn,
which runs the callback if the id is in the set at that moment, and last
re-arms the repeating ones whose id is still there.

A callback runs on the loop thread, so the timers it adds and the ids it
cancels take effect at once, in the middle of the pass. What the callbacks
of a pass do is an argument of the pass: a list of such operations for
each timer.
-/

namespace Netpoll

abbrev TimerId := Nat

/-- `Timer`, the callback apart. Times are points of the steady clock. -/
structure Timer where
  id : TimerId
  when : Int
  interval : Int
  isHighest : Bool
  isLowest : Bool
  deriving DecidableEq, Repr

/-- `m_repeat`. -/
def Timer.isRepeat (t : Timer) : Bool := decide (0 < t.interval)

/-- `restart` of a repeating timer, the only kind that `reset` calls it for. -/
def Timer.restart (t : Timer) (now : Int) : Timer := { t with when := now + t.interval }

@[simp] theorem Timer.restart_id (t : Timer) (now : Int) : (t.restart now).id = t.id := rfl

structure TimerQueue (Q : Type*) where
  timers : Q
  highestTask : Option Timer
  lowestTask : Option Timer
  /-- The ids that are currently valid. -/
  timerIdSet : Finset TimerId

open MinQueue (elems push pop? top?)

namespace TimerQueue

variable {Q : Type*} [MinQueue Q Timer Timer.when]

def new : TimerQueue Q := ⟨MinQueue.empty, none, none, ∅⟩

/-- `insert`: also tells whether the earliest timer changed. -/
def insert (t : Timer) (q : TimerQueue Q) : TimerQueue Q × Bool :=
  ({ q with timers := push t q.timers },
    match top? q.timers with
    | none => true
    | some u => decide (t.when < u.when))

def addTimerInLoop (t : Timer) (q : TimerQueue Q) : TimerQueue Q :=
  (insert t { q with timerIdSet := Insert.insert t.id q.timerIdSet }).1

/-- What `cancelTimer` hands to the loop. -/
def cancelTimer (id : TimerId) (q : TimerQueue Q) : TimerQueue Q :=
  { q with timerIdSet := q.timerIdSet.erase id }

/-- The loop of `getExpired`, with fuel for one round per timer. -/
def getExpiredLoop (now : Int) : Nat → TimerQueue Q → List Timer → TimerQueue Q × List Timer
  | 0, q, expired => (q, expired)
  | fuel + 1, q, expired =>
    match pop? q.timers with
    | none => (q, expired)
    | some (t, rest) =>
      if t.when < now then
        -- a tagged timer takes the place of the task already chosen, if there is one
        if t.isHighest && q.highestTask.isSome then
          getExpiredLoop now fuel { q with highestTask := some t, timers := rest } expired
        else if t.isLowest && q.lowestTask.isSome then
          getExpiredLoop now fuel { q with lowestTask := some t, timers := rest } expired
        else getExpiredLoop now fuel { q with timers := rest } (expired ++ [t])
      else (q, expired)

def getExpired (now : Int) (q : TimerQueue Q) : TimerQueue Q × List Timer :=
  getExpiredLoop now (elems q.timers).card q []

/-- One round of the loop of `reset`. -/
def resetTimer (now : Int) (q : TimerQueue Q) (t : Timer) : TimerQueue Q :=
  if t.id ∈ q.timerIdSet then
    if t.isRepeat then (q.insert (t.restart now)).1
    else { q with timerIdSet := q.timerIdSet.erase t.id }
  else q

def reset (expired : List Timer) (now : Int) (q : TimerQueue Q) : TimerQueue Q :=
  expired.foldl (resetTimer now) q

end TimerQueue

/-! ## The queue at work -/

/-- What a caller on the loop thread, a callback included, does to the queue. -/
inductive TimerOp
  | add (t : Timer)
  | cancel (id : TimerId)
  deriving DecidableEq

/-- What happened, in order. A `turn` is the moment in which a pass looks
at a timer it took out, and says whether the callback was run. -/
inductive TimerEvent
  | added (t : Timer)
  | cancelled (id : TimerId)
  | turn (t : Timer) (ran : Bool)
  deriving DecidableEq

/-- The queue with its history: the ids given to timers so far and the log. -/
structure TimerSys (Q : Type*) where
  queue : TimerQueue Q
  used : Finset TimerId
  trace : List TimerEvent

namespace TimerSys

variable {Q : Type*} [MinQueue Q Timer Timer.when]

def new : TimerSys Q := ⟨.new, ∅, []⟩

/-- The timers in the queue. -/
def queued (s : TimerSys Q) : Multiset Timer := elems s.queue.timers

def log (e : TimerEvent) (s : TimerSys Q) : TimerSys Q := { s with trace := s.trace ++ [e] }

/-- `addTimerInLoop` of a new timer. Its id is `++timersCreated_`, one that
no timer had before. -/
def add (t : Timer) (s : TimerSys Q) : Option (TimerSys Q) :=
  if t.id ∈ s.used then none
  else some ({ s with
    queue := s.queue.addTimerInLoop t, used := insert t.id s.used }.log (.added t))

def cancel (id : TimerId) (s : TimerSys Q) : TimerSys Q :=
  { s with queue := s.queue.cancelTimer id }.log (.cancelled id)

def op (s : TimerSys Q) : TimerOp → Option (TimerSys Q)
  | .add t => s.add t
  | .cancel id => some (s.cancel id)

/-- The turn of one timer of a pass. -/
def runTimer (callback : TimerId → List TimerOp) (s : TimerSys Q) (t : Timer) :
    Option (TimerSys Q) :=
  if t.id ∈ s.queue.timerIdSet then (callback t.id).foldlM op (s.log (.turn t true))
  else some (s.log (.turn t false))

def handleRead (now : Int) (callback : TimerId → List TimerOp) (s : TimerSys Q) :
    Option (TimerSys Q) := do
  let (queue, expired) := s.queue.getExpired now
  let s := { s with queue := queue }
  let s ← s.queue.highestTask.toList.foldlM (runTimer callback) s
  let s ← expired.foldlM (runTimer callback) s
  let s ← s.queue.lowestTask.toList.foldlM (runTimer callback) s
  let expired := expired ++ s.queue.highestTask.toList ++ s.queue.lowestTask.toList
  let queue := { s.queue with highestTask := none, lowestTask := none }
  return { s with queue := queue.reset expired now }

end TimerSys

inductive TimerAct
  | op (o : TimerOp)
  | handleRead (now : Int) (callback : TimerId → List TimerOp)

def TimerSys.exec {Q : Type*} [MinQueue Q Timer Timer.when] (s : TimerSys Q) :
    TimerAct → Option (TimerSys Q)
  | .op o => s.op o
  | .handleRead now callback => s.handleRead now callback

/-- For runs on concrete timers: equal times are served in the order of insertion. -/
instance : MinQueue (List Timer) Timer Timer.when := MinQueue.ofList Timer.when

def TimerStep {Q : Type*} [MinQueue Q Timer Timer.when] (s : TimerSys Q) (a : TimerAct)
    (t : TimerSys Q) : Prop :=
  s.exec a = some t

end Netpoll
