import Netpoll.TimerLaw

/-!
# The timer descriptor

On Linux the loop learns of expired timers through a timerfd, which
`resetTimerfd` arms with the time left to the earliest timer. It is armed
in three places: by `addTimerInLoop` when the new timer is the earliest,
at the end of an expiry pass, and by `TimerQueue::reset()`, which opens a
new descriptor after a fork.

`FdTimers` adds the descriptor to the queue; without the descriptor its
steps are those of `TimerSys` (`FdStep.sys`). Every reading of the clock
is an argument of the step that makes it. Clock values and times are
nanoseconds of the steady clock.
-/

namespace Netpoll

open MinQueue (elems push pop? top?)

structure TimeSpec where
  sec : Int
  nsec : Int
  deriving DecidableEq, Repr

namespace TimeSpec

def nanoseconds (v : TimeSpec) : Int := v.sec * 1000000000 + v.nsec

/-- The value that makes `timerfd_settime` disarm the timer. -/
def zero : TimeSpec := ⟨0, 0⟩

/-- A value that `timerfd_settime` accepts. -/
def Valid (v : TimeSpec) : Prop := 0 ≤ v.sec ∧ 0 ≤ v.nsec ∧ v.nsec < 1000000000

end TimeSpec

/-- `duration_cast` to microseconds truncates; a shorter time than 100
microseconds is raised to that. -/
def microSecondsFromNow (when now : Int) : Int :=
  let microSeconds := (when - now).tdiv 1000
  if microSeconds < 100 then 100 else microSeconds

def howMuchTimeFromNow (when now : Int) : TimeSpec :=
  let microSeconds := microSecondsFromNow when now
  ⟨microSeconds.tdiv 1000000, microSeconds.tmod 1000000 * 1000⟩

/-- What the timerfd was last set to, and the clock at that moment. -/
structure Arming where
  value : TimeSpec
  clock : Int
  deriving DecidableEq, Repr

def Arming.deadline (a : Arming) : Int := a.clock + a.value.nanoseconds

/-- The queue with its descriptor. -/
structure FdTimers (Q : Type*) where
  sys : TimerSys Q
  /-- The arming that has not expired yet, or has expired and was not read. -/
  timerFd : Option Arming
  /-- All values that a timerfd was ever set to. -/
  values : List TimeSpec

namespace FdTimers

variable {Q : Type*} [MinQueue Q Timer Timer.when]

def new : FdTimers Q := ⟨.new, none, []⟩

/-- `timerfd_settime` with a relative value. -/
def settime (clock : Int) (value : TimeSpec) (s : FdTimers Q) : FdTimers Q :=
  { s with
    timerFd := if value = .zero then none else some ⟨value, clock⟩
    values := s.values ++ [value] }

def resetTimerfd (clock expiration : Int) (s : FdTimers Q) : FdTimers Q :=
  s.settime clock (howMuchTimeFromNow expiration clock)

/-- The read fails, and changes nothing, when the timer has not expired. -/
def readTimerfd (clock : Int) (s : FdTimers Q) : FdTimers Q :=
  match s.timerFd with
  | some a => if a.deadline ≤ clock then { s with timerFd := none } else s
  | none => s

/-- The last statement of both `reset`s. -/
def rearm (clock : Int) (s : FdTimers Q) : FdTimers Q :=
  match top? s.sys.queue.timers with
  | some t => s.resetTimerfd clock t.when
  | none => s

def addTimerInLoop (clock : Int) (t : Timer) (s : FdTimers Q) : Option (FdTimers Q) := do
  let sys ← s.sys.add t
  let s' := { s with sys := sys }
  return if (s.sys.queue.insert t).2 then s'.resetTimerfd clock t.when else s'

/-- An operation of the loop thread, with the clock it would see. -/
def op (s : FdTimers Q) : Int × TimerOp → Option (FdTimers Q)
  | (clock, .add t) => s.addTimerInLoop clock t
  | (_, .cancel id) => some { s with sys := s.sys.cancel id }

def runTimer (callback : TimerId → List (Int × TimerOp)) (s : FdTimers Q) (t : Timer) :
    Option (FdTimers Q) :=
  if t.id ∈ s.sys.queue.timerIdSet then
    (callback t.id).foldlM op { s with sys := s.sys.log (.turn t true) }
  else some { s with sys := s.sys.log (.turn t false) }

/-- `handleRead`. The clock is `now` at the start, `readClock` when the
descriptor is read and `endClock` when it is armed again. -/
def handleRead (now readClock endClock : Int) (callback : TimerId → List (Int × TimerOp))
    (s : FdTimers Q) : Option (FdTimers Q) := do
  let s := s.readTimerfd readClock
  let (queue, expired) := s.sys.queue.getExpired now
  let s := { s with sys := { s.sys with queue := queue } }
  let s ← s.sys.queue.highestTask.toList.foldlM (runTimer callback) s
  let s ← expired.foldlM (runTimer callback) s
  let s ← s.sys.queue.lowestTask.toList.foldlM (runTimer callback) s
  let expired := expired ++ s.sys.queue.highestTask.toList ++ s.sys.queue.lowestTask.toList
  let queue := { s.sys.queue with highestTask := none, lowestTask := none }
  return { s with sys := { s.sys with queue := queue.reset expired now } }.rearm endClock

/-- `TimerQueue::reset()`: a new descriptor, which is not armed. -/
def reset (clock : Int) (s : FdTimers Q) : FdTimers Q := { s with timerFd := none }.rearm clock

end FdTimers

inductive FdAct
  | op (clock : Int) (o : TimerOp)
  | handleRead (now readClock endClock : Int) (callback : TimerId → List (Int × TimerOp))
  | reset (clock : Int)

section machine

variable {Q : Type*} [MinQueue Q Timer Timer.when]

def FdTimers.exec (s : FdTimers Q) : FdAct → Option (FdTimers Q)
  | .op clock o => s.op (clock, o)
  | .handleRead now readClock endClock callback => s.handleRead now readClock endClock callback
  | .reset clock => some (s.reset clock)

def FdStep (s : FdTimers Q) (a : FdAct) (s' : FdTimers Q) : Prop := s.exec a = some s'

end machine

/-! ## The time left -/

theorem le_microSecondsFromNow (when now : Int) : 100 ≤ microSecondsFromNow when now := by
  rw [microSecondsFromNow]
  split <;> omega

theorem howMuchTimeFromNow_eq (when now : Int) :
    howMuchTimeFromNow when now = ⟨microSecondsFromNow when now / 1000000,
      microSecondsFromNow when now % 1000000 * 1000⟩ := by
  have hpos := le_microSecondsFromNow when now
  rw [howMuchTimeFromNow, Int.tdiv_eq_ediv_of_nonneg (by omega),
    Int.tmod_eq_emod_of_nonneg (by omega)]

theorem nanoseconds_howMuchTimeFromNow (when now : Int) :
    (howMuchTimeFromNow when now).nanoseconds = microSecondsFromNow when now * 1000 := by
  simp only [howMuchTimeFromNow_eq, TimeSpec.nanoseconds]
  omega

theorem howMuchTimeFromNow_valid (when now : Int) : (howMuchTimeFromNow when now).Valid := by
  have hpos := le_microSecondsFromNow when now
  simp only [howMuchTimeFromNow_eq, TimeSpec.Valid]
  omega

theorem howMuchTimeFromNow_ne_zero (when now : Int) : howMuchTimeFromNow when now ≠ .zero := by
  intro h
  have hpos := le_microSecondsFromNow when now
  have hnanos := nanoseconds_howMuchTimeFromNow when now
  rw [h] at hnanos
  change (0 : Int) = _ at hnanos
  omega

theorem tdiv_mul_le {d : Int} (h : 0 < d.tdiv 1000) : d.tdiv 1000 * 1000 ≤ d := by
  by_cases hd : 0 ≤ d
  · rw [Int.tdiv_eq_ediv_of_nonneg hd]
    omega
  · have hneg := Int.neg_tdiv d 1000
    rw [Int.tdiv_eq_ediv_of_nonneg (by omega)] at hneg
    omega

/-- The deadline is no later than the timer, unless the timer is due within
100 microseconds. -/
theorem deadline_le (when clock : Int) :
    (Arming.mk (howMuchTimeFromNow when clock) clock).deadline ≤ max when (clock + 100000) := by
  simp only [Arming.deadline, nanoseconds_howMuchTimeFromNow, microSecondsFromNow, le_max_iff]
  split
  · exact Or.inr (by omega)
  next hlong =>
      have := tdiv_mul_le (d := when - clock) (by omega)
      exact Or.inl (by omega)

/-! ## Without the descriptor -/

theorem foldlM_map_eq {σ τ α β : Type*} {f : σ → α → Option σ} {g : τ → β → Option τ}
    {p : σ → τ} {r : α → β} (h : ∀ s a, (f s a).map p = g (p s) (r a)) (l : List α) (s : σ) :
    (l.foldlM f s).map p = (l.map r).foldlM g (p s) := by
  induction l generalizing s with
  | nil => rfl
  | cons a l ih =>
      rw [List.foldlM_cons, List.map_cons, List.foldlM_cons, ← h s a]
      cases f s a with
      | none => rfl
      | some t => exact ih t

theorem map_bind_eq {σ τ σ' τ' : Type*} {x : Option σ} {y : Option τ} {f : σ → Option σ'}
    {g : τ → Option τ'} {p : σ → τ} {q : σ' → τ'} (hx : x.map p = y)
    (hf : ∀ a, (f a).map q = g (p a)) : (x.bind f).map q = y.bind g := by
  subst hx
  cases x with
  | none => rfl
  | some a => exact hf a

namespace FdTimers

variable {Q : Type*} {s s' : FdTimers Q}

@[simp] theorem readTimerfd_sys (clock : Int) (s : FdTimers Q) :
    (s.readTimerfd clock).sys = s.sys := by
  rw [readTimerfd]
  split
  · split <;> rfl
  · rfl

variable [MinQueue Q Timer Timer.when]

@[simp] theorem rearm_sys (clock : Int) (s : FdTimers Q) : (s.rearm clock).sys = s.sys := by
  rw [rearm]
  split <;> rfl

theorem op_sys (s : FdTimers Q) (o : Int × TimerOp) : (s.op o).map sys = s.sys.op o.2 := by
  obtain ⟨clock, o⟩ := o
  cases o with
  | add t =>
      change (s.addTimerInLoop clock t).map sys = s.sys.add t
      rw [addTimerInLoop]
      cases s.sys.add t with
      | none => rfl
      | some sys' =>
          simp only [Option.bind_eq_bind, Option.bind_some, Option.pure_def, Option.map_some]
          split <;> rfl
  | cancel id => rfl

/-- What a callback does to the queue. -/
def ops (callback : TimerId → List (Int × TimerOp)) (id : TimerId) : List TimerOp :=
  (callback id).map Prod.snd

theorem runTimer_sys (callback : TimerId → List (Int × TimerOp)) (s : FdTimers Q) (t : Timer) :
    (s.runTimer callback t).map sys = s.sys.runTimer (ops callback) t := by
  rw [runTimer, TimerSys.runTimer]
  split
  · exact foldlM_map_eq op_sys _ _
  · rfl

theorem runTimers_sys (callback : TimerId → List (Int × TimerOp)) (l : List Timer)
    (s : FdTimers Q) :
    (l.foldlM (runTimer callback) s).map sys =
      l.foldlM (TimerSys.runTimer (ops callback)) s.sys := by
  have hmap := foldlM_map_eq (r := id) (runTimer_sys callback) l s
  rwa [List.map_id] at hmap

/-- The queue after the turns of a pass, with the timers re-inserted. -/
def resetQueue (now : Int) (expired : List Timer) (s : FdTimers Q) : FdTimers Q :=
  { s with sys := { s.sys with
    queue := { s.sys.queue with highestTask := none, lowestTask := none }.reset
      (expired ++ s.sys.queue.highestTask.toList ++ s.sys.queue.lowestTask.toList) now } }

theorem handleRead_parts {now readClock endClock : Int}
    {callback : TimerId → List (Int × TimerOp)}
    (h : s.handleRead now readClock endClock callback = some s') :
    ∃ s₁ s₂ s₃ : FdTimers Q,
      (s.sys.queue.getExpired now).1.highestTask.toList.foldlM (runTimer callback)
        { s.readTimerfd readClock with
          sys := { s.sys with queue := (s.sys.queue.getExpired now).1 } } = some s₁ ∧
      (s.sys.queue.getExpired now).2.foldlM (runTimer callback) s₁ = some s₂ ∧
      s₂.sys.queue.lowestTask.toList.foldlM (runTimer callback) s₂ = some s₃ ∧
      s' = (s₃.resetQueue now (s.sys.queue.getExpired now).2).rearm endClock := by
  unfold handleRead at h
  simp only [readTimerfd_sys, Option.bind_eq_bind, Option.pure_def] at h
  obtain ⟨s₁, h₁, h⟩ := Option.bind_eq_some_iff.mp h
  obtain ⟨s₂, h₂, h⟩ := Option.bind_eq_some_iff.mp h
  obtain ⟨s₃, h₃, h⟩ := Option.bind_eq_some_iff.mp h
  exact ⟨s₁, s₂, s₃, h₁, h₂, h₃, (Option.some.inj h).symm⟩

theorem handleRead_sys (now readClock endClock : Int)
    (callback : TimerId → List (Int × TimerOp)) (s : FdTimers Q) :
    (s.handleRead now readClock endClock callback).map sys =
      s.sys.handleRead now (ops callback) := by
  unfold handleRead TimerSys.handleRead
  simp only [readTimerfd_sys, Option.bind_eq_bind, Option.pure_def]
  refine map_bind_eq (runTimers_sys callback _ _) fun s₁ => ?_
  refine map_bind_eq (runTimers_sys callback _ s₁) fun s₂ => ?_
  refine map_bind_eq (runTimers_sys callback _ s₂) fun s₃ => ?_
  rw [Option.map_some, rearm_sys]

theorem exists_handleRead {now readClock endClock : Int}
    {callback : TimerId → List (Int × TimerOp)} (hs : Settled s.sys)
    (hfresh : AddsFresh s.sys now (ops callback)) :
    ∃ s', s.handleRead now readClock endClock callback = some s' := by
  obtain ⟨sys', hsys⟩ := Netpoll.exists_handleRead hs hfresh
  rw [← handleRead_sys now readClock endClock callback s] at hsys
  obtain ⟨s', hs', -⟩ := Option.map_eq_some_iff.mp hsys
  exact ⟨s', hs'⟩

end FdTimers

section erase

variable {Q : Type*} [MinQueue Q Timer Timer.when] {s s' : FdTimers Q}

/-- The steps of the queue behind a step. A new descriptor changes no timer. -/
def FdAct.erase : FdAct → List TimerAct
  | .op _ o => [.op o]
  | .handleRead now _ _ callback => [.handleRead now (FdTimers.ops callback)]
  | .reset _ => []

theorem FdStep.sys {a : FdAct} (h : FdStep s a s') : Run TimerStep s.sys a.erase s'.sys := by
  cases a with
  | op clock o =>
      have hop := FdTimers.op_sys s (clock, o)
      rw [show s.op (clock, o) = some s' from h] at hop
      exact .cons hop.symm (.nil _)
  | handleRead now readClock endClock callback =>
      have hpass := FdTimers.handleRead_sys now readClock endClock callback s
      rw [show s.handleRead now readClock endClock callback = some s' from h] at hpass
      exact .cons hpass.symm (.nil _)
  | reset clock =>
      obtain rfl := Option.some.inj h
      rw [FdTimers.reset, FdTimers.rearm_sys]
      exact .nil _

end erase

/-! ## When the descriptor wakes the loop -/

namespace FdTimers

variable {Q : Type*} [MinQueue Q Timer Timer.when] {s s' : FdTimers Q}

/-- The descriptor is armed, or has expired and was not read, for no later
than the earliest timer or 100 microseconds after the arming. -/
def Covered (s : FdTimers Q) : Prop :=
  ∀ t ∈ s.sys.queued, (∀ u ∈ s.sys.queued, t.when ≤ u.when) →
    ∃ a, s.timerFd = some a ∧ a.deadline ≤ max t.when (a.clock + 100000)

/-- Every value was one that arms the timer. -/
def Arms (s : FdTimers Q) : Prop := ∀ v ∈ s.values, v.Valid ∧ v ≠ .zero

omit [MinQueue Q Timer Timer.when] in
theorem resetTimerfd_timerFd (clock expiration : Int) (s : FdTimers Q) :
    (s.resetTimerfd clock expiration).timerFd =
      some ⟨howMuchTimeFromNow expiration clock, clock⟩ :=
  if_neg (howMuchTimeFromNow_ne_zero _ _)

theorem covered_resetTimerfd {clock expiration : Int}
    (hmin : ∀ t ∈ s.sys.queued, (∀ u ∈ s.sys.queued, t.when ≤ u.when) → expiration ≤ t.when) :
    (s.resetTimerfd clock expiration).Covered := by
  intro t ht hearliest
  refine ⟨_, resetTimerfd_timerFd .., (deadline_le expiration clock).trans ?_⟩
  exact max_le_max (hmin t ht hearliest) le_rfl

theorem covered_rearm (clock : Int) (s : FdTimers Q) : (s.rearm clock).Covered := by
  rw [rearm]
  split
  next u htop =>
      obtain ⟨p, hpop, rfl⟩ := Option.map_eq_some_iff.mp htop
      refine covered_resetTimerfd fun t ht _ => ?_
      exact MinQueue.pop_min _ p.1 p.2 hpop t ht
  next htop =>
      have hempty : s.sys.queued = 0 := MinQueue.pop_none _ (Option.map_eq_none_iff.mp htop)
      intro t ht
      rw [hempty] at ht
      exact absurd ht (Multiset.notMem_zero t)

theorem queued_add {t : Timer} {sys' : TimerSys Q} (h : s.sys.add t = some sys') :
    sys'.queued = t ::ₘ s.sys.queued := by
  unfold TimerSys.add at h
  split at h
  · cases h
  · obtain rfl := Option.some.inj h
    exact MinQueue.elems_push ..

/-- Adding a timer arms the descriptor when the earliest time changes, and
otherwise the old arming still covers it. -/
theorem Covered.addTimerInLoop (hs : s.Covered) {clock : Int} {t : Timer}
    (h : s.addTimerInLoop clock t = some s') : s'.Covered := by
  obtain ⟨sys', hadd, h⟩ := Option.bind_eq_some_iff.mp h
  have hqueued := queued_add hadd
  obtain rfl := Option.some.inj h
  cases htop : top? s.sys.queue.timers with
  | none =>
      have hempty : s.sys.queued = 0 := MinQueue.pop_none _ (Option.map_eq_none_iff.mp htop)
      rw [TimerQueue.insert, htop, if_pos rfl]
      refine covered_resetTimerfd fun u hu _ => ?_
      change u ∈ sys'.queued at hu
      rw [hqueued, hempty, Multiset.cons_zero, Multiset.mem_singleton] at hu
      exact hu ▸ le_rfl
  | some top =>
      obtain ⟨p, hpop, rfl⟩ := Option.map_eq_some_iff.mp htop
      have hmin : ∀ u ∈ s.sys.queued, p.1.when ≤ u.when := MinQueue.pop_min _ p.1 p.2 hpop
      have hmem : p.1 ∈ s.sys.queued := by
        change p.1 ∈ elems s.sys.queue.timers
        rw [MinQueue.elems_pop _ p.1 p.2 hpop]
        exact Multiset.mem_cons_self ..
      by_cases hlt : t.when < p.1.when
      · rw [TimerQueue.insert, htop, if_pos (decide_eq_true hlt)]
        refine covered_resetTimerfd fun u hu _ => ?_
        change u ∈ sys'.queued at hu
        rw [hqueued, Multiset.mem_cons] at hu
        rcases hu with rfl | hu
        · exact le_rfl
        · exact hlt.le.trans (hmin u hu)
      · rw [TimerQueue.insert, htop, if_neg (by simpa using hlt)]
        obtain ⟨a, ha, hle⟩ := hs p.1 hmem hmin
        intro u hu _
        change u ∈ sys'.queued at hu
        rw [hqueued, Multiset.mem_cons] at hu
        refine ⟨a, ha, hle.trans (max_le_max ?_ le_rfl)⟩
        rcases hu with rfl | hu
        · exact not_lt.mp hlt
        · exact hmin u hu

omit [MinQueue Q Timer Timer.when] in
theorem Arms.resetTimerfd (hs : s.Arms) (clock expiration : Int) :
    (s.resetTimerfd clock expiration).Arms := by
  intro v hv
  rcases List.mem_append.mp hv with hv | hv
  · exact hs v hv
  · rw [List.mem_singleton.mp hv]
    exact ⟨howMuchTimeFromNow_valid _ _, howMuchTimeFromNow_ne_zero _ _⟩

theorem Arms.rearm (hs : s.Arms) (clock : Int) : (s.rearm clock).Arms := by
  rw [FdTimers.rearm]
  split
  · exact hs.resetTimerfd _ _
  · exact hs

omit [MinQueue Q Timer Timer.when] in
theorem Arms.readTimerfd (hs : s.Arms) (clock : Int) : (s.readTimerfd clock).Arms := by
  rw [FdTimers.readTimerfd]
  split
  · split <;> exact hs
  · exact hs

theorem Arms.op (hs : s.Arms) {o : Int × TimerOp} (h : s.op o = some s') : s'.Arms := by
  obtain ⟨clock, o⟩ := o
  cases o with
  | add t =>
      obtain ⟨sys', -, h⟩ := Option.bind_eq_some_iff.mp h
      obtain rfl := Option.some.inj h
      split
      · exact Arms.resetTimerfd (s := { s with sys := sys' }) hs _ _
      · exact hs
  | cancel id =>
      obtain rfl := Option.some.inj h
      exact hs

theorem Arms.runTimer (hs : s.Arms) {callback : TimerId → List (Int × TimerOp)} {t : Timer}
    (h : s.runTimer callback t = some s') : s'.Arms := by
  unfold FdTimers.runTimer at h
  split at h
  · exact (Run.of_foldlM h).invariant (I := Arms) (fun _ _ _ hs ho => hs.op ho) hs
  · obtain rfl := Option.some.inj h
    exact hs

theorem Arms.runTimers {callback : TimerId → List (Int × TimerOp)} {l : List Timer}
    (h : l.foldlM (FdTimers.runTimer callback) s = some s') (hs : s.Arms) : s'.Arms :=
  (Run.of_foldlM h).invariant (I := Arms) (fun _ _ _ hs ht => hs.runTimer ht) hs

theorem Arms.exec (hs : s.Arms) {a : FdAct} (h : s.exec a = some s') : s'.Arms := by
  cases a with
  | op clock o => exact hs.op h
  | handleRead now readClock endClock callback =>
      obtain ⟨s₁, s₂, s₃, h₁, h₂, h₃, rfl⟩ := handleRead_parts h
      have hs₁ := Arms.runTimers h₁ (hs.readTimerfd readClock)
      have hs₃ := Arms.runTimers h₃ (Arms.runTimers h₂ hs₁)
      exact Arms.rearm (s := s₃.resetQueue now _) hs₃ endClock
  | reset clock =>
      obtain rfl := Option.some.inj h
      exact Arms.rearm (s := { s with timerFd := none }) hs clock

theorem Covered.exec (hs : s.Covered) {a : FdAct} (h : s.exec a = some s') : s'.Covered := by
  cases a with
  | op clock o =>
      cases o with
      | add t => exact hs.addTimerInLoop h
      | cancel id =>
          obtain rfl := Option.some.inj h
          exact hs
  | handleRead now readClock endClock callback =>
      obtain ⟨s₁, s₂, s₃, -, -, -, rfl⟩ := handleRead_parts h
      exact covered_rearm _ _
  | reset clock =>
      obtain rfl := Option.some.inj h
      exact covered_rearm _ _

theorem Covered.new : (FdTimers.new : FdTimers Q).Covered := by
  have hempty : (FdTimers.new : FdTimers Q).sys.queued = 0 := MinQueue.elems_empty
  intro t ht
  rw [hempty] at ht
  exact absurd ht (Multiset.notMem_zero t)

/-- Every pass whose callbacks add timers with new ids returns. -/
def Returns (s : FdTimers Q) : Prop :=
  ∀ now readClock endClock callback, AddsFresh s.sys now (ops callback) →
    ∃ s', s.handleRead now readClock endClock callback = some s'

theorem settled_of_run {acts : List FdAct} (hrun : Run (FdStep (Q := Q)) .new acts s) :
    Settled s.sys :=
  hrun.invariant (I := fun s : FdTimers Q => Settled s.sys)
    (fun _ _ _ hs hstep => hstep.sys.invariant (fun _ _ _ hs h => hs.step h) hs) .new

/-- In every run, with clocks that show anything, the loop is woken for its
earliest timer in time, and no setting ever disarms the descriptor. The
passes return. -/
theorem never_sleeps_past (acts : List FdAct) :
    Throughout (FdStep (Q := Q)) (fun s => s.Covered ∧ s.Arms ∧ s.Returns) .new acts := by
  intro pre s hpre hrun
  have hboth : s.Covered ∧ s.Arms := by
    refine hrun.invariant (I := fun s => s.Covered ∧ s.Arms) ?_
      ⟨Covered.new, fun v hv => absurd hv List.not_mem_nil⟩
    rintro s a s' ⟨hcovered, harms⟩ hstep
    exact ⟨hcovered.exec hstep, harms.exec hstep⟩
  exact ⟨hboth.1, hboth.2, fun _ _ _ _ => exists_handleRead (settled_of_run hrun)⟩

/-- Timer 1, which repeats every second, is due; its callback adds timer 2. -/
def oneSecond : List FdAct :=
  [.op 0 (.add ⟨1, 1000000000, 1000000000, false, false⟩),
    .handleRead 1000000007 1000000008 1000000009 fun _ =>
      [(1000000008, .add ⟨2, 1500000000, 0, false, false⟩)]]

/-- The descriptor is set for timer 2, which is the earliest one then. -/
theorem never_sleeps_past_oneSecond : ∃ s : FdTimers (List Timer), Run FdStep .new oneSecond s ∧
    s.sys.queue.timers.map Timer.id = [2, 1] ∧ s.Covered ∧
      s.timerFd = some ⟨⟨0, 499999000⟩, 1000000009⟩ := by
  obtain ⟨s, hs, hids, hfd⟩ : ∃ s : FdTimers (List Timer), oneSecond.foldlM exec .new = some s ∧
      s.sys.queue.timers.map Timer.id = [2, 1] ∧
      s.timerFd = some ⟨⟨0, 499999000⟩, 1000000009⟩ :=
    ⟨_, rfl, by decide +kernel, by decide +kernel⟩
  have hrun : Run FdStep .new oneSecond s := .of_foldlM hs
  exact ⟨s, hrun, hids, (never_sleeps_past oneSecond oneSecond s List.prefix_rfl hrun).1, hfd⟩

end FdTimers

end Netpoll
