import Netpoll.TimerLaw

/-!
# Timers of an event loop

`runAt`, `runAfter` and `runEvery` make a timer, take its id from the
global counter and hand `addTimerInLoop` to the loop; `cancelTimer` hands
over the removal of the id. On the loop thread both act at once, from
another thread they go through `m_funcs`, which the loop serves in order.
`EventLoop::cancelTimer` does nothing at all unless the loop is running.

The steps of the machine are the calls, the functions the loop takes from
the queue, and the parts of an expiry pass: calls of the loop thread made
by a callback or by a function fall between two such steps.
-/

namespace Netpoll

open MinQueue (elems)

/-- The timer that a queued function is about. -/
def TimerOp.id : TimerOp → TimerId
  | .add t => t.id
  | .cancel id => id

/-- The locals of an expiry pass that is under way. -/
structure PassFrame where
  now : Int
  expired : List Timer
  /-- The timers whose turn has not come yet. -/
  todo : List Timer

structure LoopTimers (Q : Type*) where
  queue : TimerQueue Q
  pass : Option PassFrame
  /-- The timer functions in `m_funcs`. -/
  funcs : List TimerOp
  looping : Bool
  quit : Bool
  timersCreated : Nat
  /-- The ids that `cancelTimer` was called for after they were given out. -/
  asked : Finset TimerId
  trace : List TimerEvent

inductive LoopAct
  /-- `runAt`, `runAfter` and `runEvery`, on the loop thread or another. -/
  | addTimer (inLoop : Bool) (when interval : Int) (h l : Bool)
  | cancelTimer (inLoop : Bool) (id : TimerId)
  | loop
  | quit
  /-- The loop sees the quit flag and returns. -/
  | leave
  /-- The loop runs the first function of the queue. -/
  | runFunc
  | beginPass (now : Int)
  | turn
  | endPass

namespace LoopTimers

variable {Q : Type*} [MinQueue Q Timer Timer.when]

def new : LoopTimers Q := ⟨.new, none, [], false, false, 0, ∅, []⟩

def isRunning (s : LoopTimers Q) : Bool := s.looping && !s.quit

def log (e : TimerEvent) (s : LoopTimers Q) : LoopTimers Q := { s with trace := s.trace ++ [e] }

/-- What the two functions that are queued do when they run. -/
def apply (s : LoopTimers Q) : TimerOp → LoopTimers Q
  | .add t => { s with queue := s.queue.addTimerInLoop t }.log (.added t)
  | .cancel id => { s with queue := s.queue.cancelTimer id }.log (.cancelled id)

def runInLoop (inLoop : Bool) (f : TimerOp) (s : LoopTimers Q) : LoopTimers Q :=
  if inLoop then s.apply f else { s with funcs := s.funcs ++ [f] }

def addTimer (inLoop : Bool) (when interval : Int) (h l : Bool) (s : LoopTimers Q) :
    LoopTimers Q :=
  let id := s.timersCreated + 1
  { s with timersCreated := id }.runInLoop inLoop (.add ⟨id, when, interval, h, l⟩)

def cancelTimer (inLoop : Bool) (id : TimerId) (s : LoopTimers Q) : LoopTimers Q :=
  if s.isRunning then s.runInLoop inLoop (.cancel id) else s

/-- The call comes after the one that returned the id. -/
def ask (id : TimerId) (s : LoopTimers Q) : LoopTimers Q :=
  if 0 < id ∧ id ≤ s.timersCreated then { s with asked := insert id s.asked } else s

/-- The two priority tasks are moved out with the others; nothing looks at
them again before the pass is over. -/
def beginPass (now : Int) (s : LoopTimers Q) : LoopTimers Q :=
  let (queue, expired) := s.queue.getExpired now
  { s with
    queue := { queue with highestTask := none, lowestTask := none }
    pass := some
      { now := now
        expired := expired ++ queue.highestTask.toList ++ queue.lowestTask.toList
        todo := queue.highestTask.toList ++ expired ++ queue.lowestTask.toList } }

def exec (s : LoopTimers Q) : LoopAct → Option (LoopTimers Q)
  | .addTimer inLoop when interval h l =>
    if h && l then none else some (s.addTimer inLoop when interval h l)
  | .cancelTimer inLoop id => some ((s.cancelTimer inLoop id).ask id)
  | .loop => if s.looping then none else some { s with looping := true, quit := false }
  | .quit => some { s with quit := true }
  | .leave =>
    if s.looping && s.quit && s.pass.isNone then some { s with looping := false } else none
  | .runFunc =>
    match s.funcs with
    | [] => none
    | f :: funcs =>
      if s.looping && s.pass.isNone then some ({ s with funcs := funcs }.apply f) else none
  | .beginPass now => if s.looping && s.pass.isNone then some (s.beginPass now) else none
  | .turn =>
    match s.pass with
    | some ⟨now, expired, t :: todo⟩ =>
      some ({ s with pass := some ⟨now, expired, todo⟩ }.log
        (.turn t (decide (t.id ∈ s.queue.timerIdSet))))
    | _ => none
  | .endPass =>
    match s.pass with
    | some ⟨now, expired, []⟩ =>
      some { s with queue := s.queue.reset expired now, pass := none }
    | _ => none

end LoopTimers

def LoopStep {Q : Type*} [MinQueue Q Timer Timer.when] (s : LoopTimers Q) (a : LoopAct)
    (t : LoopTimers Q) : Prop :=
  s.exec a = some t

/-! ## The property -/

/-- The function adds the timer `id`. -/
def TimerOp.adds (id : TimerId) : TimerOp → Bool
  | .add t => decide (t.id = id)
  | _ => false

section property

variable {Q : Type*} [MinQueue Q Timer Timer.when]

namespace LoopTimers

/-- `addTimerInLoop` of `id` has not run yet. -/
def AddQueued (id : TimerId) (s : LoopTimers Q) : Prop := ∃ t, .add t ∈ s.funcs ∧ t.id = id

/-- Some request about `id` has not been processed. -/
def Pending (id : TimerId) (s : LoopTimers Q) : Prop := ∃ f ∈ s.funcs, f.id = id

/-- The timer can still run. -/
def Alive (id : TimerId) (s : LoopTimers Q) : Prop :=
  s.AddQueued id ∨ id ∈ s.queue.timerIdSet

/-- A call of `cancelTimer` for a timer that can still run finds the loop
running, and on the loop thread it finds the timer added. -/
def CancelsInTime (s : LoopTimers Q) : LoopAct → Prop
  | .cancelTimer inLoop id => s.Alive id → s.isRunning ∧ (inLoop → ¬ s.AddQueued id)
  | _ => True

omit [MinQueue Q Timer Timer.when] in
theorem addQueued_iff (id : TimerId) (s : LoopTimers Q) :
    s.AddQueued id ↔ ∃ f ∈ s.funcs, f.adds id = true := by
  constructor
  · rintro ⟨t, ht, rfl⟩
    exact ⟨.add t, ht, decide_eq_true rfl⟩
  · rintro ⟨f, hf, hid⟩
    cases f with
    | add t => exact ⟨t, hf, of_decide_eq_true hid⟩
    | _ => cases hid

instance (id : TimerId) (s : LoopTimers Q) : Decidable (s.AddQueued id) :=
  decidable_of_iff _ (addQueued_iff id s).symm

instance (s : LoopTimers Q) (a : LoopAct) : Decidable (s.CancelsInTime a) := by
  cases a <;> simp only [CancelsInTime, Alive] <;> infer_instance

end LoopTimers

/-- Along `acts`, once `cancelTimer` was called for a timer and nothing
about it is pending, its callback is never run again. -/
def CancelHolds (Q : Type*) [MinQueue Q Timer Timer.when] (acts : List LoopAct) : Prop :=
  ∀ pre rest (s t : LoopTimers Q) id, pre ++ rest <+: acts → Run LoopStep .new pre s →
    Run LoopStep s rest t → id ∈ s.asked → ¬ s.Pending id →
    runsOf t.trace id = runsOf s.trace id

/-! ## A timer that can never run again -/

theorem timerIdSet_getExpiredLoop (now : Int) (fuel : Nat) (q : TimerQueue Q)
    (expired : List Timer) :
    (q.getExpiredLoop now fuel expired).1.timerIdSet = q.timerIdSet := by
  induction fuel generalizing q expired with
  | zero => rfl
  | succ fuel ih =>
      rw [TimerQueue.getExpiredLoop]
      split
      · rfl
      · split_ifs
        · exact ih _ _
        · exact ih _ _
        · exact ih _ _
        · rfl

theorem mem_timerIdSet_reset {now : Int} {expired : List Timer} {q : TimerQueue Q} {id : TimerId}
    (h : id ∈ (q.reset expired now).timerIdSet) : id ∈ q.timerIdSet := by
  induction expired generalizing q with
  | nil => exact h
  | cons t expired ih =>
      have hmem : id ∈ (q.resetTimer now t).timerIdSet := ih h
      unfold TimerQueue.resetTimer at hmem
      split_ifs at hmem
      · exact hmem
      · exact Finset.mem_of_mem_erase hmem
      · exact hmem

namespace LoopTimers

variable {s t : LoopTimers Q} {id : TimerId} {a : LoopAct} {f : TimerOp}

/-- A step of the loop itself: no request is made or taken, no id becomes
valid, and a timer that runs has a valid one. -/
structure Calm (s t : LoopTimers Q) : Prop where
  timersCreated : t.timersCreated = s.timersCreated
  funcs : t.funcs = s.funcs
  asked : t.asked = s.asked
  timerIdSet : t.queue.timerIdSet ⊆ s.queue.timerIdSet
  trace : t.trace = s.trace ∨
    ∃ u : Timer, t.trace = s.trace ++ [.turn u (decide (u.id ∈ s.queue.timerIdSet))]

theorem exec_cases (hs : s.exec a = some t) :
    (∃ inLoop, ∃ u : Timer, u.id = s.timersCreated + 1 ∧
      t = { s with timersCreated := u.id }.runInLoop inLoop (.add u)) ∨
    (∃ inLoop i, a = .cancelTimer inLoop i ∧ t = (s.cancelTimer inLoop i).ask i) ∨
    (∃ f rest, s.funcs = f :: rest ∧ t = { s with funcs := rest }.apply f) ∨
    Calm s t := by
  cases a with
  | addTimer inLoop when interval hi lo =>
      simp only [exec, Option.ite_none_left_eq_some, Option.some.injEq] at hs
      exact Or.inl ⟨inLoop, ⟨s.timersCreated + 1, when, interval, hi, lo⟩, rfl, hs.2.symm⟩
  | cancelTimer inLoop i => exact Or.inr (Or.inl ⟨inLoop, i, rfl, (Option.some.inj hs).symm⟩)
  | loop =>
      simp only [exec, Option.ite_none_left_eq_some, Option.some.injEq] at hs
      obtain ⟨-, rfl⟩ := hs
      exact Or.inr (Or.inr (Or.inr ⟨rfl, rfl, rfl, Finset.Subset.refl _, Or.inl rfl⟩))
  | quit =>
      obtain rfl := Option.some.inj hs
      exact Or.inr (Or.inr (Or.inr ⟨rfl, rfl, rfl, Finset.Subset.refl _, Or.inl rfl⟩))
  | leave =>
      simp only [exec, Option.ite_none_right_eq_some, Option.some.injEq] at hs
      obtain ⟨-, rfl⟩ := hs
      exact Or.inr (Or.inr (Or.inr ⟨rfl, rfl, rfl, Finset.Subset.refl _, Or.inl rfl⟩))
  | runFunc =>
      simp only [exec] at hs
      split at hs
      · cases hs
      next f rest hfuncs =>
          simp only [Option.ite_none_right_eq_some, Option.some.injEq] at hs
          exact Or.inr (Or.inr (Or.inl ⟨f, rest, hfuncs, hs.2.symm⟩))
  | beginPass now =>
      simp only [exec, Option.ite_none_right_eq_some, Option.some.injEq] at hs
      obtain ⟨-, rfl⟩ := hs
      refine Or.inr (Or.inr (Or.inr ⟨rfl, rfl, rfl, ?_, Or.inl rfl⟩))
      change (s.queue.getExpired now).1.timerIdSet ⊆ _
      rw [TimerQueue.getExpired, timerIdSet_getExpiredLoop]
  | turn =>
      simp only [exec] at hs
      split at hs
      · obtain rfl := Option.some.inj hs
        exact Or.inr (Or.inr (Or.inr ⟨rfl, rfl, rfl, Finset.Subset.refl _, Or.inr ⟨_, rfl⟩⟩))
      · cases hs
  | endPass =>
      simp only [exec] at hs
      split at hs
      · obtain rfl := Option.some.inj hs
        exact Or.inr (Or.inr (Or.inr
          ⟨rfl, rfl, rfl, fun _ hmem => mem_timerIdSet_reset hmem, Or.inl rfl⟩))
      · cases hs

/-- The id was given out, it is not valid, and no function will make it so. -/
structure Dead (id : TimerId) (s : LoopTimers Q) : Prop where
  created : id ≤ s.timersCreated
  invalid : id ∉ s.queue.timerIdSet
  notQueued : ¬ s.AddQueued id

theorem Dead.apply (h : Dead id s) (hne : ∀ u, f = .add u → u.id ≠ id) : Dead id (s.apply f) := by
  cases f with
  | add u =>
      refine ⟨h.created, fun hmem => ?_, h.notQueued⟩
      rcases Finset.mem_insert.mp hmem with heq | hmem
      · exact hne u rfl heq.symm
      · exact h.invalid hmem
  | cancel i => exact ⟨h.created, fun hmem => h.invalid (Finset.mem_of_mem_erase hmem), h.notQueued⟩

theorem Dead.runInLoop (h : Dead id s) (hne : ∀ u, f = .add u → u.id ≠ id) (inLoop : Bool) :
    Dead id (s.runInLoop inLoop f) := by
  cases inLoop with
  | true => exact h.apply hne
  | false =>
      refine ⟨h.created, h.invalid, ?_⟩
      rintro ⟨u, hu, hid⟩
      rcases List.mem_append.mp hu with hu | hu
      · exact h.notQueued ⟨u, hu, hid⟩
      · exact hne u (List.mem_singleton.mp hu).symm hid

omit [MinQueue Q Timer Timer.when] in
theorem Dead.ask (h : Dead id s) (i : TimerId) : Dead id (s.ask i) := by
  unfold LoopTimers.ask
  split
  · exact ⟨h.created, h.invalid, h.notQueued⟩
  · exact h

theorem Dead.exec (h : Dead id s) (hs : s.exec a = some t) : Dead id t := by
  rcases exec_cases hs with ⟨inLoop, u, hu, rfl⟩ | ⟨inLoop, i, -, rfl⟩ |
    ⟨f, rest, hfuncs, rfl⟩ | hcalm
  · have hcreated := h.created
    have hnew : Dead id { s with timersCreated := u.id } :=
      ⟨hu ▸ Nat.le_succ_of_le hcreated, h.invalid, h.notQueued⟩
    refine hnew.runInLoop ?_ inLoop
    rintro v hv rfl
    obtain rfl := TimerOp.add.inj hv
    exact absurd hcreated (hu ▸ Nat.not_succ_le_self _)
  · have hcancel : Dead id (s.cancelTimer inLoop i) := by
      unfold LoopTimers.cancelTimer
      split
      · exact h.runInLoop (fun u hu => absurd hu (by simp)) inLoop
      · exact h
    exact hcancel.ask i
  · have hrest : Dead id { s with funcs := rest } := by
      refine ⟨h.created, h.invalid, ?_⟩
      rintro ⟨u, hu, hid⟩
      exact h.notQueued ⟨u, hfuncs ▸ List.mem_cons_of_mem f hu, hid⟩
    refine hrest.apply ?_
    rintro u rfl hid
    exact h.notQueued ⟨u, hfuncs ▸ List.mem_cons_self, hid⟩
  · refine ⟨hcalm.timersCreated ▸ h.created, fun hmem => h.invalid (hcalm.timerIdSet hmem), ?_⟩
    rw [AddQueued, hcalm.funcs]
    exact h.notQueued

theorem runs_runInLoop (s : LoopTimers Q) (inLoop : Bool) (f : TimerOp) :
    runsOf (s.runInLoop inLoop f).trace id = runsOf s.trace id := by
  cases inLoop with
  | true => cases f <;> exact runsOf_append _ _ _
  | false => rfl

theorem Dead.runs_exec (h : Dead id s) (hs : s.exec a = some t) :
    runsOf t.trace id = runsOf s.trace id := by
  rcases exec_cases hs with ⟨inLoop, u, hu, rfl⟩ | ⟨inLoop, i, -, rfl⟩ |
    ⟨f, rest, hfuncs, rfl⟩ | hcalm
  · exact runs_runInLoop _ inLoop _
  · have hask : ((s.cancelTimer inLoop i).ask i).trace = (s.cancelTimer inLoop i).trace := by
      unfold LoopTimers.ask
      split <;> rfl
    rw [hask]
    unfold LoopTimers.cancelTimer
    split
    · exact runs_runInLoop _ inLoop _
    · rfl
  · exact runs_runInLoop { s with funcs := rest } true f
  · rcases hcalm.trace with htrace | ⟨u, htrace⟩
    · rw [htrace]
    · -- the turn of `id` itself would find it invalid
      have hnone : runsOf [.turn u (decide (u.id ∈ s.queue.timerIdSet))] id = 0 := by
        by_cases hu : u.id = id
        · have hmem : decide (u.id ∈ s.queue.timerIdSet) = false := by
            rw [decide_eq_false_iff_not, hu]
            exact h.invalid
          rw [hmem]
          rfl
        · simp [runsOf, hu]
      rw [htrace, runsOf_append, hnone, Nat.add_zero]

/-- The functions still in the queue will leave `id` without a valid id. -/
structure Owed (id : TimerId) (s : LoopTimers Q) : Prop where
  created : id ≤ s.timersCreated
  behind : ∀ l u r, s.funcs = l ++ .add u :: r → u.id = id → .cancel id ∈ r
  valid : id ∈ s.queue.timerIdSet → .cancel id ∈ s.funcs

omit [MinQueue Q Timer Timer.when] in
theorem Owed.of_dead (h : Dead id s) : Owed id s := by
  refine ⟨h.created, ?_, fun hmem => absurd hmem h.invalid⟩
  rintro l u r hfuncs hid
  exact absurd ⟨u, by simp [hfuncs], hid⟩ h.notQueued

omit [MinQueue Q Timer Timer.when] in
theorem Owed.dead (h : Owed id s) (hp : ¬ s.Pending id) : Dead id s := by
  refine ⟨h.created, fun hmem => hp ⟨_, h.valid hmem, rfl⟩, ?_⟩
  rintro ⟨u, hu, hid⟩
  exact hp ⟨_, hu, hid⟩

theorem Owed.apply (h : Owed id s) (hne : ∀ u, f = .add u → u.id ≠ id) : Owed id (s.apply f) := by
  cases f with
  | add u =>
      refine ⟨h.created, h.behind, fun hmem => ?_⟩
      rcases Finset.mem_insert.mp hmem with heq | hmem
      · exact absurd heq.symm (hne u rfl)
      · exact h.valid hmem
  | cancel i => exact ⟨h.created, h.behind, fun hmem => h.valid (Finset.mem_of_mem_erase hmem)⟩

theorem Owed.runInLoop (h : Owed id s) (hne : ∀ u, f = .add u → u.id ≠ id) (inLoop : Bool) :
    Owed id (s.runInLoop inLoop f) := by
  cases inLoop with
  | true => exact h.apply hne
  | false =>
      refine ⟨h.created, ?_, fun hmem => List.mem_append_left _ (h.valid hmem)⟩
      intro l u r hfuncs hid
      rcases List.eq_nil_or_concat r with rfl | ⟨r', g, rfl⟩
      · obtain ⟨-, hf⟩ := List.append_inj' hfuncs rfl
        exact absurd hid (hne u (List.singleton_inj.mp hf))
      · rw [List.concat_eq_append, ← List.cons_append, ← List.append_assoc] at hfuncs
        obtain ⟨hfront, -⟩ := List.append_inj' hfuncs rfl
        rw [List.concat_eq_append]
        exact List.mem_append_left _ (h.behind l u r' hfront hid)

theorem Owed.runFunc (h : Owed id s) {rest : List TimerOp} (hfuncs : s.funcs = f :: rest) :
    Owed id ({ s with funcs := rest }.apply f) := by
  have hbehind : ∀ l u r, rest = l ++ .add u :: r → u.id = id → .cancel id ∈ r := by
    rintro l u r rfl hid
    exact h.behind (f :: l) u r hfuncs hid
  cases f with
  | add u =>
      refine ⟨h.created, hbehind, fun hmem => ?_⟩
      rcases Finset.mem_insert.mp hmem with heq | hmem
      · exact h.behind [] u rest hfuncs heq.symm
      · have := h.valid hmem
        rw [hfuncs, List.mem_cons] at this
        exact this.resolve_left (by simp)
  | cancel i =>
      refine ⟨h.created, hbehind, fun hmem => ?_⟩
      obtain ⟨hne, hmem⟩ := Finset.mem_erase.mp hmem
      have := h.valid hmem
      rw [hfuncs, List.mem_cons] at this
      exact this.resolve_left fun heq => hne (TimerOp.cancel.inj heq)

omit [MinQueue Q Timer Timer.when] in
theorem Owed.ask (h : Owed id s) (i : TimerId) : Owed id (s.ask i) := by
  unfold LoopTimers.ask
  split
  · exact ⟨h.created, h.behind, h.valid⟩
  · exact h

theorem Owed.exec (h : Owed id s) (hs : s.exec a = some t) : Owed id t := by
  rcases exec_cases hs with ⟨inLoop, u, hu, rfl⟩ | ⟨inLoop, i, -, rfl⟩ |
    ⟨f, rest, hfuncs, rfl⟩ | hcalm
  · have hcreated := h.created
    have hnew : Owed id { s with timersCreated := u.id } :=
      ⟨hu ▸ Nat.le_succ_of_le hcreated, h.behind, h.valid⟩
    refine hnew.runInLoop ?_ inLoop
    rintro v hv rfl
    obtain rfl := TimerOp.add.inj hv
    exact absurd hcreated (hu ▸ Nat.not_succ_le_self _)
  · have hcancel : Owed id (s.cancelTimer inLoop i) := by
      unfold LoopTimers.cancelTimer
      split
      · exact h.runInLoop (fun u hu => absurd hu (by simp)) inLoop
      · exact h
    exact hcancel.ask i
  · exact h.runFunc hfuncs
  · refine ⟨hcalm.timersCreated ▸ h.created, ?_, fun hmem => ?_⟩
    · rw [hcalm.funcs]
      exact h.behind
    · rw [hcalm.funcs]
      exact h.valid (hcalm.timerIdSet hmem)

/-- A call that comes in time leaves the timer dead, or with its removal
queued behind everything that could make it valid. -/
theorem owed_cancelTimer {inLoop : Bool} (hcreated : id ≤ s.timersCreated)
    (hg : s.CancelsInTime (.cancelTimer inLoop id)) : Owed id (s.cancelTimer inLoop id) := by
  by_cases halive : s.Alive id
  · obtain ⟨hrun, hadd⟩ := hg halive
    rw [LoopTimers.cancelTimer, if_pos hrun]
    cases inLoop with
    | true => exact .of_dead ⟨hcreated, Finset.notMem_erase id _, hadd rfl⟩
    | false =>
        refine ⟨hcreated, ?_, fun _ => by simp [LoopTimers.runInLoop]⟩
        intro l u r hfuncs hid
        rcases List.eq_nil_or_concat r with rfl | ⟨r', g, rfl⟩
        · obtain ⟨-, hlast⟩ := List.append_inj' hfuncs rfl
          cases hlast
        · rw [List.concat_eq_append, ← List.cons_append, ← List.append_assoc] at hfuncs
          obtain ⟨-, hlast⟩ := List.append_inj' hfuncs rfl
          rw [List.concat_eq_append, ← hlast]
          exact List.mem_append_right _ List.mem_cons_self
  · have hdead : Dead id s :=
      ⟨hcreated, fun hmem => halive (Or.inr hmem), fun hadd => halive (Or.inl hadd)⟩
    have howed : Owed id s := .of_dead hdead
    unfold LoopTimers.cancelTimer
    split
    · exact howed.runInLoop (fun u hu => absurd hu (by simp)) inLoop
    · exact howed

/-- Every timer that was cancelled is taken care of. -/
def Settles (s : LoopTimers Q) : Prop := ∀ id ∈ s.asked, Owed id s

theorem Settles.step (h : Settles s) (hg : s.CancelsInTime a) (hs : s.exec a = some t) :
    Settles t := by
  intro id hid
  by_cases hold : id ∈ s.asked
  · exact (h id hold).exec hs
  · rcases exec_cases hs with ⟨inLoop, u, hu, rfl⟩ | ⟨inLoop, i, rfl, rfl⟩ |
      ⟨f, rest, hfuncs, rfl⟩ | hcalm
    · cases inLoop <;> exact absurd hid hold
    · have hasked : (s.cancelTimer inLoop i).asked = s.asked ∧
          (s.cancelTimer inLoop i).timersCreated = s.timersCreated := by
        unfold LoopTimers.cancelTimer
        split
        · cases inLoop <;> exact ⟨rfl, rfl⟩
        · exact ⟨rfl, rfl⟩
      unfold ask at hid
      split at hid
      next hgiven =>
          -- the only new one is the timer of this call
          rcases Finset.mem_insert.mp hid with rfl | hid
          · exact (owed_cancelTimer (hasked.2 ▸ hgiven.2) hg).ask id
          · exact absurd (hasked.1 ▸ hid) hold
      · exact absurd (hasked.1 ▸ hid) hold
    · cases f <;> exact absurd hid hold
    · exact absurd (hcalm.asked ▸ hid) hold

end LoopTimers

/-- If every `cancelTimer` comes in time, none is lost. -/
theorem cancel_holds (acts : List LoopAct)
    (h : EveryStep (LoopStep (Q := Q)) LoopTimers.CancelsInTime .new acts) :
    CancelHolds Q acts := by
  intro pre rest s t id hpre hrun hrest hasked hpending
  have hsettles : s.Settles := by
    have hg := h.guarded ((List.prefix_append pre rest).trans hpre) hrun
    refine hg.invariant (fun a l b ha hb => ha.step hb.2 hb.1) ?_
    intro i hi
    exact absurd hi (Finset.notMem_empty i)
  have hdead : LoopTimers.Dead id s := (hsettles id hasked).dead hpending
  have hinv : LoopTimers.Dead id t ∧ runsOf t.trace id = runsOf s.trace id := by
    refine hrest.invariant (I := fun u => LoopTimers.Dead id u ∧
      runsOf u.trace id = runsOf s.trace id) ?_ ⟨hdead, rfl⟩
    intro a l b ha hb
    exact ⟨ha.1.exec hb, (ha.1.runs_exec hb).trans ha.2⟩
  exact hinv.2

end property

theorem cancel_holds_otherThread :
    CancelHolds (List Timer)
      [.loop, .addTimer false 5 0 false false, .cancelTimer false 1, .runFunc, .runFunc,
        .beginPass 10, .turn, .endPass] :=
  cancel_holds _ (everyStep_of_stepsMeet (by decide))

theorem not_cancelHolds_of_run {pre rest : List LoopAct} {s t : LoopTimers (List Timer)}
    (hpre : pre.foldlM LoopTimers.exec .new = some s) (hasked : 1 ∈ s.asked)
    (hfuncs : s.funcs = []) (hbefore : runsOf s.trace 1 = 0)
    (hrest : rest.foldlM LoopTimers.exec s = some t) (hafter : runsOf t.trace 1 = 1) :
    ¬ CancelHolds (List Timer) (pre ++ rest) := by
  intro h
  have hpending : ¬ s.Pending 1 := by
    rintro ⟨f, hf, -⟩
    rw [hfuncs] at hf
    cases hf
  have heq := h pre rest s t 1 (List.prefix_refl _) (.of_foldlM hpre) (.of_foldlM hrest) hasked
    hpending
  rw [hbefore, hafter] at heq
  exact absurd heq (by simp)

/-- A timer made before `loop()` is called, and cancelled before that too,
runs; so does one that the loop thread cancels while the function that
adds it is still in the queue. -/
theorem not_cancel_holds :
    ¬ CancelHolds (List Timer)
      ([.addTimer true 5 0 false false, .cancelTimer true 1] ++ [.loop, .beginPass 10, .turn]) ∧
    ¬ CancelHolds (List Timer)
      ([.loop, .addTimer false 5 0 false false, .cancelTimer true 1, .runFunc] ++
        [.beginPass 10, .turn]) :=
  ⟨not_cancelHolds_of_run rfl (by decide) rfl rfl rfl rfl,
    not_cancelHolds_of_run rfl (by decide) rfl rfl rfl rfl⟩

end Netpoll
