import Mathlib.Algebra.Order.Group.Multiset
import Mathlib.Data.Multiset.Bind
import Netpoll.Precedes
import Netpoll.TimerQueue

/-!
# What an expiry pass runs

`PassLaw` says what one pass does, in terms of the log: which timers get a
turn and in which order, which of the turns run the callback, and what the
queue holds afterwards, whatever the callbacks of the pass add and cancel.
`Once` says of the whole log that a one-shot timer runs at most once. A pass
returns whatever its callbacks add, as long as each new timer has an id of
its own (`exists_handleRead`).

Between two passes `Settled` holds. Inside a pass the timers taken out are
still alive, so the invariant is stated for a pool of timers (`Pool`): the
queue together with those.
-/

namespace Netpoll

open MinQueue (elems push pop? top?)

/-! ## The law -/

/-- The timer `id` was cancelled after it had been added. -/
def Cancelled (tr : List TimerEvent) (id : TimerId) : Prop :=
  ∃ t : Timer, t.id = id ∧ Precedes tr (.added t) (.cancelled id)

/-- The timers that had a turn. -/
def turnsOf (tr : List TimerEvent) : List Timer :=
  tr.filterMap fun
    | .turn t _ => some t
    | _ => none

/-- The timers that were added. -/
def addedOf (tr : List TimerEvent) : List Timer :=
  tr.filterMap fun
    | .added t => some t
    | _ => none

/-- How often the callback of `id` was run. -/
def runsOf (tr : List TimerEvent) (id : TimerId) : Nat :=
  tr.countP fun
    | .turn t ran => ran && t.id == id
    | _ => false

/-- Each turn runs its timer exactly when that was not cancelled before. -/
def RunsLive (before evs : List TimerEvent) : Prop :=
  ∀ l r t ran, evs = l ++ .turn t ran :: r → (ran = true ↔ ¬ Cancelled (before ++ l) t.id)

open scoped Classical in
/-- A pass at time `now`, that begins with the timers `queue` and the log
`before`, adds `evs` to the log and ends with the timers `after`. -/
structure PassLaw (queue : Multiset Timer) (before : List TimerEvent) (now : Int)
    (evs : List TimerEvent) (after : Multiset Timer) : Prop where
  distinct : (queue.map Timer.id).Nodup
  turns : (turnsOf evs : Multiset Timer) = queue.filter (·.when < now)
  order : (turnsOf evs).Pairwise (·.when ≤ ·.when)
  runs : RunsLive before evs
  fresh : ∀ t ∈ addedOf evs, ∀ u ∈ queue, t.id ≠ u.id
  rearmed : ∀ t ∈ queue, t.when < now → t.isRepeat →
    (t.restart now ∈ after ↔ ¬ Cancelled (before ++ evs) t.id)
  after : after = queue.filter (now ≤ ·.when) + addedOf evs +
    (queue.filter fun t =>
      t.when < now ∧ t.isRepeat ∧ ¬ Cancelled (before ++ evs) t.id).map (·.restart now)

/-- A one-shot timer runs at most once. -/
def Once (tr : List TimerEvent) : Prop :=
  ∀ t ∈ addedOf tr, ¬ t.isRepeat → runsOf tr t.id ≤ 1

/-- The ids of the timers that a callback adds. -/
def addsOf (ops : List TimerOp) : List TimerId :=
  ops.filterMap fun
    | .add t => some t.id
    | .cancel _ => none

/-- The timers that the callbacks of a pass add have ids that nobody had
before, and no two of them the same. -/
structure AddsFresh {Q : Type*} [MinQueue Q Timer Timer.when] (s : TimerSys Q) (now : Int)
    (callback : TimerId → List TimerOp) : Prop where
  nodup : ((s.queued.filter (·.when < now)).bind fun t =>
    (addsOf (callback t.id) : Multiset TimerId)).Nodup
  unused : ∀ t ∈ s.queued, t.when < now → ∀ id ∈ addsOf (callback t.id), id ∉ s.used

/-- Every pass whose callbacks add timers with new ids returns. -/
def Returns {Q : Type*} [MinQueue Q Timer Timer.when] (s : TimerSys Q) : Prop :=
  ∀ now callback, AddsFresh s now callback → ∃ s', s.handleRead now callback = some s'

/-! ## The log -/

section log

variable {tr evs : List TimerEvent} {e : TimerEvent} {t : Timer} {id : TimerId}

theorem turnsOf_append (tr evs : List TimerEvent) :
    turnsOf (tr ++ evs) = turnsOf tr ++ turnsOf evs := List.filterMap_append ..

theorem addedOf_append (tr evs : List TimerEvent) :
    addedOf (tr ++ evs) = addedOf tr ++ addedOf evs := List.filterMap_append ..

theorem runsOf_append (tr evs : List TimerEvent) (id : TimerId) :
    runsOf (tr ++ evs) id = runsOf tr id + runsOf evs id := List.countP_append ..

theorem mem_addedOf : t ∈ addedOf tr ↔ .added t ∈ tr := by
  simp only [addedOf, List.mem_filterMap]
  constructor
  · rintro ⟨e, he, hte⟩
    cases e with
    | added u => obtain rfl := Option.some.inj hte; exact he
    | cancelled => cases hte
    | turn => cases hte
  · intro h
    exact ⟨_, h, rfl⟩

theorem Cancelled.append (h : Cancelled tr id) (evs : List TimerEvent) :
    Cancelled (tr ++ evs) id := by
  obtain ⟨t, ht, hp⟩ := h
  exact ⟨t, ht, hp.append_right evs⟩

theorem cancelled_snoc_iff :
    Cancelled (tr ++ [e]) id ↔
      Cancelled tr id ∨ e = .cancelled id ∧ ∃ t ∈ addedOf tr, t.id = id := by
  constructor
  · rintro ⟨t, ht, hp⟩
    rcases precedes_snoc_iff.mp hp with hp | ⟨hmem, he⟩
    · exact Or.inl ⟨t, ht, hp⟩
    · exact Or.inr ⟨he.symm, t, mem_addedOf.mpr hmem, ht⟩
  · rintro (h | ⟨rfl, t, hmem, ht⟩)
    · exact h.append [e]
    · exact ⟨t, ht, precedes_snoc_iff.mpr (Or.inr ⟨mem_addedOf.mp hmem, rfl⟩)⟩

theorem runsOf_le_count (evs : List TimerEvent) (id : TimerId) :
    runsOf evs id ≤ ((turnsOf evs).map Timer.id).count id := by
  induction evs with
  | nil => exact Nat.le_refl 0
  | cons e evs ih =>
      cases e with
      | added u => exact ih
      | cancelled i => exact ih
      | turn u ran =>
          have hturns : turnsOf (.turn u ran :: evs) = u :: turnsOf evs := rfl
          rw [hturns, List.map_cons, List.count_cons, runsOf, List.countP_cons]
          have hle : (if (ran && u.id == id) = true then 1 else 0) ≤
              if (u.id == id) = true then 1 else 0 := by
            cases ran <;> simp
          exact Nat.add_le_add ih hle

theorem RunsLive.append {l m : List TimerEvent} (hl : RunsLive tr l)
    (hm : RunsLive (tr ++ l) m) : RunsLive tr (l ++ m) := by
  intro p r t ran heq
  rcases List.append_eq_append_iff.mp heq with ⟨s, rfl, hs⟩ | ⟨s, rfl, hs⟩
  · have := hm s r t ran hs
    rwa [List.append_assoc] at this
  · cases s with
    | nil =>
        rw [List.append_nil] at hl hm
        have := hm [] r t ran hs.symm
        rwa [List.append_nil] at this
    | cons e s =>
        obtain ⟨rfl, rfl⟩ := List.cons.inj hs
        exact hl p s t ran rfl

theorem runsLive_of_turnsOf_eq_nil (h : turnsOf evs = []) : RunsLive tr evs := by
  rintro l r t ran rfl
  rw [turnsOf_append] at h
  exact absurd (List.append_eq_nil_iff.mp h).2 (List.cons_ne_nil _ _)

end log

/-! ## Taking out the expired timers -/

section expired

variable {Q : Type*} [MinQueue Q Timer Timer.when]

/-- `getExpired` moves the timers before `now` out of the queue, in order. -/
structure TakesOut (now : Int) (q q' : TimerQueue Q) (expired : List Timer) : Prop where
  timerIdSet : q'.timerIdSet = q.timerIdSet
  highestTask : q'.highestTask = none
  lowestTask : q'.lowestTask = none
  timers : elems q.timers = (expired : Multiset Timer) + elems q'.timers
  before : ∀ t ∈ expired, t.when < now
  rest : ∀ t ∈ elems q'.timers, now ≤ t.when
  order : expired.Pairwise (·.when ≤ ·.when)

theorem TakesOut.stay {now : Int} {q : TimerQueue Q} (hhigh : q.highestTask = none)
    (hlow : q.lowestTask = none) (hrest : ∀ t ∈ elems q.timers, now ≤ t.when) :
    TakesOut now q q [] :=
  ⟨rfl, hhigh, hlow, by simp, by simp, hrest, List.Pairwise.nil⟩

theorem getExpiredLoop_takesOut (now : Int) (fuel : Nat) (q : TimerQueue Q) (acc : List Timer)
    (hhigh : q.highestTask = none) (hlow : q.lowestTask = none)
    (hfuel : (elems q.timers).card ≤ fuel) :
    ∃ expired, (q.getExpiredLoop now fuel acc).2 = acc ++ expired ∧
      TakesOut now q (q.getExpiredLoop now fuel acc).1 expired := by
  induction fuel generalizing q acc with
  | zero =>
      have hempty : elems q.timers = 0 := Multiset.card_eq_zero.mp (Nat.le_zero.mp hfuel)
      exact ⟨[], by simp [TimerQueue.getExpiredLoop], TakesOut.stay hhigh hlow (by simp [hempty])⟩
  | succ fuel ih =>
      rw [TimerQueue.getExpiredLoop]
      split
      next hpop =>
          have hempty := MinQueue.pop_none _ hpop
          exact ⟨[], by simp, TakesOut.stay hhigh hlow (by simp [hempty])⟩
      next t rest hpop =>
          have helems := MinQueue.elems_pop _ _ _ hpop
          have hmin := MinQueue.pop_min _ _ _ hpop
          by_cases ht : t.when < now
          · -- with no task chosen yet, a tag makes no difference
            have hnohigh : (t.isHighest && q.highestTask.isSome) = false := by simp [hhigh]
            have hnolow : (t.isLowest && q.lowestTask.isSome) = false := by simp [hlow]
            rw [if_pos ht, hnohigh, hnolow]
            simp only [Bool.false_eq_true, if_false]
            have hcard : (elems rest).card ≤ fuel := by
              rw [helems, Multiset.card_cons] at hfuel
              omega
            obtain ⟨expired, hres, hout⟩ :=
              ih { q with timers := rest } (acc ++ [t]) hhigh hlow hcard
            refine ⟨t :: expired, by rw [hres, List.append_assoc, List.singleton_append], ?_⟩
            have hrest : elems rest = (expired : Multiset Timer) + _ := hout.timers
            exact
              { timerIdSet := hout.timerIdSet
                highestTask := hout.highestTask
                lowestTask := hout.lowestTask
                timers := by rw [helems, hrest, ← Multiset.cons_coe, Multiset.cons_add]
                before := List.forall_mem_cons.mpr ⟨ht, hout.before⟩
                rest := hout.rest
                order := by
                  refine List.pairwise_cons.mpr ⟨fun u hu => hmin u ?_, hout.order⟩
                  rw [helems, hrest]
                  simp [hu] }
          · rw [if_neg ht]
            have hle : ∀ u ∈ elems q.timers, now ≤ u.when := by
              intro u hu
              exact le_trans (not_lt.mp ht) (hmin u hu)
            exact ⟨[], by simp, TakesOut.stay hhigh hlow hle⟩

theorem getExpired_takesOut (now : Int) (q : TimerQueue Q) (hhigh : q.highestTask = none)
    (hlow : q.lowestTask = none) :
    TakesOut now q (q.getExpired now).1 (q.getExpired now).2 := by
  obtain ⟨expired, hres, hout⟩ :=
    getExpiredLoop_takesOut now _ q [] hhigh hlow (Nat.le_refl _)
  have heq : (q.getExpired now).2 = expired := by
    rw [TimerQueue.getExpired, hres, List.nil_append]
  rw [heq]
  exact hout

theorem TakesOut.expired_eq {now : Int} {q q' : TimerQueue Q} {expired : List Timer}
    (h : TakesOut now q q' expired) :
    (expired : Multiset Timer) = (elems q.timers).filter (·.when < now) := by
  rw [h.timers, Multiset.filter_add, Multiset.filter_eq_self.mpr fun t ht => h.before t ht,
    Multiset.filter_eq_nil.mpr fun t ht => not_lt.mpr (h.rest t ht), add_zero]

theorem TakesOut.rest_eq {now : Int} {q q' : TimerQueue Q} {expired : List Timer}
    (h : TakesOut now q q' expired) :
    elems q'.timers = (elems q.timers).filter (now ≤ ·.when) := by
  rw [h.timers, Multiset.filter_add, Multiset.filter_eq_self.mpr fun t ht => h.rest t ht,
    Multiset.filter_eq_nil.mpr fun t ht => not_le.mpr (h.before t ht), zero_add]

end expired

/-! ## The timers that are alive -/

section pool

variable {Q : Type*}

/-- The timers `P` are alive: each was added, no two share an id, and the
set of valid ids tells which of them were cancelled. -/
structure Pool (P : Multiset Timer) (s : TimerSys Q) : Prop where
  distinct : (P.map Timer.id).Nodup
  known : ∀ t ∈ P, ∃ u ∈ addedOf s.trace, u.id = t.id ∧ u.interval = t.interval
  live : ∀ t ∈ P, t.id ∈ s.queue.timerIdSet ↔ ¬ Cancelled s.trace t.id
  unique : ((addedOf s.trace).map Timer.id).Nodup
  used : ∀ u ∈ addedOf s.trace, u.id ∈ s.used
  turned : ∀ t ∈ turnsOf s.trace, t.id ∈ s.used

variable {P : Multiset Timer} {s s' s'' : TimerSys Q} {evs evs' : List TimerEvent} {t : Timer}
  {id : TimerId} {callback : TimerId → List TimerOp}

theorem Pool.mem_used (h : Pool P s) (ht : t ∈ P) : t.id ∈ s.used := by
  obtain ⟨u, hu, hid, -⟩ := h.known t ht
  rw [← hid]
  exact h.used u hu

theorem Pool.snoc {e : TimerEvent} (hP : Pool P s) (htrace : s'.trace = s.trace ++ [e])
    (hused : s'.used = s.used) (hadded : addedOf [e] = [])
    (hturn : ∀ t ∈ turnsOf [e], t.id ∈ s.used)
    (hlive : ∀ t ∈ P, t.id ∈ s'.queue.timerIdSet ↔
      t.id ∈ s.queue.timerIdSet ∧ e ≠ .cancelled t.id) : Pool P s' := by
  have hadd : addedOf s'.trace = addedOf s.trace := by
    rw [htrace, addedOf_append, hadded, List.append_nil]
  constructor
  · exact hP.distinct
  · rw [hadd]
    exact hP.known
  · intro t ht
    rw [hlive t ht, hP.live t ht, htrace, cancelled_snoc_iff, not_or]
    obtain ⟨u, hu, hut, -⟩ := hP.known t ht
    exact and_congr_right fun _ => not_congr (and_iff_left ⟨u, hu, hut⟩).symm
  · rw [hadd]
    exact hP.unique
  · rw [hadd, hused]
    exact hP.used
  · intro t ht
    rw [htrace, turnsOf_append, List.mem_append] at ht
    rw [hused]
    exact ht.elim (hP.turned t) (hturn t)

theorem Pool.cancel (hP : Pool P s) (id : TimerId) : Pool P (s.cancel id) := by
  refine hP.snoc rfl rfl rfl (by simp [turnsOf]) fun t _ => ?_
  change t.id ∈ s.queue.timerIdSet.erase id ↔ _
  rw [Finset.mem_erase, and_comm]
  refine and_congr_right fun _ => not_congr ⟨fun h => by rw [h], fun h => ?_⟩
  exact (TimerEvent.cancelled.inj h).symm

theorem Pool.turn (hP : Pool P s) (ht : t ∈ P) (ran : Bool) : Pool P (s.log (.turn t ran)) := by
  refine hP.snoc rfl rfl rfl ?_ fun u _ => ?_
  · intro u hu
    obtain rfl := List.mem_singleton.mp hu
    exact hP.mem_used ht
  · exact (and_iff_left (by simp)).symm

variable [MinQueue Q Timer Timer.when]

/-- From `s` to `s'`, with `evs` added to the log, the queue only gets what
callers add, and the turns run the timers that are not cancelled. -/
structure Grows (P : Multiset Timer) (s : TimerSys Q) (evs : List TimerEvent)
    (s' : TimerSys Q) : Prop where
  trace : s'.trace = s.trace ++ evs
  queued : s'.queued = s.queued + addedOf evs
  highestTask : s'.queue.highestTask = s.queue.highestTask
  lowestTask : s'.queue.lowestTask = s.queue.lowestTask
  fresh : ∀ t ∈ addedOf evs, t.id ∉ s.used
  used : s.used ⊆ s'.used
  runs : RunsLive s.trace evs
  pool : Pool (P + addedOf evs) s'

theorem Grows.refl (h : Pool P s) : Grows P s [] s where
  trace := (List.append_nil _).symm
  queued := (add_zero _).symm
  highestTask := rfl
  lowestTask := rfl
  fresh := by simp [addedOf]
  used := Finset.Subset.refl _
  runs := runsLive_of_turnsOf_eq_nil rfl
  pool := by rw [show (addedOf [] : Multiset Timer) = 0 from rfl, add_zero]; exact h

theorem Grows.trans (h : Grows P s evs s') (h' : Grows (P + addedOf evs) s' evs' s'') :
    Grows P s (evs ++ evs') s'' := by
  have hadded : (addedOf (evs ++ evs') : Multiset Timer) = addedOf evs + addedOf evs' := by
    rw [addedOf_append, Multiset.coe_add]
  exact
    { trace := by rw [h'.trace, h.trace, List.append_assoc]
      queued := by rw [h'.queued, h.queued, hadded, add_assoc]
      highestTask := h'.highestTask.trans h.highestTask
      lowestTask := h'.lowestTask.trans h.lowestTask
      fresh := by
        intro t ht
        rw [addedOf_append, List.mem_append] at ht
        rcases ht with ht | ht
        · exact h.fresh t ht
        · exact fun hu => h'.fresh t ht (h.used hu)
      used := h.used.trans h'.used
      runs := h.runs.append (by have := h'.runs; rwa [h.trace] at this)
      pool := by rw [hadded, ← add_assoc]; exact h'.pool }

theorem Pool.add (hP : Pool P s) (hfresh : t.id ∉ s.used) :
    Pool (t ::ₘ P) ({ s with
      queue := s.queue.addTimerInLoop t, used := insert t.id s.used }.log (.added t)) := by
  have hid : ∀ u ∈ P, u.id ≠ t.id := by
    rintro u hu heq
    exact hfresh (heq ▸ hP.mem_used hu)
  have hadded : addedOf (s.trace ++ [.added t]) = addedOf s.trace ++ [t] := addedOf_append _ _
  have hcancel : ∀ i, Cancelled (s.trace ++ [.added t]) i ↔ Cancelled s.trace i := by
    intro i
    rw [cancelled_snoc_iff]
    simp
  constructor
  · rw [Multiset.map_cons, Multiset.nodup_cons]
    refine ⟨fun hmem => ?_, hP.distinct⟩
    obtain ⟨u, hu, heq⟩ := Multiset.mem_map.mp hmem
    exact hid u hu heq
  · intro u hu
    change ∃ v ∈ addedOf (s.trace ++ [.added t]), _
    rw [hadded]
    rcases Multiset.mem_cons.mp hu with rfl | hu
    · exact ⟨u, by simp, rfl, rfl⟩
    · obtain ⟨v, hv, hvu⟩ := hP.known u hu
      exact ⟨v, List.mem_append_left _ hv, hvu⟩
  · intro u hu
    change u.id ∈ insert t.id s.queue.timerIdSet ↔ ¬ Cancelled (s.trace ++ [.added t]) u.id
    rw [hcancel, Finset.mem_insert]
    rcases Multiset.mem_cons.mp hu with rfl | hu
    · -- a cancellation on record would be one of an earlier timer with this id
      refine iff_of_true (Or.inl rfl) ?_
      rintro ⟨v, hv, hp⟩
      exact hfresh (hv ▸ hP.used v (mem_addedOf.mpr hp.left_mem))
    · rw [or_iff_right (hid u hu)]
      exact hP.live u hu
  · change ((addedOf (s.trace ++ [.added t])).map Timer.id).Nodup
    rw [hadded, List.map_append, List.nodup_append]
    refine ⟨hP.unique, by simp, ?_⟩
    rintro _ ha _ hb rfl
    obtain ⟨v, hv, hvid⟩ := List.mem_map.mp ha
    obtain ⟨w, hw, hwid⟩ := List.mem_map.mp hb
    obtain rfl := List.mem_singleton.mp hw
    exact hfresh (by rw [hwid, ← hvid]; exact hP.used v hv)
  · intro u hu
    change u ∈ addedOf (s.trace ++ [.added t]) at hu
    rw [hadded, List.mem_append, List.mem_singleton] at hu
    rcases hu with hu | rfl
    · exact Finset.mem_insert_of_mem (hP.used u hu)
    · exact Finset.mem_insert_self _ _
  · intro u hu
    change u ∈ turnsOf (s.trace ++ [.added t]) at hu
    rw [turnsOf_append, List.mem_append] at hu
    rcases hu with hu | hu
    · exact Finset.mem_insert_of_mem (hP.turned u hu)
    · cases hu

/-! ## What callbacks and turns do -/

theorem op_grows (hP : Pool P s) {o : TimerOp} (h : s.op o = some s') :
    ∃ evs, Grows P s evs s' ∧ turnsOf evs = [] := by
  cases o with
  | add t =>
      change s.add t = some s' at h
      unfold TimerSys.add at h
      split at h
      · cases h
      next hfresh =>
          obtain rfl := Option.some.inj h
          have hpool : P + (addedOf [.added t] : Multiset Timer) = t ::ₘ P := by
            rw [add_comm]
            rfl
          refine ⟨[.added t], ⟨rfl, ?_, rfl, rfl, ?_, Finset.subset_insert _ _,
            runsLive_of_turnsOf_eq_nil rfl, hpool ▸ hP.add hfresh⟩, rfl⟩
          · change elems (push t s.queue.timers) = _
            rw [MinQueue.elems_push, add_comm]
            rfl
          · intro u hu
            obtain rfl := List.mem_singleton.mp hu
            exact hfresh
  | cancel id =>
      obtain rfl := Option.some.inj h
      have hnone : (addedOf [.cancelled id] : Multiset Timer) = 0 := rfl
      refine ⟨[.cancelled id], ⟨rfl, ?_, rfl, rfl, by simp [addedOf], Finset.Subset.refl _,
        runsLive_of_turnsOf_eq_nil rfl, ?_⟩, rfl⟩
      · rw [hnone, add_zero]
        rfl
      · rw [hnone, add_zero]
        exact hP.cancel id

theorem ops_grows (ops : List TimerOp) (hP : Pool P s) (h : ops.foldlM TimerSys.op s = some s') :
    ∃ evs, Grows P s evs s' ∧ turnsOf evs = [] := by
  induction ops generalizing P s with
  | nil =>
      obtain rfl := Option.some.inj h
      exact ⟨[], .refl hP, rfl⟩
  | cons o ops ih =>
      rw [List.foldlM_cons] at h
      obtain ⟨s₁, ho, hrest⟩ := Option.bind_eq_some_iff.mp h
      obtain ⟨evs, hgrow, hturn⟩ := op_grows hP ho
      obtain ⟨evs', hgrow', hturn'⟩ := ih hgrow.pool hrest
      exact ⟨evs ++ evs', hgrow.trans hgrow', by rw [turnsOf_append, hturn, hturn']; rfl⟩

theorem turn_grows (hP : Pool P s) (ht : t ∈ P) {ran : Bool}
    (hran : ran = true ↔ ¬ Cancelled s.trace t.id) :
    Grows P s [.turn t ran] (s.log (.turn t ran)) := by
  have hnone : (addedOf [.turn t ran] : Multiset Timer) = 0 := rfl
  refine ⟨rfl, ?_, rfl, rfl, by simp [addedOf], Finset.Subset.refl _, ?_, ?_⟩
  · rw [hnone, add_zero]
    rfl
  · rintro l r u b heq
    cases l with
    | nil =>
        obtain ⟨rfl, rfl⟩ := TimerEvent.turn.inj (List.cons.inj heq).1
        rw [List.append_nil]
        exact hran
    | cons e l => exact absurd (List.cons.inj heq).2.symm (by simp)
  · rw [hnone, add_zero]
    exact hP.turn ht ran

theorem runTimer_grows (hP : Pool P s) (ht : t ∈ P) (h : s.runTimer callback t = some s') :
    ∃ evs, Grows P s evs s' ∧ turnsOf evs = [t] := by
  unfold TimerSys.runTimer at h
  split at h
  next hmem =>
      have hturn : Grows P s [.turn t true] (s.log (.turn t true)) :=
        turn_grows hP ht (iff_of_true rfl ((hP.live t ht).mp hmem))
      obtain ⟨evs, hgrow, hnone⟩ := ops_grows _ hturn.pool h
      exact ⟨_, hturn.trans hgrow, by rw [turnsOf_append, hnone]; rfl⟩
  next hmem =>
      obtain rfl := Option.some.inj h
      have hcancel := mt (hP.live t ht).mpr hmem
      exact ⟨_, turn_grows hP ht (iff_of_false (by simp) hcancel), rfl⟩

theorem runTimers_grows (expired : List Timer) (hP : Pool P s) (hmem : ∀ t ∈ expired, t ∈ P)
    (h : expired.foldlM (TimerSys.runTimer callback) s = some s') :
    ∃ evs, Grows P s evs s' ∧ turnsOf evs = expired := by
  induction expired generalizing P s with
  | nil =>
      obtain rfl := Option.some.inj h
      exact ⟨[], .refl hP, rfl⟩
  | cons t expired ih =>
      rw [List.foldlM_cons] at h
      obtain ⟨s₁, ht, hrest⟩ := Option.bind_eq_some_iff.mp h
      obtain ⟨evs, hgrow, hturn⟩ := runTimer_grows hP (hmem t (by simp)) ht
      have hmem' : ∀ u ∈ expired, u ∈ P + (addedOf evs : Multiset Timer) := fun u hu =>
        Multiset.mem_add.mpr (Or.inl (hmem u (List.mem_cons_of_mem t hu)))
      obtain ⟨evs', hgrow', hturn'⟩ := ih hgrow.pool hmem' hrest
      exact ⟨evs ++ evs', hgrow.trans hgrow', by rw [turnsOf_append, hturn, hturn']; rfl⟩

/-- A run of a timer that the log `tr` knows counts against it as long as
it is one of `P`. -/
def OnceIn (P : Multiset Timer) (tr : List TimerEvent) : Prop :=
  ∀ u ∈ addedOf tr, ¬ u.isRepeat →
    runsOf tr u.id ≤ 1 ∧ ∀ t ∈ P, t.id = u.id → runsOf tr u.id = 0

theorem runsOf_eq_zero {tr : List TimerEvent} (h : ∀ t ∈ turnsOf tr, t.id ≠ id) :
    runsOf tr id = 0 := by
  refine Nat.le_zero.mp ((runsOf_le_count tr id).trans (Nat.le_of_eq ?_))
  refine List.count_eq_zero_of_not_mem fun hmem => ?_
  obtain ⟨t, ht, hid⟩ := List.mem_map.mp hmem
  exact h t ht hid

theorem Grows.onceIn {R : Multiset Timer} (hP : Pool P s) (ho : OnceIn P s.trace)
    (hg : Grows P s evs s') (hturns : ∀ t ∈ turnsOf evs, t ∈ P)
    (hdistinct : ((turnsOf evs).map Timer.id).Nodup) (hR : ∀ t ∈ R, t ∈ P)
    (hapart : ∀ t ∈ R, ∀ u ∈ turnsOf evs, u.id ≠ t.id) :
    OnceIn (R + addedOf evs) s'.trace := by
  intro u hu hshot
  rw [hg.trace, addedOf_append, List.mem_append] at hu
  rw [hg.trace, runsOf_append]
  rcases hu with hu | hu
  · obtain ⟨hle, hzero⟩ := ho u hu hshot
    have hone : runsOf evs u.id ≤ 1 :=
      (runsOf_le_count evs u.id).trans (List.nodup_iff_count_le_one.mp hdistinct u.id)
    by_cases hmem : ∃ t ∈ turnsOf evs, t.id = u.id
    · obtain ⟨t, ht, hid⟩ := hmem
      have hnone := hzero t (hturns t ht) hid
      refine ⟨by omega, fun v hv hvid => ?_⟩
      rcases Multiset.mem_add.mp hv with hv | hv
      · exact absurd (hid.trans hvid.symm) (hapart v hv t ht)
      · exact absurd (hvid ▸ hP.used u hu) (hg.fresh v hv)
    · have hnone : runsOf evs u.id = 0 := runsOf_eq_zero fun t ht hid => hmem ⟨t, ht, hid⟩
      refine ⟨by omega, fun v hv hvid => ?_⟩
      rcases Multiset.mem_add.mp hv with hv | hv
      · rw [hzero v (hR v hv) hvid, hnone]
      · exact absurd (hvid ▸ hP.used u hu) (hg.fresh v hv)
  · -- a timer added on the way had no turn, neither before nor since
    have hnew := hg.fresh u hu
    have hbefore : runsOf s.trace u.id = 0 :=
      runsOf_eq_zero fun t ht hid => hnew (hid ▸ hP.turned t ht)
    have hsince : runsOf evs u.id = 0 :=
      runsOf_eq_zero fun t ht hid => hnew (hid ▸ hP.mem_used (hturns t ht))
    rw [hbefore, hsince]
    exact ⟨Nat.zero_le 1, fun _ _ _ => rfl⟩

end pool

/-! ## Re-arming -/

section reset

variable {Q : Type*} [MinQueue Q Timer Timer.when] {now : Int} {q : TimerQueue Q}

/-- `reset` puts the repeating timers whose id is still valid back, and
drops the ids of the others. -/
structure Rearms (now : Int) (expired : List Timer) (q q' : TimerQueue Q) : Prop where
  timers : elems q'.timers = elems q.timers +
    ((expired : Multiset Timer).filter fun t => t.isRepeat ∧ t.id ∈ q.timerIdSet).map
      (·.restart now)
  timerIdSet : ∀ i, i ∈ q'.timerIdSet ↔
    i ∈ q.timerIdSet ∧ ∀ t ∈ expired, t.id = i → t.isRepeat
  highestTask : q'.highestTask = q.highestTask
  lowestTask : q'.lowestTask = q.lowestTask

theorem reset_rearms (expired : List Timer) (q : TimerQueue Q)
    (hdistinct : (expired.map Timer.id).Nodup) : Rearms now expired q (q.reset expired now) := by
  induction expired generalizing q with
  | nil => exact ⟨by simp [TimerQueue.reset], by simp [TimerQueue.reset], rfl, rfl⟩
  | cons t expired ih =>
      rw [List.map_cons, List.nodup_cons] at hdistinct
      obtain ⟨ht, hdistinct⟩ := hdistinct
      have hne : ∀ u ∈ expired, u.id ≠ t.id := fun u hu heq =>
        ht (heq ▸ List.mem_map_of_mem hu)
      have hrest := ih (q.resetTimer now t) hdistinct
      change Rearms now expired _ (TimerQueue.reset (t :: expired) now q) at hrest
      by_cases hmem : t.id ∈ q.timerIdSet
      · by_cases hrep : t.isRepeat
        · rw [TimerQueue.resetTimer, if_pos hmem, if_pos hrep] at hrest
          refine ⟨?_, fun i => ?_, hrest.highestTask, hrest.lowestTask⟩
          · rw [hrest.timers, ← Multiset.cons_coe, Multiset.filter_cons_of_pos _ ⟨hrep, hmem⟩,
              Multiset.map_cons, Multiset.add_cons]
            exact (congrArg (· + _) (MinQueue.elems_push _ _)).trans (Multiset.cons_add _ _ _)
          · rw [hrest.timerIdSet i, List.forall_mem_cons]
            exact and_congr_right fun _ => (and_iff_right fun _ => hrep).symm
        · rw [TimerQueue.resetTimer, if_pos hmem, if_neg hrep] at hrest
          refine ⟨?_, fun i => ?_, hrest.highestTask, hrest.lowestTask⟩
          · rw [hrest.timers, ← Multiset.cons_coe,
              Multiset.filter_cons_of_neg _ fun h => hrep h.1]
            congr 2
            refine Multiset.filter_congr fun u hu => and_congr_right fun _ => ?_
            exact (Finset.mem_erase.trans (and_iff_right (hne u hu)))
          · rw [hrest.timerIdSet i, List.forall_mem_cons, Finset.mem_erase]
            constructor
            · rintro ⟨⟨hi, hmemi⟩, hall⟩
              exact ⟨hmemi, fun heq => absurd heq.symm hi, hall⟩
            · rintro ⟨hmemi, hself, hall⟩
              exact ⟨⟨fun heq => hrep (hself heq.symm), hmemi⟩, hall⟩
      · rw [TimerQueue.resetTimer, if_neg hmem] at hrest
        refine ⟨?_, fun i => ?_, hrest.highestTask, hrest.lowestTask⟩
        · rw [hrest.timers, ← Multiset.cons_coe, Multiset.filter_cons_of_neg _ fun h => hmem h.2]
        · rw [hrest.timerIdSet i, List.forall_mem_cons]
          refine and_congr_right fun hi => (and_iff_right fun heq => ?_).symm
          exact absurd (heq ▸ hi) hmem

end reset

/-! ## Whole passes -/

theorem clear_tasks {Q : Type*} {q : TimerQueue Q} (hhigh : q.highestTask = none)
    (hlow : q.lowestTask = none) :
    { q with highestTask := none, lowestTask := none } = q := by
  cases q
  cases hhigh
  cases hlow
  rfl

section pass

variable {Q : Type*} [MinQueue Q Timer Timer.when] {s s' : TimerSys Q} {now : Int}
  {callback : TimerId → List TimerOp}

/-- What holds between two passes. -/
structure Settled (s : TimerSys Q) : Prop where
  highestTask : s.queue.highestTask = none
  lowestTask : s.queue.lowestTask = none
  pool : Pool s.queued s
  once : OnceIn s.queued s.trace

theorem Settled.new : Settled (TimerSys.new : TimerSys Q) where
  highestTask := rfl
  lowestTask := rfl
  pool := by
    have hempty : (TimerSys.new : TimerSys Q).queued = 0 := MinQueue.elems_empty
    rw [hempty]
    constructor <;> simp [TimerSys.new, addedOf, turnsOf]
  once := fun u hu => absurd hu (by simp [TimerSys.new, addedOf])

theorem Settled.op (hs : Settled s) {o : TimerOp} (h : s.op o = some s') : Settled s' := by
  obtain ⟨evs, hg, hturns⟩ := op_grows hs.pool h
  have hpool := hg.pool
  have honce : OnceIn (s.queued + addedOf evs) s'.trace := by
    refine hg.onceIn hs.pool hs.once ?_ ?_ (fun t ht => ht) ?_ <;> simp [hturns]
  rw [← hg.queued] at hpool honce
  exact ⟨hg.highestTask.trans hs.highestTask, hg.lowestTask.trans hs.lowestTask, hpool, honce⟩

theorem Settled.inj (hs : Settled s) {t u : Timer} (ht : t ∈ s.queued)
    (hu : u ∈ s.queued) (h : t.id = u.id) : t = u :=
  Multiset.inj_on_of_nodup_map hs.pool.distinct t ht u hu h

/-- A pass in its three parts: the expired timers are taken out, each has
its turn, and they are reset. -/
structure Pass (s : TimerSys Q) (now : Int) (evs : List TimerEvent) (s' : TimerSys Q) where
  queue : TimerQueue Q
  mid : TimerSys Q
  out : TakesOut now s.queue queue (turnsOf evs)
  grows : Grows s.queued { s with queue := queue } evs mid
  rearms : Rearms now (turnsOf evs) mid.queue s'.queue
  trace : s'.trace = s.trace ++ evs
  used : s'.used = mid.used

theorem TakesOut.distinct {q : TimerQueue Q} {expired : List Timer} (hs : Settled s)
    (hout : TakesOut now s.queue q expired) : (expired.map Timer.id).Nodup := by
  have hle : (expired : Multiset Timer) ≤ s.queued := by
    change _ ≤ elems s.queue.timers
    rw [hout.timers]
    exact Multiset.le_add_right _ _
  exact Multiset.coe_nodup.mp (Multiset.nodup_of_le (Multiset.map_le_map hle) hs.pool.distinct)

theorem TakesOut.mem {q : TimerQueue Q} {expired : List Timer}
    (hout : TakesOut now s.queue q expired) : ∀ t ∈ expired, t ∈ s.queued := by
  intro t ht
  change t ∈ elems s.queue.timers
  rw [hout.timers]
  exact Multiset.mem_add.mpr (Or.inl ht)

theorem TakesOut.rest_mem {q : TimerQueue Q} {expired : List Timer}
    (hout : TakesOut now s.queue q expired) : ∀ t ∈ elems q.timers, t ∈ s.queued := by
  intro t ht
  change t ∈ elems s.queue.timers
  rw [hout.timers]
  exact Multiset.mem_add.mpr (Or.inr ht)

theorem TakesOut.pool {q : TimerQueue Q} {expired : List Timer} (hs : Settled s)
    (hout : TakesOut now s.queue q expired) : Pool s.queued { s with queue := q } :=
  { hs.pool with live := by rw [hout.timerIdSet]; exact hs.pool.live }

/-- With no priority task chosen, a pass is the turns of the timers taken
out, one after the other, and the reset. -/
theorem handleRead_turns (hs : Settled s) (h : s.handleRead now callback = some s') :
    ∃ s₁, (s.queue.getExpired now).2.foldlM (TimerSys.runTimer callback)
        { s with queue := (s.queue.getExpired now).1 } = some s₁ ∧
      s' = { s₁ with queue := s₁.queue.reset (s.queue.getExpired now).2 now } := by
  have hout := getExpired_takesOut now s.queue hs.highestTask hs.lowestTask
  unfold TimerSys.handleRead at h
  simp only [hout.highestTask, Option.toList_none, List.foldlM_nil, Option.pure_def,
    Option.bind_eq_bind, Option.bind_some] at h
  obtain ⟨s₁, hrun, h⟩ := Option.bind_eq_some_iff.mp h
  obtain ⟨evs, hg, -⟩ := runTimers_grows _ (hout.pool hs) hout.mem hrun
  have hhigh := hg.highestTask.trans hout.highestTask
  have hlow := hg.lowestTask.trans hout.lowestTask
  simp only [hlow, hhigh, Option.toList_none, List.foldlM_nil, Option.pure_def,
    Option.bind_some, List.append_nil, Option.some.injEq] at h
  rw [clear_tasks hhigh hlow] at h
  exact ⟨s₁, hrun, h.symm⟩

theorem exists_ops (ops : List TimerOp) (s : TimerSys Q) (hnodup : (addsOf ops).Nodup)
    (hnew : ∀ id ∈ addsOf ops, id ∉ s.used) :
    ∃ s', ops.foldlM TimerSys.op s = some s' ∧ ∀ id ∈ s'.used, id ∈ s.used ∨ id ∈ addsOf ops := by
  induction ops generalizing s with
  | nil => exact ⟨s, rfl, fun id hid => Or.inl hid⟩
  | cons o ops ih =>
      cases o with
      | add t =>
          have hadds : addsOf (.add t :: ops) = t.id :: addsOf ops := rfl
          rw [hadds, List.nodup_cons] at hnodup
          rw [hadds, List.forall_mem_cons] at hnew
          obtain ⟨s', hfold, hused⟩ := ih ({ s with
              queue := s.queue.addTimerInLoop t
              used := insert t.id s.used }.log (.added t)) hnodup.2 fun id hid hu => by
            rcases Finset.mem_insert.mp hu with rfl | hu
            · exact hnodup.1 hid
            · exact hnew.2 id hid hu
          refine ⟨s', ?_, fun id hid => ?_⟩
          · rw [List.foldlM_cons, TimerSys.op, TimerSys.add, if_neg hnew.1]
            exact hfold
          · rw [hadds, List.mem_cons]
            rcases hused id hid with hu | hin
            · rcases Finset.mem_insert.mp hu with rfl | hu
              · exact Or.inr (Or.inl rfl)
              · exact Or.inl hu
            · exact Or.inr (Or.inr hin)
      | cancel id => exact ih (s.cancel id) hnodup hnew

theorem exists_runTimers (callback : TimerId → List TimerOp) (l : List Timer) (s : TimerSys Q)
    (hnodup : (l.flatMap fun t => addsOf (callback t.id)).Nodup)
    (hnew : ∀ id ∈ l.flatMap fun t => addsOf (callback t.id), id ∉ s.used) :
    ∃ s', l.foldlM (TimerSys.runTimer callback) s = some s' := by
  induction l generalizing s with
  | nil => exact ⟨s, rfl⟩
  | cons t l ih =>
      rw [List.flatMap_cons, List.nodup_append] at hnodup
      rw [List.flatMap_cons] at hnew
      obtain ⟨hhead, htail, hdisj⟩ := hnodup
      have hturn : ∃ s', s.runTimer callback t = some s' ∧
          ∀ id ∈ s'.used, id ∈ s.used ∨ id ∈ addsOf (callback t.id) := by
        unfold TimerSys.runTimer
        split
        · exact exists_ops _ _ hhead fun id hid => hnew id (List.mem_append_left _ hid)
        · exact ⟨_, rfl, fun id hid => Or.inl hid⟩
      obtain ⟨s₁, hs₁, hused⟩ := hturn
      obtain ⟨s', hs'⟩ := ih s₁ htail fun id hid hu => by
        rcases hused id hu with hu | hin
        · exact hnew id (List.mem_append_right _ hid) hu
        · exact hdisj id hin id hid rfl
      refine ⟨s', ?_⟩
      rw [List.foldlM_cons, hs₁]
      exact hs'

theorem exists_handleRead (hs : Settled s) (hfresh : AddsFresh s now callback) :
    ∃ s', s.handleRead now callback = some s' := by
  have hout := getExpired_takesOut now s.queue hs.highestTask hs.lowestTask
  have hnodup := hfresh.nodup
  rw [TimerSys.queued, ← hout.expired_eq, Multiset.coe_bind, Multiset.coe_nodup] at hnodup
  obtain ⟨s₁, hrun⟩ := exists_runTimers callback (s.queue.getExpired now).2
    { s with queue := (s.queue.getExpired now).1 } hnodup fun id hid => by
      obtain ⟨t, ht, hid⟩ := List.mem_flatMap.mp hid
      exact hfresh.unused t (hout.mem t ht) (hout.before t ht) id hid
  obtain ⟨evs, hg, -⟩ := runTimers_grows _ (hout.pool hs) hout.mem hrun
  have hhigh := hg.highestTask.trans hout.highestTask
  have hlow := hg.lowestTask.trans hout.lowestTask
  unfold TimerSys.handleRead
  simp only [hout.highestTask, Option.toList_none, List.foldlM_nil, Option.pure_def,
    Option.bind_eq_bind, Option.bind_some, hrun, hlow]
  exact ⟨_, rfl⟩

theorem pass_of_handleRead (hs : Settled s) (h : s.handleRead now callback = some s') :
    ∃ evs, Nonempty (Pass s now evs s') := by
  have hout := getExpired_takesOut now s.queue hs.highestTask hs.lowestTask
  obtain ⟨s₁, hrun, rfl⟩ := handleRead_turns hs h
  obtain ⟨evs, hg, hturns⟩ := runTimers_grows _ (hout.pool hs) hout.mem hrun
  rw [← hturns] at hout ⊢
  have hrearms : Rearms now (turnsOf evs) s₁.queue (s₁.queue.reset (turnsOf evs) now) :=
    reset_rearms _ s₁.queue (hout.distinct hs)
  exact ⟨evs, ⟨_, s₁, hout, hg, hrearms, hg.trace, rfl⟩⟩

namespace Pass

variable {evs : List TimerEvent}

theorem queued_parts (p : Pass s now evs s') :
    s'.queued = elems p.queue.timers + addedOf evs +
      ((turnsOf evs : Multiset Timer).filter fun t =>
        t.isRepeat ∧ t.id ∈ p.mid.queue.timerIdSet).map (·.restart now) := by
  change elems s'.queue.timers = _
  rw [p.rearms.timers]
  exact congrArg (· + _) p.grows.queued

open scoped Classical in
theorem queued_eq (p : Pass s now evs s') :
    s'.queued = s.queued.filter (now ≤ ·.when) + addedOf evs +
      (s.queued.filter fun t =>
        t.when < now ∧ t.isRepeat ∧ ¬ Cancelled (s.trace ++ evs) t.id).map (·.restart now) := by
  have hlive : ∀ t ∈ s.queued, t.id ∈ p.mid.queue.timerIdSet ↔
      ¬ Cancelled (s.trace ++ evs) t.id := by
    intro t ht
    have hmem := p.grows.pool.live t (Multiset.mem_add.mpr (Or.inl ht))
    rw [p.grows.trace] at hmem
    exact hmem
  rw [p.queued_parts, p.out.rest_eq, p.out.expired_eq, Multiset.filter_filter]
  congr 2
  refine Multiset.filter_congr fun t ht => ?_
  rw [hlive t ht]
  exact and_comm

theorem fresh (hs : Settled s) (p : Pass s now evs s') :
    ∀ t ∈ addedOf evs, ∀ u ∈ s.queued, t.id ≠ u.id := by
  intro t ht u hu heq
  exact p.grows.fresh t ht (heq ▸ hs.pool.mem_used hu)

open scoped Classical in
theorem law (hs : Settled s) (p : Pass s now evs s') :
    PassLaw s.queued s.trace now evs s'.queued where
  distinct := hs.pool.distinct
  turns := p.out.expired_eq
  order := p.out.order
  runs := p.grows.runs
  fresh := p.fresh hs
  rearmed := by
    intro t ht hbefore hrep
    rw [p.queued_eq, Multiset.mem_add, Multiset.mem_add]
    constructor
    · rintro ((hmem | hmem) | hmem)
      · -- it would be a second timer with the id of `t`
        obtain ⟨hmem, hwhen⟩ := Multiset.mem_filter.mp hmem
        rw [hs.inj hmem ht rfl] at hwhen
        exact absurd hbefore (not_lt.mpr hwhen)
      · exact absurd rfl (p.fresh hs _ hmem t ht)
      · obtain ⟨u, hu, heq⟩ := Multiset.mem_map.mp hmem
        obtain ⟨hu, -, -, hlive⟩ := Multiset.mem_filter.mp hu
        have hid : (u.restart now).id = (t.restart now).id := congrArg Timer.id heq
        rwa [hs.inj hu ht hid] at hlive
    · intro hlive
      refine Or.inr (Multiset.mem_map_of_mem _ ?_)
      exact Multiset.mem_filter.mpr ⟨ht, hbefore, hrep, hlive⟩
  after := p.queued_eq

/-- Each timer in the queue afterwards is one of the pool, perhaps re-armed. -/
theorem origin (p : Pass s now evs s') {t : Timer} (ht : t ∈ s'.queued) :
    ∃ u ∈ s.queued + (addedOf evs : Multiset Timer), u.id = t.id ∧ u.interval = t.interval ∧
      (t = u ∧ t ∈ elems p.queue.timers + (addedOf evs : Multiset Timer) ∨ t.isRepeat) := by
  have hqueued : s.queued = (turnsOf evs : Multiset Timer) + elems p.queue.timers := p.out.timers
  rw [p.queued_parts] at ht
  rcases Multiset.mem_add.mp ht with ht | ht
  · refine ⟨t, ?_, rfl, rfl, Or.inl ⟨rfl, ht⟩⟩
    rw [hqueued, add_assoc]
    exact Multiset.mem_add.mpr (Or.inr ht)
  · obtain ⟨u, hu, rfl⟩ := Multiset.mem_map.mp ht
    obtain ⟨hmem, hrep, -⟩ := Multiset.mem_filter.mp hu
    refine ⟨u, ?_, rfl, rfl, Or.inr hrep⟩
    rw [hqueued, add_assoc]
    exact Multiset.mem_add.mpr (Or.inl hmem)

theorem distinct (p : Pass s now evs s') : (s'.queued.map Timer.id).Nodup := by
  have hid : Timer.id ∘ (·.restart now) = Timer.id := rfl
  have hle : s'.queued.map Timer.id ≤ (s.queued + (addedOf evs : Multiset Timer)).map Timer.id := by
    have hqueued : s.queued = (turnsOf evs : Multiset Timer) + elems p.queue.timers :=
      p.out.timers
    rw [p.queued_parts, hqueued, add_assoc (turnsOf evs : Multiset Timer),
      add_comm (turnsOf evs : Multiset Timer), Multiset.map_add, Multiset.map_map, hid,
      Multiset.map_add _ _ (turnsOf evs : Multiset Timer)]
    refine add_le_add le_rfl (Multiset.map_le_map ?_)
    exact Multiset.filter_le _ _
  exact Multiset.nodup_of_le hle p.grows.pool.distinct

theorem isRepeat_of_turn (hs : Settled s) (p : Pass s now evs s') {t u : Timer}
    (ht : t ∈ s'.queued) (hu : u ∈ turnsOf evs) (hid : u.id = t.id) : u.isRepeat := by
  obtain ⟨v, hv, hvid, hint, hkind⟩ := p.origin ht
  have huP : u ∈ s.queued + (addedOf evs : Multiset Timer) :=
    Multiset.mem_add.mpr (Or.inl (p.out.mem u hu))
  obtain rfl := Multiset.inj_on_of_nodup_map p.grows.pool.distinct u huP v hv
    (hid.trans hvid.symm)
  rcases hkind with ⟨rfl, hmem⟩ | hrep
  · rcases Multiset.mem_add.mp hmem with hmem | hmem
    · exact absurd (p.out.before t hu) (not_lt.mpr (p.out.rest t hmem))
    · exact absurd (hs.pool.mem_used (p.out.mem t hu)) (p.grows.fresh t hmem)
  · rw [Timer.isRepeat, hint]
    exact hrep

theorem settled (hs : Settled s) (p : Pass s now evs s') : Settled s' := by
  have htrace : s'.trace = p.mid.trace := p.trace.trans p.grows.trace.symm
  have hpool := p.grows.pool
  have hknown : ∀ t ∈ s'.queued,
      ∃ u ∈ addedOf p.mid.trace, u.id = t.id ∧ u.interval = t.interval := by
    intro t ht
    obtain ⟨u, hu, hid, hint, -⟩ := p.origin ht
    obtain ⟨v, hv, hvid, hvint⟩ := hpool.known u hu
    exact ⟨v, hv, hvid.trans hid, hvint.trans hint⟩
  have honce : OnceIn (elems p.queue.timers + addedOf evs) p.mid.trace := by
    refine p.grows.onceIn (p.out.pool hs) hs.once p.out.mem (p.out.distinct hs)
      p.out.rest_mem fun t ht u hu hid => ?_
    obtain rfl := hs.inj (p.out.mem u hu) (p.out.rest_mem t ht) hid
    exact absurd (p.out.before u hu) (not_lt.mpr (p.out.rest u ht))
  constructor
  · rw [p.rearms.highestTask, p.grows.highestTask]
    exact p.out.highestTask
  · rw [p.rearms.lowestTask, p.grows.lowestTask]
    exact p.out.lowestTask
  · refine ⟨p.distinct, by rw [htrace]; exact hknown, ?_, ?_, ?_, ?_⟩
    · intro t ht
      obtain ⟨u, hu, hid, -⟩ := p.origin ht
      rw [p.rearms.timerIdSet, htrace, ← hid, ← hpool.live u hu]
      exact and_iff_left fun v hv hvu => p.isRepeat_of_turn hs ht hv (hvu.trans hid)
    · rw [htrace]
      exact hpool.unique
    · rw [htrace, p.used]
      exact hpool.used
    · rw [htrace, p.used]
      exact hpool.turned
  · intro u hu hshot
    rw [htrace] at hu ⊢
    obtain ⟨hle, hzero⟩ := honce u hu hshot
    refine ⟨hle, fun t ht hid => ?_⟩
    obtain ⟨v, hv, hvid, hint⟩ := hknown t ht
    obtain rfl := List.inj_on_of_nodup_map hpool.unique hv hu (hvid.trans hid)
    obtain ⟨w, hw, -, -, ⟨rfl, hmem⟩ | hrep⟩ := p.origin ht
    · exact hzero t hmem hid
    · rw [Timer.isRepeat, hint] at hshot
      exact absurd hrep hshot

end Pass

theorem Settled.step (hs : Settled s) {a : TimerAct} (hstep : TimerStep s a s') : Settled s' := by
  cases a with
  | op o => exact hs.op hstep
  | handleRead now callback =>
      obtain ⟨evs, ⟨p⟩⟩ := pass_of_handleRead hs hstep
      exact p.settled hs

theorem Settled.of_run {acts : List TimerAct} (hrun : Run (TimerStep (Q := Q)) .new acts s) :
    Settled s :=
  hrun.invariant (fun _ _ _ hs hstep => hs.step hstep) .new

/-- In every run of adding, cancelling and expiry passes, with whatever
callbacks, one-shot timers run at most once, each pass returns if the timers
that are added in it have new ids, and each pass obeys its law. -/
theorem timer_law (acts : List TimerAct) :
    Throughout (TimerStep (Q := Q)) (fun s => Once s.trace ∧ Returns s ∧
      ∀ now callback s', s.handleRead now callback = some s' →
        ∃ evs, s'.trace = s.trace ++ evs ∧
          PassLaw s.queued s.trace now evs s'.queued) .new acts := by
  intro pre s hpre hrun
  have hs := Settled.of_run hrun
  refine ⟨fun t ht hshot => (hs.once t ht hshot).1, fun _ _ => exists_handleRead hs, ?_⟩
  intro now callback s' h
  obtain ⟨evs, ⟨p⟩⟩ := pass_of_handleRead hs h
  exact ⟨evs, p.trace, p.law hs⟩

end pass

/-- Timer 1 repeats, timer 2 is due after it. -/
def twoTimers : List TimerAct :=
  [.op (.add ⟨2, 5, 0, false, false⟩), .op (.add ⟨1, 4, 7, false, false⟩)]

/-- The callbacks of the pass: timer 1 cancels timer 2 and adds timer 3. -/
def cancelsTwo (id : TimerId) : List TimerOp :=
  if id = 1 then [.cancel 2, .add ⟨3, 1, 0, false, false⟩] else []

/-- Timer 1 cancels timer 2 of the same pass, which is therefore skipped,
and adds timer 3, which waits for the next pass although it is due. -/
theorem timer_law_cancelsTwo : ∃ s s' : TimerSys (List Timer), Run TimerStep .new twoTimers s ∧
    s.handleRead 10 cancelsTwo = some s' ∧
      (runsOf s'.trace 1, runsOf s'.trace 2, runsOf s'.trace 3) = (1, 0, 0) ∧
      s'.queue.timers.map (fun t => (t.id, t.when)) = [(3, 1), (1, 17)] ∧
      ∃ evs, s'.trace = s.trace ++ evs ∧ PassLaw s.queued s.trace 10 evs s'.queued := by
  obtain ⟨s, s', hs, hpass, hruns, hqueue⟩ : ∃ s s' : TimerSys (List Timer),
      twoTimers.foldlM TimerSys.exec .new = some s ∧ s.handleRead 10 cancelsTwo = some s' ∧
      (runsOf s'.trace 1, runsOf s'.trace 2, runsOf s'.trace 3) = (1, 0, 0) ∧
      s'.queue.timers.map (fun t => (t.id, t.when)) = [(3, 1), (1, 17)] :=
    ⟨_, _, rfl, rfl, by decide +kernel, by decide +kernel⟩
  have hrun : Run TimerStep .new twoTimers s := .of_foldlM hs
  exact ⟨s, s', hrun, hpass, hruns, hqueue,
    (timer_law twoTimers twoTimers s List.prefix_rfl hrun).2.2 10 cancelsTwo s' hpass⟩

end Netpoll
