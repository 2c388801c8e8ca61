import Mathlib.Data.Finset.Card
import Netpoll.TimerLaw

/-!
# The set of valid timer ids

`m_timerIdSet` is kept apart from the queue: adding a timer writes both,
cancelling writes the set alone, and a pass takes a timer out of the queue
first and settles what becomes of its id only in `reset`. Between two
passes the set is nevertheless exact (`ActiveExact`): it has the ids of
the queued timers that were not cancelled and no others.

That an id of a live timer is in the set is part of `Pool`. The other half
is `Backed`: behind every id in the set there is a timer, in the queue or
among those that a pass has taken out and not reset yet.
-/

namespace Netpoll

open MinQueue (elems push)

variable {Q : Type*} [MinQueue Q Timer Timer.when]

/-- The set of valid ids agrees with the queue. A cancelled timer stays in
the queue until its time has come, so the queue may hold more timers than
the set has ids. -/
structure ActiveExact (s : TimerSys Q) : Prop where
  distinct : (s.queued.map Timer.id).Nodup
  active : ∀ id, id ∈ s.queue.timerIdSet ↔
    ∃ t ∈ s.queued, t.id = id ∧ ¬ Cancelled s.trace id
  bounded : s.queue.timerIdSet.card ≤ s.queued.card
  highestTask : s.queue.highestTask = none
  lowestTask : s.queue.lowestTask = none

/-- Every valid id is that of a queued timer or of one of `out`. -/
def Backed (out : Multiset Timer) (s : TimerSys Q) : Prop :=
  ∀ id ∈ s.queue.timerIdSet, ∃ t ∈ out + s.queued, t.id = id

namespace Backed

variable {out : Multiset Timer} {s s' : TimerSys Q} {now : Int}
  {callback : TimerId → List TimerOp}

/-! ## Operations and turns -/

theorem mono (hs : Backed out s) (hset : s'.queue.timerIdSet ⊆ s.queue.timerIdSet)
    (hqueued : s.queued ≤ s'.queued) : Backed out s' := by
  intro id hid
  obtain ⟨t, ht, rfl⟩ := hs id (hset hid)
  exact ⟨t, Multiset.mem_of_le (add_le_add le_rfl hqueued) ht, rfl⟩

theorem log (hs : Backed out s) (e : TimerEvent) : Backed out (s.log e) :=
  hs.mono (Finset.Subset.refl _) le_rfl

theorem cancel (hs : Backed out s) (id : TimerId) : Backed out (s.cancel id) :=
  hs.mono (Finset.erase_subset id _) le_rfl

theorem add (hs : Backed out s) {t : Timer} (h : s.add t = some s') : Backed out s' := by
  unfold TimerSys.add at h
  split at h
  · cases h
  · obtain rfl := Option.some.inj h
    have hqueued : elems (push t s.queue.timers) = t ::ₘ s.queued := MinQueue.elems_push _ _
    intro id hid
    change ∃ u ∈ out + elems (push t s.queue.timers), u.id = id
    rw [hqueued, Multiset.add_cons]
    rcases Finset.mem_insert.mp hid with rfl | hid
    · exact ⟨t, Multiset.mem_cons_self _ _, rfl⟩
    · obtain ⟨u, hu, rfl⟩ := hs id hid
      exact ⟨u, Multiset.mem_cons_of_mem hu, rfl⟩

theorem op (hs : Backed out s) {o : TimerOp} (h : s.op o = some s') : Backed out s' := by
  cases o with
  | add t => exact hs.add h
  | cancel id =>
      obtain rfl := Option.some.inj h
      exact hs.cancel id

theorem runTimer (hs : Backed out s) {t : Timer} (h : s.runTimer callback t = some s') :
    Backed out s' := by
  unfold TimerSys.runTimer at h
  split at h
  · exact (Run.of_foldlM h).invariant (fun _ _ _ hs ho => hs.op ho) (hs.log _)
  · obtain rfl := Option.some.inj h
    exact hs.log _

theorem runTimers (hs : Backed out s) {expired : List Timer}
    (h : expired.foldlM (TimerSys.runTimer callback) s = some s') : Backed out s' :=
  (Run.of_foldlM h).invariant (fun _ _ _ hs ht => hs.runTimer ht) hs

/-! ## A pass -/

theorem takesOut (hs : Backed 0 s) {q : TimerQueue Q} {expired : List Timer}
    (hout : TakesOut now s.queue q expired) : Backed expired { s with queue := q } := by
  intro id hid
  rw [hout.timerIdSet] at hid
  obtain ⟨t, ht, rfl⟩ := hs id hid
  have hqueued : s.queued = (expired : Multiset Timer) + elems q.timers := hout.timers
  rw [zero_add, hqueued] at ht
  exact ⟨t, ht, rfl⟩

/-- An id that a pass leaves in the set is that of a timer it did not take
out, or of a repeating one, which is back in the queue. -/
theorem rearms {expired : List Timer} (hs : Backed expired s) {q : TimerQueue Q}
    (hre : Rearms now expired s.queue q) : Backed 0 { s with queue := q } := by
  intro id hid
  obtain ⟨hid, hrep⟩ := (hre.timerIdSet id).mp hid
  obtain ⟨t, ht, rfl⟩ := hs id hid
  change ∃ u ∈ 0 + elems q.timers, u.id = t.id
  rw [zero_add, hre.timers]
  rcases Multiset.mem_add.mp ht with ht | ht
  · refine ⟨t.restart now, Multiset.mem_add.mpr (Or.inr ?_), t.restart_id now⟩
    exact Multiset.mem_map_of_mem _ (Multiset.mem_filter.mpr ⟨ht, hrep t ht rfl, hid⟩)
  · exact ⟨t, Multiset.mem_add.mpr (Or.inl ht), rfl⟩

theorem handleRead (hs : Backed 0 s) (hsettled : Settled s)
    (h : s.handleRead now callback = some s') : Backed 0 s' := by
  have hout := getExpired_takesOut now s.queue hsettled.highestTask hsettled.lowestTask
  obtain ⟨s₁, hrun, rfl⟩ := handleRead_turns hsettled h
  have hturned : Backed (s.queue.getExpired now).2 s₁ := (hs.takesOut hout).runTimers hrun
  exact hturned.rearms (reset_rearms _ s₁.queue (hout.distinct hsettled))

/-! ## Runs -/

theorem of_run {acts : List TimerAct} (hrun : Run (TimerStep (Q := Q)) .new acts s) :
    Backed 0 s := by
  have hboth : Settled s ∧ Backed 0 s := by
    refine hrun.invariant (I := fun s => Settled s ∧ Backed 0 s) ?_
      ⟨.new, fun id hid => absurd hid (Finset.notMem_empty id)⟩
    rintro s a s' ⟨hsettled, hs⟩ hstep
    refine ⟨hsettled.step hstep, ?_⟩
    cases a with
    | op o => exact hs.op hstep
    | handleRead now callback => exact hs.handleRead hsettled hstep
  exact hboth.2

end Backed

theorem Settled.activeExact {s : TimerSys Q} (hs : Settled s) (hback : Backed 0 s) :
    ActiveExact s where
  distinct := hs.pool.distinct
  active := by
    intro id
    constructor
    · intro hid
      obtain ⟨t, ht, rfl⟩ := hback id hid
      rw [zero_add] at ht
      exact ⟨t, ht, rfl, (hs.pool.live t ht).mp hid⟩
    · rintro ⟨t, ht, rfl, hlive⟩
      exact (hs.pool.live t ht).mpr hlive
  bounded := by
    have hsub : s.queue.timerIdSet ⊆ (s.queued.map Timer.id).toFinset := by
      intro id hid
      obtain ⟨t, ht, rfl⟩ := hback id hid
      rw [zero_add] at ht
      exact Multiset.mem_toFinset.mpr (Multiset.mem_map_of_mem _ ht)
    calc s.queue.timerIdSet.card
        ≤ (s.queued.map Timer.id).toFinset.card := Finset.card_le_card hsub
      _ ≤ (s.queued.map Timer.id).card := Multiset.toFinset_card_le _
      _ = s.queued.card := Multiset.card_map _ _
  highestTask := hs.highestTask
  lowestTask := hs.lowestTask

/-- Between any two operations and passes of any run, with whatever
callbacks, the set of valid ids is exact. The passes return. -/
theorem active_timers_exact (acts : List TimerAct) :
    Throughout (TimerStep (Q := Q)) (fun s => ActiveExact s ∧ Returns s) .new acts := by
  intro pre s hpre hrun
  have hs := Settled.of_run hrun
  exact ⟨hs.activeExact (Backed.of_run hrun), fun _ _ => exists_handleRead hs⟩

/-- Timer 1 cancels timer 2 and adds timer 4. -/
def threeTimers : List TimerAct :=
  [.op (.add ⟨1, 4, 0, false, false⟩), .op (.add ⟨2, 50, 0, false, false⟩),
    .op (.add ⟨3, 5, 7, false, true⟩),
    .handleRead 10 fun id => if id = 1 then [.cancel 2, .add ⟨4, 20, 0, false, false⟩] else []]

/-- Timer 1 has run and left nothing behind; timer 2 is cancelled and waits
in the queue for its time; timer 3 repeats; timer 4 was added by a callback. -/
theorem active_timers_exact_three : ∃ s : TimerSys (List Timer), Run TimerStep .new threeTimers s ∧
    s.queue.timers.map Timer.id = [2, 4, 3] ∧ s.queue.timerIdSet = {3, 4} ∧ ActiveExact s := by
  obtain ⟨s, hs, hids, hset⟩ : ∃ s : TimerSys (List Timer),
      threeTimers.foldlM TimerSys.exec .new = some s ∧
      s.queue.timers.map Timer.id = [2, 4, 3] ∧ s.queue.timerIdSet = {3, 4} :=
    ⟨_, rfl, by decide +kernel, by decide +kernel⟩
  have hrun : Run TimerStep .new threeTimers s := .of_foldlM hs
  exact ⟨s, hrun, hids, hset,
    (active_timers_exact threeTimers threeTimers s List.prefix_rfl hrun).1⟩

end Netpoll
