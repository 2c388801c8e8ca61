import Netpoll.TimerLaw

/-!
# The priority tags of timers

A timer may ask for the highest or for the lowest priority in its pass;
the wheel's tick timer asks for the lowest. `getExpired` gives a tagged
timer one of the slots `m_highestTask` and `m_lowestTask` only when the
slot is taken already. Both slots are empty when a queue is made and after
every pass, so no timer ever gets into one, and a pass runs its timers in
the order in which the priority queue hands them out (`ranOf_eq_due`).
The tags are honoured when that order happens to agree with them.
-/

namespace Netpoll

open MinQueue (elems drain drainLoop pop?)

/-- The timers whose callbacks were run, in order. -/
def ranOf (evs : List TimerEvent) : List Timer :=
  evs.filterMap fun
    | .turn t true => some t
    | _ => none

/-- The timers `ran` of a pass, against those that were due. -/
structure Honoured (due : Multiset Timer) (ran : List Timer) : Prop where
  /-- Every timer that is due runs exactly once. -/
  once : (ran : Multiset Timer) = due
  highest : (∃ t ∈ ran, t.isHighest) → ∃ t rest, ran = t :: rest ∧ t.isHighest ∧
    ∀ u ∈ ran, u.isHighest → t.when ≤ u.when
  lowest : (∃ t ∈ ran, t.isLowest) → ∃ t rest, ran = rest ++ [t] ∧ t.isLowest ∧
    ∀ u ∈ ran, u.isLowest → t.when ≤ u.when

/-- A list of timers, the earliest first, that has its tagged timers where
the tags want them. -/
structure InPlace (due : List Timer) : Prop where
  highest : (∃ t ∈ due, t.isHighest) → ∃ t ∈ due.head?, t.isHighest
  lowest : (∃ t ∈ due, t.isLowest) → ∃ t ∈ due.getLast?, t.isLowest
  /-- Nothing is due later than a timer of the lowest priority. -/
  latest : ∀ t ∈ due, t.isLowest → ∀ u ∈ due, u.when ≤ t.when

theorem honoured_iff_inPlace {due : List Timer} (hsorted : due.Pairwise (·.when ≤ ·.when)) :
    Honoured due due ↔ InPlace due := by
  constructor
  · intro h
    refine ⟨fun hex => ?_, fun hex => ?_, fun t ht hlow u hu => ?_⟩
    · obtain ⟨t, rest, rfl, htag, -⟩ := h.highest hex
      exact ⟨t, rfl, htag⟩
    · obtain ⟨t, rest, rfl, htag, -⟩ := h.lowest hex
      exact ⟨t, by simp, htag⟩
    · obtain ⟨last, rest, rfl, -, hleast⟩ := h.lowest ⟨t, ht, hlow⟩
      have hlast : u.when ≤ last.when := by
        rcases List.mem_append.mp hu with hu | hu
        · exact (List.pairwise_append.mp hsorted).2.2 u hu last (List.mem_singleton_self last)
        · rw [List.mem_singleton.mp hu]
      exact hlast.trans (hleast t ht hlow)
  · intro h
    refine ⟨rfl, fun hex => ?_, fun hex => ?_⟩
    · obtain ⟨t, hhead, htag⟩ := h.highest hex
      obtain ⟨rest, rfl⟩ := List.head?_eq_some_iff.mp hhead
      refine ⟨t, rest, rfl, htag, fun u hu _ => ?_⟩
      rcases List.mem_cons.mp hu with rfl | hu
      · exact le_rfl
      · exact (List.pairwise_cons.mp hsorted).1 u hu
    · obtain ⟨t, hlast, htag⟩ := h.lowest hex
      obtain ⟨rest, rfl⟩ := List.getLast?_eq_some_iff.mp hlast
      exact ⟨t, rest, rfl, htag, fun u hu hlow => h.latest u hu hlow t (by simp)⟩

/-! ## A pass in which nothing is cancelled -/

/-- Whatever the callbacks do, they cancel nothing. -/
def OnlyAdds (callback : TimerId → List TimerOp) : Prop :=
  ∀ id, ∀ o ∈ callback id, ∃ t, o = .add t

section pass

variable {Q : Type*} [MinQueue Q Timer Timer.when] {s s' : TimerSys Q} {now : Int}
  {callback : TimerId → List TimerOp}

/-- The timers that are due and not cancelled, as the queue hands them out. -/
def TimerSys.due (s : TimerSys Q) (now : Int) : List Timer :=
  (drain s.queue.timers).filter fun t => t.when < now ∧ t.id ∈ s.queue.timerIdSet

theorem getExpiredLoop_eq_takeWhile (now : Int) (fuel : Nat) (q : TimerQueue Q)
    (acc : List Timer) (hhigh : q.highestTask = none) (hlow : q.lowestTask = none) :
    (q.getExpiredLoop now fuel acc).2 =
      acc ++ (drainLoop fuel q.timers).takeWhile (fun t => t.when < now) := by
  induction fuel generalizing q acc with
  | zero => simp [TimerQueue.getExpiredLoop, drainLoop]
  | succ fuel ih =>
      rw [TimerQueue.getExpiredLoop, drainLoop]
      cases pop? q.timers with
      | none => simp
      | some top =>
          obtain ⟨t, rest⟩ := top
          by_cases ht : t.when < now
          · have hnohigh : (t.isHighest && q.highestTask.isSome) = false := by simp [hhigh]
            have hnolow : (t.isLowest && q.lowestTask.isSome) = false := by simp [hlow]
            have hnext := ih { q with timers := rest } (acc ++ [t]) hhigh hlow
            simp only [if_pos ht, hnohigh, hnolow, Bool.false_eq_true, if_false]
            rw [hnext, List.takeWhile_cons_of_pos (by simpa using ht), List.append_assoc,
              List.singleton_append]
          · simp only [if_neg ht]
            rw [List.takeWhile_cons_of_neg (by simpa using ht), List.append_nil]

theorem takeWhile_eq_filter {l : List Timer} (h : l.Pairwise (·.when ≤ ·.when)) (now : Int) :
    l.takeWhile (fun t => t.when < now) = l.filter (fun t => t.when < now) := by
  induction l with
  | nil => rfl
  | cons t l ih =>
      obtain ⟨ht, hl⟩ := List.pairwise_cons.mp h
      by_cases hlt : t.when < now
      · rw [List.takeWhile_cons_of_pos (by simpa using hlt),
          List.filter_cons_of_pos (by simpa using hlt), ih hl]
      · rw [List.takeWhile_cons_of_neg (by simpa using hlt),
          List.filter_cons_of_neg (by simpa using hlt)]
        refine (List.filter_eq_nil_iff.mpr fun u hu => ?_).symm
        have := ht u hu
        simp only [decide_eq_true_eq]
        omega

theorem getExpired_eq_filter (hhigh : s.queue.highestTask = none)
    (hlow : s.queue.lowestTask = none) :
    (s.queue.getExpired now).2 = (drain s.queue.timers).filter (fun t => t.when < now) := by
  rw [TimerQueue.getExpired, getExpiredLoop_eq_takeWhile now _ _ _ hhigh hlow, List.nil_append]
  exact takeWhile_eq_filter (MinQueue.pairwise_drain _) now

/-- From `s` to `s'` the ids in use stay valid or not, and the callbacks of
`ran` were run. -/
structure Adds (s : TimerSys Q) (ran : List Timer) (s' : TimerSys Q) : Prop where
  trace : ∃ evs, s'.trace = s.trace ++ evs ∧ ranOf evs = ran
  used : s.used ⊆ s'.used
  valid : ∀ i ∈ s.used, i ∈ s'.queue.timerIdSet ↔ i ∈ s.queue.timerIdSet

omit [MinQueue Q Timer Timer.when] in
theorem Adds.refl (s : TimerSys Q) : Adds s [] s :=
  ⟨⟨[], by simp, rfl⟩, Finset.Subset.refl _, fun _ _ => Iff.rfl⟩

omit [MinQueue Q Timer Timer.when] in
theorem Adds.trans {s'' : TimerSys Q} {l m : List Timer} (h : Adds s l s') (h' : Adds s' m s'') :
    Adds s (l ++ m) s'' := by
  obtain ⟨evs, htrace, hran⟩ := h.trace
  obtain ⟨evs', htrace', hran'⟩ := h'.trace
  refine ⟨⟨evs ++ evs', ?_, ?_⟩, h.used.trans h'.used, fun i hi => ?_⟩
  · rw [htrace', htrace, List.append_assoc]
  · rw [← hran, ← hran']
    exact List.filterMap_append ..
  · rw [h'.valid i (h.used hi), h.valid i hi]

theorem add_adds {t : Timer} (h : s.op (.add t) = some s') : Adds s [] s' := by
  change s.add t = some s' at h
  unfold TimerSys.add at h
  split at h
  · cases h
  next hfresh =>
      obtain rfl := Option.some.inj h
      refine ⟨⟨[.added t], rfl, rfl⟩, Finset.subset_insert _ _, fun i hi => ?_⟩
      have hne : i ≠ t.id := fun heq => hfresh (heq ▸ hi)
      exact Finset.mem_insert.trans (or_iff_right hne)

theorem ops_adds {ops : List TimerOp} (hops : ∀ o ∈ ops, ∃ t, o = .add t)
    (h : ops.foldlM TimerSys.op s = some s') : Adds s [] s' := by
  induction ops generalizing s with
  | nil =>
      obtain rfl := Option.some.inj h
      exact .refl s
  | cons o ops ih =>
      rw [List.foldlM_cons] at h
      obtain ⟨s₁, ho, hrest⟩ := Option.bind_eq_some_iff.mp h
      obtain ⟨⟨t, rfl⟩, hops'⟩ := List.forall_mem_cons.mp hops
      exact (add_adds ho).trans (ih hops' hrest)

theorem runTimer_adds (hcb : OnlyAdds callback) {t : Timer}
    (h : s.runTimer callback t = some s') :
    Adds s (if t.id ∈ s.queue.timerIdSet then [t] else []) s' := by
  have hturn : ∀ ran, Adds s (if ran then [t] else []) (s.log (.turn t ran)) := fun ran =>
    ⟨⟨[.turn t ran], rfl, by cases ran <;> rfl⟩, Finset.Subset.refl _, fun _ _ => Iff.rfl⟩
  unfold TimerSys.runTimer at h
  split at h
  next hmem =>
      rw [if_pos hmem]
      exact (hturn true).trans (ops_adds (hcb t.id) h)
  next hmem =>
      rw [if_neg hmem]
      obtain rfl := Option.some.inj h
      exact hturn false

theorem runTimers_adds (hcb : OnlyAdds callback) {l : List Timer} (hl : ∀ t ∈ l, t.id ∈ s.used)
    (h : l.foldlM (TimerSys.runTimer callback) s = some s') :
    Adds s (l.filter fun t => t.id ∈ s.queue.timerIdSet) s' := by
  induction l generalizing s with
  | nil =>
      obtain rfl := Option.some.inj h
      exact .refl s
  | cons t l ih =>
      rw [List.foldlM_cons] at h
      obtain ⟨s₁, ht, hrest⟩ := Option.bind_eq_some_iff.mp h
      obtain ⟨-, hl⟩ := List.forall_mem_cons.mp hl
      have hfirst := runTimer_adds hcb ht
      have hlater := ih (fun u hu => hfirst.used (hl u hu)) hrest
      have hsame : (l.filter fun u => u.id ∈ s₁.queue.timerIdSet) =
          l.filter fun u => u.id ∈ s.queue.timerIdSet := by
        refine List.filter_congr fun u hu => ?_
        rw [decide_eq_decide]
        exact hfirst.valid u.id (hl u hu)
      rw [hsame] at hlater
      have hboth := hfirst.trans hlater
      rw [List.filter_cons]
      split
      next hmem =>
          rw [if_pos (by simpa using hmem)] at hboth
          exact hboth
      next hmem =>
          rw [if_neg (by simpa using hmem)] at hboth
          exact hboth

/-- A pass ignores the tags. -/
theorem ranOf_eq_due (hs : Settled s) (hcb : OnlyAdds callback)
    (h : s.handleRead now callback = some s') :
    ∃ evs, s'.trace = s.trace ++ evs ∧ ranOf evs = s.due now := by
  obtain ⟨s₁, hrun, rfl⟩ := handleRead_turns hs h
  have hout := getExpired_takesOut now s.queue hs.highestTask hs.lowestTask
  have hused : ∀ t ∈ (s.queue.getExpired now).2, t.id ∈ s.used := fun t ht =>
    hs.pool.mem_used (hout.mem t ht)
  obtain ⟨evs, htrace, hran⟩ :=
    (runTimers_adds (s := { s with queue := (s.queue.getExpired now).1 }) hcb hused hrun).trace
  refine ⟨evs, htrace, hran.trans ?_⟩
  rw [getExpired_eq_filter hs.highestTask hs.lowestTask, hout.timerIdSet, List.filter_filter,
    TimerSys.due]
  refine List.filter_congr fun t _ => ?_
  rw [Bool.decide_and, Bool.and_comm]

/-- In every state that a run reaches, a pass whose callbacks cancel nothing
honours the tags exactly when the times put the tagged timers in place. The
pass returns if the timers that are added have new ids. -/
theorem honoured_iff {acts : List TimerAct} (hrun : Run (TimerStep (Q := Q)) .new acts s)
    (hcb : OnlyAdds callback) :
    (AddsFresh s now callback → ∃ s', s.handleRead now callback = some s') ∧
      ∀ s', s.handleRead now callback = some s' → ∃ evs, s'.trace = s.trace ++ evs ∧
        (Honoured (s.queued.filter fun t => t.when < now ∧ t.id ∈ s.queue.timerIdSet) (ranOf evs) ↔
          InPlace (s.due now)) := by
  refine ⟨exists_handleRead (Settled.of_run hrun), fun s' h => ?_⟩
  obtain ⟨evs, htrace, hran⟩ := ranOf_eq_due (Settled.of_run hrun) hcb h
  have hdue : s.queued.filter (fun t => t.when < now ∧ t.id ∈ s.queue.timerIdSet) =
      (s.due now : Multiset Timer) := by
    change Multiset.filter _ (elems s.queue.timers) = _
    rw [← MinQueue.coe_drain, Multiset.filter_coe]
    rfl
  refine ⟨evs, htrace, ?_⟩
  rw [hran, hdue]
  exact honoured_iff_inPlace ((MinQueue.pairwise_drain _).filter _)

end pass

/-- A queue that the calls `addTimerInLoop` filled. -/
def queueOf (ts : List Timer) : Option (TimerSys (List Timer)) :=
  (ts.map fun t => TimerAct.op (.add t)).foldlM TimerSys.exec .new

/-- The timers that a pass at `now` over these timers runs, in order. -/
def passOver (ts : List Timer) (now : Int) : Option (List Timer) := do
  let s ← queueOf ts
  let s' ← s.handleRead now fun _ => []
  return ranOf (s'.trace.drop s.trace.length)

/-- The times agree with the tags. -/
theorem honoured_in_order :
    ∃ (s s' : TimerSys (List Timer)) (evs : List TimerEvent),
      queueOf [⟨3, 7, 0, false, true⟩, ⟨1, 5, 0, true, false⟩, ⟨2, 6, 0, false, false⟩] = some s ∧
      s.handleRead 10 (fun _ => []) = some s' ∧ s'.trace = s.trace ++ evs ∧
      Honoured (s.queued.filter fun t => t.when < 10 ∧ t.id ∈ s.queue.timerIdSet) (ranOf evs) := by
  obtain ⟨s, s', hs, hpass, hdue⟩ : ∃ s s' : TimerSys (List Timer),
      queueOf [⟨3, 7, 0, false, true⟩, ⟨1, 5, 0, true, false⟩, ⟨2, 6, 0, false, false⟩] = some s ∧
      s.handleRead 10 (fun _ => []) = some s' ∧
      s.due 10 = [⟨1, 5, 0, true, false⟩, ⟨2, 6, 0, false, false⟩, ⟨3, 7, 0, false, true⟩] :=
    ⟨_, _, rfl, rfl, by decide +kernel⟩
  obtain ⟨evs, htrace, hiff⟩ :=
    (honoured_iff (.of_foldlM hs) fun _ o ho => absurd ho (by simp)).2 s' hpass
  refine ⟨s, s', evs, hs, hpass, htrace, hiff.mpr ?_⟩
  rw [hdue]
  exact ⟨fun _ => ⟨_, rfl, rfl⟩, fun _ => ⟨_, rfl, rfl⟩, by decide⟩

/-- A timer of the highest priority runs after one that is due earlier, and
the tick of a wheel, which has the lowest, before one that is due later. -/
theorem not_honoured :
    passOver [⟨1, 5, 0, false, false⟩, ⟨2, 6, 0, true, false⟩] 10 =
        some [⟨1, 5, 0, false, false⟩, ⟨2, 6, 0, true, false⟩] ∧
      (∀ due, ¬ Honoured due [⟨1, 5, 0, false, false⟩, ⟨2, 6, 0, true, false⟩]) ∧
      passOver [⟨1, 5, 1, false, true⟩, ⟨2, 6, 0, false, false⟩] 10 =
        some [⟨1, 5, 1, false, true⟩, ⟨2, 6, 0, false, false⟩] ∧
      ∀ due, ¬ Honoured due [⟨1, 5, 1, false, true⟩, ⟨2, 6, 0, false, false⟩] := by
  refine ⟨by decide +kernel, fun due h => ?_, by decide +kernel, fun due h => ?_⟩
  · obtain ⟨t, rest, heq, htag, -⟩ := h.highest (by simp)
    rw [← (List.cons.inj heq).1] at htag
    cases htag
  · obtain ⟨t, rest, heq, htag, -⟩ := h.lowest (by simp)
    have hlast := congrArg List.getLast? heq
    rw [List.getLast?_concat] at hlast
    rw [← Option.some.inj hlast] at htag
    cases htag

end Netpoll
