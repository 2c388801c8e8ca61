import Mathlib.Data.List.Nodup
import Netpoll.Precedes
import Netpoll.Threads

/-!
# The order of sends

What has been handled, followed by the task that is about to be and by the
queue, is one line (`Threads.line`) in which every call has at most one
place: a step appends a call to it, moves a task along it, or puts a call
of the loop thread right behind what has been handled.

The last of these is where a call could overtake. A send does it only after
it has read `m_sendNum = 0`, and since the counter is that of the calls
between their increment and the end of their task (`Counted`), nothing
that returned before can still be queued then. So the line is in the order
of the calls (`Ordered`). A `shutdown()` of the loop thread does not ask:
it can overtake the sends of its own thread.
-/

namespace Netpoll

variable {T : Type}

/-! ## What a trace says -/

/-- The calls handled on the loop thread, in order. -/
def handledOf (trace : List (Mark T)) : List (Job T) :=
  trace.filterMap fun
    | .handle j _ => some j
    | _ => none

/-- The payloads that reached the write path, in order. -/
def deliveredOf (trace : List (Mark T)) : List (Job T) :=
  trace.filterMap fun
    | .handle j true => some j
    | _ => none

/-- The calls that bumped `m_sendNum`. -/
def incsOf (trace : List (Mark T)) : List (Job T) :=
  trace.filterMap fun
    | .inc j => some j
    | _ => none

/-- The calls that bumped `m_sendNum` and whose task has not finished. -/
def pendingOf [DecidableEq T] (trace : List (Mark T)) : List (Job T) :=
  (incsOf trace).filter fun j => .fin j ∉ trace

/-- `i` returned before `j` started. -/
def Before (trace : List (Mark T)) (i j : Job T) : Prop := Precedes trace (.ret i) (.call j)

variable {trace evs : List (Mark T)} {i j k : Job T}

theorem handledOf_append (t u : List (Mark T)) :
    handledOf (t ++ u) = handledOf t ++ handledOf u :=
  List.filterMap_append

theorem mem_handledOf : j ∈ handledOf trace ↔ ∃ took, .handle j took ∈ trace := by
  unfold handledOf
  rw [List.mem_filterMap]
  constructor
  · rintro ⟨m, hm, heq⟩
    cases m with
    | handle k took =>
        cases heq
        exact ⟨took, hm⟩
    | _ => cases heq
  · rintro ⟨took, hm⟩
    exact ⟨_, hm, rfl⟩

theorem mem_incsOf : j ∈ incsOf trace ↔ .inc j ∈ trace := by
  unfold incsOf
  rw [List.mem_filterMap]
  constructor
  · rintro ⟨m, hm, heq⟩
    cases m with
    | inc k =>
        cases heq
        exact hm
    | _ => cases heq
  · intro hm
    exact ⟨_, hm, rfl⟩

theorem before_append_iff (h : ∀ j, .call j ∉ evs) : Before (trace ++ evs) i j ↔ Before trace i j :=
  ⟨fun hb => hb.of_append (h j), fun hb => hb.append_right evs⟩

theorem deliveredOf_eq (h : ∀ j took, .handle j took ∈ trace → took = true) :
    deliveredOf trace = handledOf trace := by
  unfold deliveredOf handledOf
  refine List.filterMap_congr fun m hm => ?_
  cases m with
  | handle j took =>
      obtain rfl := h j took hm
      rfl
  | _ => rfl

namespace Threads

/-- The task that the loop has taken and not handled yet. -/
def running (s : Threads T) : List (Job T) :=
  match s.task with
  | some (j, false) => [j]
  | _ => []

def line (s : Threads T) : List (Job T) := handledOf s.trace ++ (s.running ++ s.queue)

end Threads

/-! ## Every call has one place -/

/-- Where the calls are: a call that is running is in the line once it has
been handled or enqueued, and one that has returned is in the line. -/
structure Placed (s : Threads T) : Prop where
  calls : ∀ t, ∀ p ∈ s.calls t, p.1.thread = t ∧ .call p.1 ∈ s.trace ∧ .ret p.1 ∉ s.trace ∧
    (p.1 ∈ s.line ↔ p.2.entered = true)
  once : ∀ t, ((s.calls t).map Prod.fst).Nodup
  fresh : ∀ j, .call j ∈ s.trace → j.id < s.next
  lined : ∀ j ∈ s.line, .call j ∈ s.trace
  nodup : s.line.Nodup
  returned : ∀ j, .ret j ∈ s.trace → j ∈ s.line

namespace Threads

theorem handle_eq (s : Threads T) (j : Job T) : ∃ b took,
    s.handle j = { s with connected := b, trace := s.trace ++ [.handle j took] } := by
  unfold handle
  split
  · exact ⟨s.connected, _, rfl⟩
  · exact ⟨false, _, rfl⟩

theorem mem_update [DecidableEq T] {t t' : T} {s : Threads T} {cs : List (Job T × Stage)}
    {p : Job T × Stage} (h : p ∈ Function.update s.calls t cs t') :
    t' = t ∧ p ∈ cs ∨ t' ≠ t ∧ p ∈ s.calls t' := by
  by_cases ht : t' = t
  · subst ht
    rw [Function.update_self] at h
    exact Or.inl ⟨rfl, h⟩
  · rw [Function.update_of_ne ht] at h
    exact Or.inr ⟨ht, h⟩

theorem mem_update_top [DecidableEq T] {t t' : T} {s : Threads T} {c q p : Job T × Stage}
    {rest : List (Job T × Stage)} (hc : s.calls t = c :: rest)
    (h : p ∈ Function.update s.calls t (q :: rest) t') : p = q ∨ p ∈ s.calls t' := by
  rcases mem_update h with ⟨rfl, htop⟩ | ⟨-, hp⟩
  · rcases List.mem_cons.mp htop with heq | hrest
    · exact Or.inl heq
    · rw [hc]
      exact Or.inr (List.mem_cons_of_mem _ hrest)
  · exact Or.inr hp

theorem mem_update_pop [DecidableEq T] {t t' : T} {s : Threads T} {c p : Job T × Stage}
    {rest : List (Job T × Stage)} (hc : s.calls t = c :: rest)
    (h : p ∈ Function.update s.calls t rest t') : p ∈ s.calls t' := by
  rcases mem_update h with ⟨rfl, hrest⟩ | ⟨-, hp⟩
  · rw [hc]
    exact List.mem_cons_of_mem _ hrest
  · exact hp

end Threads

namespace Placed

open Threads

variable {loop t t' : T} {s s' : Threads T} {st st' : Stage} {rest : List (Job T × Stage)}
  {p : Job T × Stage}

theorem new : Placed (Threads.new : Threads T) := by
  refine ⟨?_, ?_, ?_, ?_, ?_, ?_⟩ <;> simp [Threads.new, line, running, handledOf]

theorem ne_of_other (h : Placed s) (hc : s.calls t = (j, st) :: rest) (hp : p ∈ s.calls t')
    (ho : t' ≠ t ∨ p ∈ rest) : p.1 ≠ j := by
  intro heq
  have hj := h.calls t (j, st) (by rw [hc]; exact List.mem_cons_self)
  rcases ho with ht | hr
  · have := (h.calls t' p hp).1
    rw [heq, hj.1] at this
    exact ht this.symm
  · have hnd := h.once t
    rw [hc, List.map_cons, List.nodup_cons] at hnd
    have hmem := List.mem_map_of_mem (f := Prod.fst) hr
    rw [heq] at hmem
    exact hnd.1 hmem

theorem along (h : Placed s) (evs : List (Mark T)) (hcalls : s'.calls = s.calls) (hnext : s'.next = s.next)
    (htrace : s'.trace = s.trace ++ evs) (hevs : ∀ k, .call k ∉ evs ∧ .ret k ∉ evs)
    (hline : s'.line = s.line) : Placed s' := by
  have hcall : ∀ k, .call k ∈ s'.trace ↔ .call k ∈ s.trace := fun k => by simp [htrace, hevs]
  have hret : ∀ k, .ret k ∈ s'.trace ↔ .ret k ∈ s.trace := fun k => by simp [htrace, hevs]
  refine ⟨?_, ?_, ?_, ?_, ?_, ?_⟩
  · intro t p hp
    rw [hcalls] at hp
    rw [hcall, hret, hline]
    exact h.calls t p hp
  · rw [hcalls]
    exact h.once
  · intro k hk
    rw [hnext]
    exact h.fresh k ((hcall k).mp hk)
  · intro k hk
    rw [hcall]
    exact h.lined k (by rw [← hline]; exact hk)
  · rw [hline]
    exact h.nodup
  · intro k hk
    rw [hline]
    exact h.returned k ((hret k).mp hk)

theorem goOn [DecidableEq T] (h : Placed s) (evs : List (Mark T))
    (hc : s.calls t = (j, st) :: rest) (hst : st.entered = false)
    (hcalls : s'.calls = Function.update s.calls t ((j, st') :: rest)) (hnext : s'.next = s.next)
    (htrace : s'.trace = s.trace ++ evs) (hevs : ∀ k, .call k ∉ evs ∧ .ret k ∉ evs)
    (hline : ∀ x, x ∈ s'.line ↔ x ∈ s.line ∨ x = j ∧ st'.entered = true)
    (hnd : s'.line.Nodup) : Placed s' := by
  have hj := h.calls t (j, st) (by rw [hc]; exact List.mem_cons_self)
  have hcall : ∀ k, .call k ∈ s'.trace ↔ .call k ∈ s.trace := fun k => by simp [htrace, hevs]
  have hret : ∀ k, .ret k ∈ s'.trace ↔ .ret k ∈ s.trace := fun k => by simp [htrace, hevs]
  refine ⟨fun t' p hp => ?_, fun t' => ?_, fun k hk => ?_, fun k hk => ?_, hnd, fun k hk => ?_⟩
  · rw [hcalls] at hp
    rw [hcall, hret, hline]
    have hother : p ∈ s.calls t' → (t' ≠ t ∨ p ∈ rest) → p.1.thread = t' ∧
        .call p.1 ∈ s.trace ∧ .ret p.1 ∉ s.trace ∧
        (p.1 ∈ s.line ∨ p.1 = j ∧ st'.entered = true ↔ p.2.entered = true) := by
      intro hp ho
      obtain ⟨hth, hcl, hr, hl⟩ := h.calls t' p hp
      refine ⟨hth, hcl, hr, ?_⟩
      rw [← hl]
      exact or_iff_left fun hx => h.ne_of_other hc hp ho hx.1
    rcases mem_update hp with ⟨rfl, htop⟩ | ⟨hne, hp⟩
    · rcases List.mem_cons.mp htop with rfl | hrest
      · refine ⟨hj.1, hj.2.1, hj.2.2.1, ?_⟩
        have hno : j ∉ s.line := fun hmem => by
          rw [hj.2.2.2.mp hmem] at hst
          cases hst
        simp [hno]
      · exact hother (by rw [hc]; exact List.mem_cons_of_mem _ hrest) (Or.inr hrest)
    · exact hother hp (Or.inl hne)
  · rw [hcalls]
    by_cases ht : t' = t
    · subst ht
      rw [Function.update_self]
      have := h.once t'
      rwa [hc] at this
    · rw [Function.update_of_ne ht]
      exact h.once t'
  · rw [hnext]
    exact h.fresh k ((hcall k).mp hk)
  · rw [hcall]
    rcases (hline k).mp hk with hk | ⟨rfl, -⟩
    · exact h.lined k hk
    · exact hj.2.1
  · exact (hline k).mpr (Or.inl (h.returned k ((hret k).mp hk)))

end Placed

namespace Threads

variable {s : Threads T}

theorem line_log (s : Threads T) {m : Mark T} (hm : handledOf [m] = []) :
    (s.log m).line = s.line := by
  simp only [line, running, Threads.log, handledOf_append, hm, List.append_nil]

theorem line_queueInLoop (s : Threads T) (j : Job T) : (s.queueInLoop j).line = s.line ++ [j] := by
  simp [line, running, queueInLoop]

theorem line_handle (s : Threads T) (j : Job T) :
    (s.handle j).line = handledOf s.trace ++ j :: (s.running ++ s.queue) := by
  obtain ⟨b, took, heq⟩ := s.handle_eq j
  rw [heq]
  simp [line, running, handledOf]

theorem mem_line_handle {k : Job T} :
    k ∈ handledOf s.trace ++ j :: (s.running ++ s.queue) ↔ k ∈ s.line ∨ k = j := by
  simp only [line, List.mem_append, List.mem_cons]
  constructor
  · rintro (hk | rfl | hk)
    · exact Or.inl (Or.inl hk)
    · exact Or.inr rfl
    · exact Or.inl (Or.inr hk)
  · rintro ((hk | hk) | rfl)
    · exact Or.inl hk
    · exact Or.inr (Or.inr hk)
    · exact Or.inr (Or.inl rfl)

theorem line_dequeue {q : List (Job T)} (ht : s.task = none) (hq : s.queue = j :: q) :
    ({ s with task := some (j, false), queue := q } : Threads T).line = s.line := by
  simp [line, running, ht, hq]

theorem line_run (ht : s.task = some (j, false)) :
    ({ s.handle j with task := some (j, true) } : Threads T).line = s.line := by
  obtain ⟨b, took, heq⟩ := s.handle_eq j
  rw [heq]
  simp [line, running, ht, handledOf]

theorem line_taskEnd {ran : Threads T} (ht : s.task = some (j, true))
    (hq : ran.queue = s.queue) (hh : handledOf ran.trace = handledOf s.trace) :
    ({ ran with task := none } : Threads T).line = s.line := by
  simp [line, running, ht, hq, hh]

end Threads

theorem Stage.not_entered_of_early {st : Stage} (h : st.early = true) : st.entered = false := by
  cases st with
  | start => rfl
  | locked => rfl
  | plus => rfl
  | _ => cases h

namespace Placed

open Threads

variable [DecidableEq T] {loop t : T} {s s' : Threads T} {st : Stage}
  {rest : List (Job T × Stage)}

omit [DecidableEq T] in
theorem not_mem_line (h : Placed s) (hc : s.calls t = (j, st) :: rest)
    (hst : st.entered = false) : j ∉ s.line := by
  intro hmem
  have hcall := h.calls t (j, st) (by rw [hc]; exact List.mem_cons_self)
  rw [hcall.2.2.2.mp hmem] at hst
  cases hst

theorem call (h : Placed s) (t : T) (op : Op) :
    Placed (({ s with next := s.next + 1 }.log (.call ⟨s.next, t, op⟩)).setCalls t
      ((⟨s.next, t, op⟩, .start) :: s.calls t)) := by
  have hnew : .call ⟨s.next, t, op⟩ ∉ s.trace := fun hmem => Nat.lt_irrefl _ (h.fresh _ hmem)
  have hline : (({ s with next := s.next + 1 }.log (.call ⟨s.next, t, op⟩)).setCalls t
      ((⟨s.next, t, op⟩, .start) :: s.calls t)).line = s.line := line_log _ rfl
  have hno : (⟨s.next, t, op⟩ : Job T) ∉ s.line := fun hmem => hnew (h.lined _ hmem)
  have hmono : ∀ k, .call k ∈ s.trace → .call k ∈ s.trace ++ [.call ⟨s.next, t, op⟩] :=
    fun k hk => List.mem_append_left _ hk
  have hret : ∀ k, .ret k ∈ s.trace ++ [.call ⟨s.next, t, op⟩] → .ret k ∈ s.trace :=
    fun k hk => by simpa using hk
  refine ⟨fun t' p hp => ?_, fun t' => ?_, fun k hk => ?_, fun k hk => ?_, ?_, fun k hk => ?_⟩
  · rw [hline]
    have hother : p ∈ s.calls t' → p.1.thread = t' ∧
        .call p.1 ∈ s.trace ++ [.call ⟨s.next, t, op⟩] ∧
        .ret p.1 ∉ s.trace ++ [.call ⟨s.next, t, op⟩] ∧ (p.1 ∈ s.line ↔ p.2.entered = true) := by
      intro hp
      obtain ⟨hth, hcl, hr, hl⟩ := h.calls t' p hp
      exact ⟨hth, hmono _ hcl, fun hmem => hr (hret _ hmem), hl⟩
    rcases mem_update hp with ⟨rfl, htop⟩ | ⟨hne, hp⟩
    · rcases List.mem_cons.mp htop with rfl | hrest
      · refine ⟨rfl, List.mem_append_right _ List.mem_cons_self, fun hmem => ?_, ?_⟩
        · exact hno (h.returned _ (hret _ hmem))
        · simp [hno, Stage.entered]
      · exact hother hrest
    · exact hother hp
  · simp only [setCalls, Threads.log]
    by_cases ht : t' = t
    · subst ht
      rw [Function.update_self, List.map_cons, List.nodup_cons]
      refine ⟨fun hmem => ?_, h.once t'⟩
      obtain ⟨p, hp, heq⟩ := List.mem_map.mp hmem
      have hcl := (h.calls t' p hp).2.1
      rw [heq] at hcl
      exact hnew hcl
    · rw [Function.update_of_ne ht]
      exact h.once t'
  · rcases List.mem_append.mp hk with hk | hk
    · exact Nat.lt_succ_of_lt (h.fresh k hk)
    · cases List.mem_singleton.mp hk
      exact Nat.lt_succ_self _
  · rw [hline] at hk
    exact hmono k (h.lined k hk)
  · rw [hline]
    exact h.nodup
  · rw [hline]
    exact h.returned k (hret k hk)

theorem ret (h : Placed s) (m : Option (Job T)) (hc : s.calls t = (j, st) :: rest)
    (hst : st.entered = true) : Placed (({ s with mutex := m }.log (.ret j)).setCalls t rest) := by
  have hj := h.calls t (j, st) (by rw [hc]; exact List.mem_cons_self)
  have hline : (({ s with mutex := m }.log (.ret j)).setCalls t rest).line = s.line :=
    line_log _ rfl
  have hcall : ∀ k, .call k ∈ s.trace ++ [.ret j] ↔ .call k ∈ s.trace := fun k => by simp
  have hret : ∀ k, .ret k ∈ s.trace ++ [.ret j] ↔ .ret k ∈ s.trace ∨ k = j := fun k => by simp
  refine ⟨fun t' p hp => ?_, fun t' => ?_, fun k hk => ?_, fun k hk => ?_, ?_, fun k hk => ?_⟩
  · rw [hline]
    have hother : p ∈ s.calls t' → (t' ≠ t ∨ p ∈ rest) → p.1.thread = t' ∧
        .call p.1 ∈ s.trace ++ [.ret j] ∧ .ret p.1 ∉ s.trace ++ [.ret j] ∧
        (p.1 ∈ s.line ↔ p.2.entered = true) := by
      intro hp ho
      obtain ⟨hth, hcl, hr, hl⟩ := h.calls t' p hp
      refine ⟨hth, (hcall _).mpr hcl, fun hmem => ?_, hl⟩
      exact ((hret _).mp hmem).elim hr (h.ne_of_other hc hp ho)
    rcases mem_update hp with ⟨rfl, hrest⟩ | ⟨hne, hp⟩
    · exact hother (by rw [hc]; exact List.mem_cons_of_mem _ hrest) (Or.inr hrest)
    · exact hother hp (Or.inl hne)
  · simp only [setCalls, Threads.log]
    by_cases ht : t' = t
    · subst ht
      have hnd := h.once t'
      rw [hc, List.map_cons, List.nodup_cons] at hnd
      rw [Function.update_self]
      exact hnd.2
    · rw [Function.update_of_ne ht]
      exact h.once t'
  · exact h.fresh k ((hcall k).mp hk)
  · rw [hline] at hk
    exact (hcall k).mpr (h.lined k hk)
  · rw [hline]
    exact h.nodup
  · rw [hline]
    rcases (hret k).mp hk with hk | rfl
    · exact h.returned k hk
    · exact hj.2.2.2.mpr hst

theorem step (h : Placed s) {l : Turn T} (hm : Moves loop s l s') : Placed s' := by
  cases hm with
  | call op => exact h.call _ op
  | @advance t j st st' rest m hc _ hst hst' =>
      have hent : st'.entered = false := by
        rcases hst' with ⟨he, -⟩ | ⟨rfl, -⟩
        · exact Stage.not_entered_of_early he
        · rfl
      have hline : ({ s with mutex := m }.setCalls t ((j, st') :: rest)).line = s.line := rfl
      refine h.goOn [] hc (Stage.not_entered_of_early hst) rfl rfl (by simp [setCalls])
        (by simp) (fun x => ?_) ?_
      · rw [hline, hent]
        simp
      · rw [hline]
        exact h.nodup
  | @inc t j st rest hc _ hst =>
      have hline : ((s.plusSendNum j).setCalls t ((j, .enqueue) :: rest)).line = s.line :=
        line_log _ rfl
      refine h.goOn [.inc j] hc (Stage.not_entered_of_early hst) rfl rfl rfl (by simp)
        (fun x => ?_) ?_
      · rw [hline]
        simp [Stage.entered]
      · rw [hline]
        exact h.nodup
  | @enqueue t j st rest hc hst =>
      have hent : st.entered = false := by
        rcases hst with ⟨-, rfl⟩ | ⟨-, rfl, -⟩ <;> rfl
      have hno := h.not_mem_line hc hent
      have hline : ((s.queueInLoop j).setCalls t ((j, .done) :: rest)).line = s.line ++ [j] :=
        line_queueInLoop s j
      refine h.goOn [] hc hent rfl rfl (by simp [setCalls, queueInLoop]) (by simp)
        (fun x => ?_) ?_
      · rw [hline]
        simp [Stage.entered]
      · rw [hline]
        exact List.Nodup.append h.nodup (List.nodup_singleton j) (by simpa using hno)
  | @handle t j st st' rest hc hst =>
      have hent : st.entered = false ∧ st'.entered = true := by
        rcases hst with ⟨-, rfl, rfl⟩ | ⟨-, rfl, -, rfl⟩ <;> exact ⟨rfl, rfl⟩
      have hno := h.not_mem_line hc hent.1
      have hline : ((s.handle j).setCalls t ((j, st') :: rest)).line
          = handledOf s.trace ++ j :: (s.running ++ s.queue) := line_handle s j
      obtain ⟨b, took, heq⟩ := s.handle_eq j
      rw [heq] at hline ⊢
      refine h.goOn [.handle j took] hc hent.1 rfl rfl rfl (by simp) (fun x => ?_) ?_
      · rw [hline, hent.2, mem_line_handle]
        simp only [and_true]
      · rw [hline, List.nodup_middle, List.nodup_cons]
        exact ⟨hno, h.nodup⟩
  | ret m hc hst => exact h.ret m hc hst
  | @dequeue j q ht _ hq =>
      exact h.along [] rfl rfl (by simp) (by simp) (line_dequeue ht hq)
  | @run j ht _ =>
      have hline := line_run ht
      obtain ⟨b, took, heq⟩ := s.handle_eq j
      rw [heq] at hline ⊢
      exact h.along [.handle j took] rfl rfl rfl (by simp) hline
  | @fin j ht _ _ =>
      refine h.along [.fin j] rfl rfl rfl (by simp) (line_taskEnd ht rfl ?_)
      simp [minusSendNum, Threads.log, handledOf]
  | @idle j ht _ _ => exact h.along [] rfl rfl (by simp) (by simp) (line_taskEnd ht rfl rfl)

end Placed

/-! ## The counter -/

theorem incsOf_append (t u : List (Mark T)) : incsOf (t ++ u) = incsOf t ++ incsOf u :=
  List.filterMap_append

section pending

variable [DecidableEq T]

theorem mem_pendingOf : j ∈ pendingOf trace ↔ .inc j ∈ trace ∧ .fin j ∉ trace := by
  simp [pendingOf, mem_incsOf]

theorem pendingOf_append (h : ∀ k, .inc k ∉ evs ∧ .fin k ∉ evs) :
    pendingOf (trace ++ evs) = pendingOf trace := by
  have hincs : incsOf evs = [] :=
    List.eq_nil_iff_forall_not_mem.mpr fun k hk => (h k).1 (mem_incsOf.mp hk)
  unfold pendingOf
  rw [incsOf_append, hincs, List.append_nil]
  refine List.filter_congr fun k _ => ?_
  simp [(h k).2]

theorem pendingOf_inc (hfin : .fin j ∉ trace) :
    pendingOf (trace ++ [.inc j]) = pendingOf trace ++ [j] := by
  unfold pendingOf
  rw [incsOf_append, List.filter_append]
  simp [incsOf, hfin]

theorem pendingOf_fin (hnd : (incsOf trace).Nodup) (hj : j ∈ pendingOf trace) :
    (pendingOf (trace ++ [.fin j])).length = (pendingOf trace).length - 1 := by
  have heq : pendingOf (trace ++ [.fin j]) = (pendingOf trace).erase j := by
    have hnd' : (pendingOf trace).Nodup := hnd.filter _
    rw [hnd'.erase_eq_filter]
    unfold pendingOf
    rw [incsOf_append, List.filter_filter, show incsOf [.fin j] = [] from rfl, List.append_nil]
    refine List.filter_congr fun k _ => ?_
    rw [Bool.eq_iff_iff]
    simp [and_comm]
  rw [heq, List.length_erase_of_mem hj]

end pending

/-- `m_sendNum` is the number of calls between their increment and the end
of their task, and all queued sends are among them. -/
structure Counted [DecidableEq T] (s : Threads T) : Prop where
  num : s.sendNum = (pendingOf s.trace).length
  incOnce : (incsOf s.trace).Nodup
  finInc : ∀ j, .fin j ∈ s.trace → .inc j ∈ s.trace
  begun : ∀ j, .inc j ∈ s.trace → .call j ∈ s.trace
  early : ∀ t, ∀ p ∈ s.calls t, p.2.early = true → .inc p.1 ∉ s.trace
  enqueue : ∀ t j, (j, .enqueue) ∈ s.calls t → j ∈ pendingOf s.trace
  queue : ∀ j ∈ s.queue, j.isSend = true → j ∈ pendingOf s.trace
  task : ∀ j ran, s.task = some (j, ran) → j.isSend = true → j ∈ pendingOf s.trace
  ran : ∀ j, s.task = some (j, true) → j ∈ handledOf s.trace

namespace Counted

open Threads

variable [DecidableEq T] {loop t : T} {s s' : Threads T} {st : Stage}
  {rest : List (Job T × Stage)}

theorem new : Counted (Threads.new : Threads T) := by
  refine ⟨?_, ?_, ?_, ?_, ?_, ?_, ?_, ?_, ?_⟩ <;> simp [Threads.new, pendingOf, incsOf]

theorem quiet (h : Counted s) (evs : List (Mark T)) (hnum : s'.sendNum = s.sendNum)
    (htrace : s'.trace = s.trace ++ evs) (hevs : ∀ k, .inc k ∉ evs ∧ .fin k ∉ evs)
    (hcalls : ∀ t, ∀ p ∈ s'.calls t, p ∈ s.calls t ∨
      (p.2.early = true → .inc p.1 ∉ s.trace) ∧ p.2 ≠ .enqueue)
    (hqueue : ∀ j ∈ s'.queue, j.isSend = true → j ∈ pendingOf s.trace)
    (htask : ∀ j ran, s'.task = some (j, ran) → j.isSend = true → j ∈ pendingOf s.trace)
    (hran : ∀ j, s'.task = some (j, true) → j ∈ handledOf s'.trace) : Counted s' := by
  have hpend : pendingOf s'.trace = pendingOf s.trace := by
    rw [htrace]
    exact pendingOf_append hevs
  have hinc : ∀ k, .inc k ∈ s'.trace ↔ .inc k ∈ s.trace := fun k => by
    rw [htrace, List.mem_append]
    exact or_iff_left (hevs k).1
  have hfin : ∀ k, .fin k ∈ s'.trace ↔ .fin k ∈ s.trace := fun k => by
    rw [htrace, List.mem_append]
    exact or_iff_left (hevs k).2
  refine ⟨?_, ?_, fun k hk => ?_, fun k hk => ?_, fun t p hp he => ?_, fun t j hj => ?_, ?_, ?_, hran⟩
  · rw [hnum, hpend]
    exact h.num
  · have hnil : incsOf evs = [] :=
      List.eq_nil_iff_forall_not_mem.mpr fun k hk => (hevs k).1 (mem_incsOf.mp hk)
    rw [htrace, incsOf_append, hnil, List.append_nil]
    exact h.incOnce
  · rw [hinc]
    exact h.finInc k ((hfin k).mp hk)
  · rw [htrace]
    exact List.mem_append_left _ (h.begun k ((hinc k).mp hk))
  · rw [hinc]
    rcases hcalls t p hp with hp | ⟨hno, -⟩
    · exact h.early t p hp he
    · exact hno he
  · rw [hpend]
    rcases hcalls t _ hj with hj | ⟨-, hne⟩
    · exact h.enqueue t j hj
    · exact absurd rfl hne
  · rw [hpend]
    exact hqueue
  · rw [hpend]
    exact htask

theorem inc (h : Counted s) (hp : Placed s) (hc : s.calls t = (j, st) :: rest)
    (hst : st.early = true) :
    Counted ((s.plusSendNum j).setCalls t ((j, .enqueue) :: rest)) := by
  have hmem : (j, st) ∈ s.calls t := by rw [hc]; exact List.mem_cons_self
  have hno : .inc j ∉ s.trace := h.early t _ hmem hst
  have hfin : .fin j ∉ s.trace := fun hf => hno (h.finInc j hf)
  have hpend := pendingOf_inc hfin
  have hmono : ∀ k ∈ pendingOf s.trace, k ∈ pendingOf (s.trace ++ [.inc j]) := fun k hk => by
    rw [hpend]
    exact List.mem_append_left _ hk
  have hother : ∀ {t' : T} {p : Job T × Stage},
      p ∈ ((s.plusSendNum j).setCalls t ((j, .enqueue) :: rest)).calls t' →
      p = (j, .enqueue) ∨ p ∈ s.calls t' ∧ p.1 ≠ j := by
    intro t' p hmem
    rcases mem_update hmem with ⟨rfl, htop⟩ | ⟨hne, hmem⟩
    · rcases List.mem_cons.mp htop with rfl | hrest
      · exact Or.inl rfl
      · have hmem' : p ∈ s.calls t' := by rw [hc]; exact List.mem_cons_of_mem _ hrest
        exact Or.inr ⟨hmem', hp.ne_of_other hc hmem' (Or.inr hrest)⟩
    · exact Or.inr ⟨hmem, hp.ne_of_other hc hmem (Or.inl hne)⟩
  refine ⟨?_, ?_, fun k hk => ?_, fun k hk => ?_, fun t' p hmem' he => ?_, fun t' k hk => ?_,
    fun k hk hs => hmono k (h.queue k hk hs), fun k ran hk hs => hmono k (h.task k ran hk hs),
    fun k hk => ?_⟩
  · simp only [plusSendNum, setCalls, Threads.log, hpend, List.length_append, List.length_singleton]
    rw [h.num]
  · simp only [plusSendNum, setCalls, Threads.log, incsOf_append]
    exact List.Nodup.append h.incOnce (List.nodup_singleton j)
      (List.disjoint_singleton.mpr fun hmem => hno (mem_incsOf.mp hmem))
  · have hk' : .fin k ∈ s.trace := by
      simpa [plusSendNum, setCalls, Threads.log] using hk
    exact List.mem_append_left _ (h.finInc k hk')
  · rcases List.mem_append.mp hk with hk | hk
    · exact List.mem_append_left _ (h.begun k hk)
    · cases List.mem_singleton.mp hk
      exact List.mem_append_left _ (hp.calls t _ hmem).2.1
  · rcases hother hmem' with rfl | ⟨hmem', hne⟩
    · cases he
    · intro hk
      rcases List.mem_append.mp hk with hk | hk
      · exact h.early t' p hmem' he hk
      · cases List.mem_singleton.mp hk
        exact hne rfl
  · rcases hother hk with heq | ⟨hk, -⟩
    · cases heq
      exact hpend ▸ List.mem_append_right _ List.mem_cons_self
    · exact hmono k (h.enqueue t' k hk)
  · have := h.ran k hk
    simpa [plusSendNum, setCalls, Threads.log, handledOf] using this

/-- `--m_sendNum` at the end of a task: it does not wrap. -/
theorem fin (h : Counted s) (hp : Placed s) (ht : s.task = some (j, true))
    (hj : j.isSend = true) : Counted { s.minusSendNum j with task := none } := by
  have hpj := h.task j true ht hj
  have hpos : 0 < (pendingOf s.trace).length := List.length_pos_of_mem hpj
  have hline : j ∈ s.line := List.mem_append_left _ (h.ran j ht)
  have hkeep : ∀ k ∈ pendingOf s.trace, k ≠ j → k ∈ pendingOf (s.trace ++ [.fin j]) := by
    intro k hk hne
    rw [mem_pendingOf] at hk ⊢
    exact ⟨List.mem_append_left _ hk.1, by simp [hk.2, hne]⟩
  refine ⟨?_, ?_, fun k hk => ?_, fun k hk => ?_, fun t' p hmem he => ?_, fun t' k hk => ?_,
    fun k hk hs => ?_, fun k ran hk => ?_, fun k hk => ?_⟩
  · simp only [minusSendNum, Threads.log]
    rw [if_neg (by rw [h.num]; omega), pendingOf_fin h.incOnce hpj, h.num]
  · simp only [minusSendNum, Threads.log, incsOf_append]
    simpa [incsOf] using h.incOnce
  · rcases List.mem_append.mp hk with hk | hk
    · exact List.mem_append_left _ (h.finInc k hk)
    · cases List.mem_singleton.mp hk
      exact List.mem_append_left _ (mem_pendingOf.mp hpj).1
  · have hk' : .inc k ∈ s.trace := by simpa [minusSendNum, Threads.log] using hk
    exact List.mem_append_left _ (h.begun k hk')
  · have := h.early t' p hmem he
    simpa [minusSendNum, Threads.log] using this
  · -- a call about to enqueue is not in the line, the finished task is
    refine hkeep k (h.enqueue t' k hk) fun heq => ?_
    have := (hp.calls t' _ hk).2.2.2.mp (by rw [heq]; exact hline)
    cases this
  · refine hkeep k (h.queue k hk hs) fun heq => ?_
    have hd := List.disjoint_of_nodup_append hp.nodup
    exact hd (h.ran j ht) (List.mem_append_right _ (by rw [← heq]; exact hk))
  · cases hk
  · cases hk

theorem step (h : Counted s) (hp : Placed s) {l : Turn T} (hm : Moves loop s l s') : Counted s' := by
  cases hm with
  | @call t op _ =>
      refine h.quiet [.call ⟨s.next, t, op⟩] rfl rfl (by simp) (fun t' p hmem => ?_) h.queue h.task
        fun k hk => ?_
      · rcases mem_update hmem with ⟨rfl, htop⟩ | ⟨-, hmem⟩
        · rcases List.mem_cons.mp htop with rfl | hrest
          · refine Or.inr ⟨fun _ hinc => ?_, by simp⟩
            exact Nat.lt_irrefl _ (hp.fresh _ (h.begun _ hinc))
          · exact Or.inl hrest
        · exact Or.inl hmem
      · have := h.ran k hk
        simpa [setCalls, Threads.log, handledOf] using this
  | @advance t j st st' rest m hc _ hst hst' =>
      have hno : .inc j ∉ s.trace := h.early t (j, st) (by rw [hc]; exact List.mem_cons_self) hst
      refine h.quiet [] rfl (by simp [setCalls]) (by simp) (fun t' p hmem => ?_) h.queue h.task h.ran
      rcases mem_update_top hc hmem with rfl | hmem
      · refine Or.inr ⟨fun _ => hno, ?_⟩
        rcases hst' with ⟨he, -⟩ | ⟨rfl, -⟩
        · rintro rfl
          cases he
        · simp
      · exact Or.inl hmem
  | inc hc _ hst => exact h.inc hp hc hst
  | @enqueue t j st rest hc hst =>
      have hmem : (j, st) ∈ s.calls t := by rw [hc]; exact List.mem_cons_self
      refine h.quiet [] rfl (by simp [setCalls, queueInLoop]) (by simp) (fun t' p hmem' => ?_) ?_
        h.task h.ran
      · rcases mem_update_top hc hmem' with rfl | hmem'
        · exact Or.inr ⟨fun he => (by cases he), by simp⟩
        · exact Or.inl hmem'
      · intro k hk hs
        rcases List.mem_append.mp hk with hk | hk
        · exact h.queue k hk hs
        · obtain rfl := List.mem_singleton.mp hk
          rcases hst with ⟨-, rfl⟩ | ⟨hop, -, -⟩
          · exact h.enqueue t k hmem
          · simp [Job.isSend, hop] at hs
  | @handle t j st st' rest hc hst =>
      obtain ⟨b, took, heq⟩ := s.handle_eq j
      rw [heq]
      refine h.quiet [.handle j took] rfl rfl (by simp) (fun t' p hmem => ?_) h.queue h.task
        fun k hk => ?_
      · rcases mem_update_top hc hmem with rfl | hmem
        · refine Or.inr ?_
          rcases hst with ⟨-, -, rfl⟩ | ⟨-, -, -, rfl⟩
          · exact ⟨fun he => (by cases he), by simp⟩
          · exact ⟨fun he => (by cases he), by simp⟩
        · exact Or.inl hmem
      · exact List.mem_filterMap.mpr (by
          obtain ⟨m, hm, hk'⟩ := List.mem_filterMap.mp (h.ran k hk)
          exact ⟨m, List.mem_append_left _ hm, hk'⟩)
  | @ret t j st rest m hc _ =>
      refine h.quiet [.ret j] rfl rfl (by simp) (fun t' p hmem => Or.inl (mem_update_pop hc hmem))
        h.queue h.task fun k hk => ?_
      have := h.ran k hk
      simpa [setCalls, Threads.log, handledOf] using this
  | @dequeue j q _ _ hq =>
      refine h.quiet [] rfl (by simp) (by simp) (fun t' p hmem => Or.inl hmem) ?_ ?_ ?_
      · intro k hk
        exact h.queue k (by rw [hq]; exact List.mem_cons_of_mem _ hk)
      · rintro k ran heq hs
        cases heq
        exact h.queue _ (by rw [hq]; exact List.mem_cons_self) hs
      · rintro k heq
        cases heq
  | @run j ht _ =>
      obtain ⟨b, took, heq⟩ := s.handle_eq j
      rw [heq]
      refine h.quiet [.handle j took] rfl rfl (by simp) (fun t' p hmem => Or.inl hmem) h.queue ?_ ?_
      · rintro k ran heq hs
        cases heq
        exact h.task _ false ht hs
      · rintro k heq
        cases heq
        simp [handledOf]
  | fin ht _ hj => exact h.fin hp ht hj
  | idle ht _ _ =>
      refine h.quiet [] rfl (by simp) (by simp) (fun t' p hmem => Or.inl hmem) h.queue ?_ ?_
      · rintro k ran heq
        cases heq
      · rintro k heq
        cases heq

/-- Nothing is counted: no send is queued or being run. -/
theorem handled_of_zero (h : Counted s) (h0 : s.sendNum = 0) (hs : j.isSend = true)
    (hline : j ∈ s.line) : j ∈ handledOf s.trace := by
  have hnil : pendingOf s.trace = [] := List.length_eq_zero_iff.mp (h.num ▸ h0)
  rcases List.mem_append.mp hline with hmem | hmem
  · exact hmem
  · exfalso
    have hpend : j ∈ pendingOf s.trace := by
      rcases List.mem_append.mp hmem with hmem | hmem
      · unfold running at hmem
        split at hmem
        · rename_i k ht
          obtain rfl := List.mem_singleton.mp hmem
          exact h.task j false ht hs
        · cases hmem
      · exact h.queue j hmem hs
    rw [hnil] at hpend
    cases hpend

end Counted

/-! ## The order of the line -/

/-- A send that returned before another call started is in front of it. A
`shutdown()` of the loop thread is not covered. -/
structure Ordered (loop : T) (s : Threads T) : Prop where
  order : ∀ i j, i.isSend = true → Before s.trace i j → j ∈ s.line →
    (j.isSend = true ∨ j.thread ≠ loop) → Precedes s.line i j
  direct : ∀ t j, (j, .direct) ∈ s.calls t →
    ∀ i, i.isSend = true → Before s.trace i j → i ∈ handledOf s.trace

namespace Ordered

open Threads

variable {loop t : T} {s s' : Threads T}

theorem new : Ordered loop (Threads.new : Threads T) := by
  refine ⟨fun i j _ hb => ?_, fun t j hj => ?_⟩
  · exact absurd hb.left_mem (by simp [Threads.new])
  · simp [Threads.new] at hj

theorem along (h : Ordered loop s) (evs : List (Mark T)) (htrace : s'.trace = s.trace ++ evs)
    (hevs : ∀ k, .call k ∉ evs) (hline : s'.line = s.line)
    (hcalls : ∀ t j, (j, .direct) ∈ s'.calls t → (j, .direct) ∈ s.calls t ∨
      ∀ i, i.isSend = true → Before s.trace i j → i ∈ handledOf s.trace) : Ordered loop s' := by
  refine ⟨fun i j hi hb hj hs => ?_, fun t j hj i hi hb => ?_⟩
  · rw [htrace, before_append_iff hevs] at hb
    rw [hline] at hj ⊢
    exact h.order i j hi hb hj hs
  · rw [htrace, before_append_iff hevs] at hb
    rw [htrace, handledOf_append]
    refine List.mem_append_left _ ?_
    rcases hcalls t j hj with hj | hall
    · exact h.direct t j hj i hi hb
    · exact hall i hi hb

theorem call [DecidableEq T] (h : Ordered loop s) (hp : Placed s) (t : T) (op : Op) :
    Ordered loop (({ s with next := s.next + 1 }.log (.call ⟨s.next, t, op⟩)).setCalls t
      ((⟨s.next, t, op⟩, .start) :: s.calls t)) := by
  have hnew : .call ⟨s.next, t, op⟩ ∉ s.trace := fun hmem => Nat.lt_irrefl _ (hp.fresh _ hmem)
  have hline : (({ s with next := s.next + 1 }.log (.call ⟨s.next, t, op⟩)).setCalls t
      ((⟨s.next, t, op⟩, .start) :: s.calls t)).line = s.line := line_log _ rfl
  have hold : ∀ {i j}, .call j ∈ s.trace → Before (s.trace ++ [.call ⟨s.next, t, op⟩]) i j →
      Before s.trace i j := by
    intro i j hj hb
    rcases precedes_snoc_iff.mp hb with hb | ⟨-, heq⟩
    · exact hb
    · rw [heq] at hj
      exact absurd hj hnew
  refine ⟨fun i j hi hb hj hs => ?_, fun t' j hj i hi hb => ?_⟩
  · rw [hline] at hj ⊢
    exact h.order i j hi (hold (hp.lined j hj) hb) hj hs
  · have hj' : (j, .direct) ∈ s.calls t' := by
      rcases mem_update hj with ⟨rfl, htop⟩ | ⟨-, hj⟩
      · simpa using htop
      · exact hj
    have hb' := hold (hp.calls t' _ hj').2.1 hb
    simp only [setCalls, Threads.log, handledOf_append]
    exact List.mem_append_left _ (h.direct t' j hj' i hi hb')

theorem step [DecidableEq T] (h : Ordered loop s) (hp : Placed s) (hcnt : Counted s) {l : Turn T}
    (hm : Moves loop s l s') : Ordered loop s' := by
  cases hm with
  | call op => exact h.call hp _ op
  | @advance t j st st' rest m hc _ _ hst' =>
      refine h.along [] (by simp [setCalls]) (by simp) rfl fun t' k hk => ?_
      rcases mem_update_top hc hk with heq | hk
      · obtain ⟨rfl, rfl⟩ := Prod.mk.inj heq
        -- the counter was read as 0: what has returned has been handled
        rcases hst' with ⟨he, -⟩ | ⟨-, -, h0⟩
        · cases he
        · refine Or.inr fun i hi hb => ?_
          exact hcnt.handled_of_zero h0 hi (hp.returned i hb.left_mem)
      · exact Or.inl hk
  | @inc t j st rest hc _ _ =>
      refine h.along [.inc j] rfl (by simp) (line_log _ rfl) fun t' k hk => ?_
      rcases mem_update_top hc hk with heq | hk
      · cases heq
      · exact Or.inl hk
  | @enqueue t j st rest hc hst =>
      have hline : ((s.queueInLoop j).setCalls t ((j, .done) :: rest)).line = s.line ++ [j] :=
        line_queueInLoop s j
      refine ⟨fun i k hi hb hk hs => ?_, fun t' k hk => ?_⟩
      · rw [hline] at hk ⊢
        rcases List.mem_append.mp hk with hk | hk
        · exact (h.order i k hi hb hk hs).append_right [j]
        · exact precedes_append (hp.returned i hb.left_mem) hk
      · rcases mem_update_top hc hk with heq | hk
        · cases heq
        · exact h.direct t' k hk
  | @handle t j st st' rest hc hst =>
      have hmem : (j, st) ∈ s.calls t := by rw [hc]; exact List.mem_cons_self
      have hline : ((s.handle j).setCalls t ((j, st') :: rest)).line
          = handledOf s.trace ++ j :: (s.running ++ s.queue) := line_handle s j
      obtain ⟨b, took, heq⟩ := s.handle_eq j
      rw [heq] at hline ⊢
      have hold : ∀ {i k}, Before (s.trace ++ [.handle j took]) i k ↔ Before s.trace i k :=
        before_append_iff (by simp)
      refine ⟨fun i k hi hb hk hs => ?_, fun t' k hk i hi hb => ?_⟩
      · replace hb := hold.mp hb
        rw [hline] at hk ⊢
        by_cases hkj : k = j
        · subst hkj
          rcases hst with ⟨-, rfl, -⟩ | ⟨hop, -, ht, -⟩
          · exact precedes_append (h.direct t k hmem i hi hb) List.mem_cons_self
          · have hth : k.thread = loop := (hp.calls t _ hmem).1.trans ht
            simp [Job.isSend, hop, hth] at hs
        · have hk' : k ∈ s.line := (mem_line_handle.mp hk).resolve_right hkj
          exact (h.order i k hi hb hk' hs).insert j
      · have hk' : (k, .direct) ∈ s.calls t' := by
          rcases mem_update_top hc hk with heq | hk
          · obtain ⟨-, rfl⟩ := Prod.mk.inj heq
            rcases hst with ⟨-, -, h'⟩ | ⟨-, -, -, h'⟩ <;> cases h'
          · exact hk
        have := h.direct t' k hk' i hi (hold.mp hb)
        simp only [setCalls, handledOf_append]
        exact List.mem_append_left _ this
  | @ret t j st rest m hc _ =>
      exact h.along [.ret j] rfl (by simp) (line_log _ rfl) fun t' k hk =>
        Or.inl (mem_update_pop hc hk)
  | @dequeue j q ht _ hq =>
      exact h.along [] (by simp) (by simp) (line_dequeue ht hq) fun t' k hk => Or.inl hk
  | @run j ht _ =>
      have hline := line_run ht
      obtain ⟨b, took, heq⟩ := s.handle_eq j
      rw [heq] at hline ⊢
      exact h.along [.handle j took] rfl (by simp) hline fun t' k hk => Or.inl hk
  | @fin j ht _ _ =>
      refine h.along [.fin j] rfl (by simp) (line_taskEnd ht rfl ?_) fun t' k hk => Or.inl hk
      simp [minusSendNum, Threads.log, handledOf]
  | @idle j ht _ _ =>
      exact h.along [] (by simp) (by simp) (line_taskEnd ht rfl rfl) fun t' k hk => Or.inl hk

end Ordered

/-! ## Sends only -/

/-- The connection stays connected: nobody shuts it down. -/
def SendsOnly [DecidableEq T] (loop : T) : Threads T → Turn T → Threads T → Prop :=
  Guarded (ThreadStep loop) fun _ l => ∀ t, l ≠ .startCall t .shutdown

/-- All calls are sends, and all that is handled is delivered. -/
structure AllSends (s : Threads T) : Prop where
  connected : s.connected = true
  sends : ∀ j, .call j ∈ s.trace → j.isSend = true
  took : ∀ j took, .handle j took ∈ s.trace → took = true

theorem AllSends.handle {s : Threads T} (h : AllSends s) (hj : j.isSend = true) :
    s.handle j = s.log (.handle j true) := by
  unfold Threads.handle
  split
  · rw [h.connected, Bool.true_or]
  · rename_i hop
    simp [Job.isSend, hop] at hj

theorem AllSends.log {s : Threads T} (h : AllSends s) {m : Mark T}
    (hcall : ∀ j, m = .call j → j.isSend = true)
    (htook : ∀ j took, m = .handle j took → took = true) : AllSends (s.log m) := by
  refine ⟨h.connected, fun j hj => ?_, fun j took hj => ?_⟩
  · rcases List.mem_append.mp hj with hj | hj
    · exact h.sends j hj
    · exact hcall j (List.mem_singleton.mp hj).symm
  · rcases List.mem_append.mp hj with hj | hj
    · exact h.took j took hj
    · exact htook j took (List.mem_singleton.mp hj).symm

theorem AllSends.step [DecidableEq T] {loop : T} {s s' : Threads T} {l : Turn T}
    (h : AllSends s) (hp : Placed s) (hm : Threads.Moves loop s l s')
    (hl : ∀ t, l ≠ .startCall t .shutdown) : AllSends s' := by
  cases hm with
  | @call t op _ =>
      have hop : op ≠ .shutdown := fun heq => hl t (by rw [heq])
      have hlog : AllSends (s.log (.call ⟨s.next, t, op⟩)) := by
        refine h.log (fun j heq => ?_) (fun j took heq => by cases heq)
        cases heq
        simpa [Job.isSend] using hop
      exact ⟨hlog.connected, hlog.sends, hlog.took⟩
  | advance => exact ⟨h.connected, h.sends, h.took⟩
  | @inc t j st rest hc _ _ =>
      have hlog : AllSends (s.log (.inc j)) :=
        h.log (fun k heq => by cases heq) (fun k took heq => by cases heq)
      exact ⟨hlog.connected, hlog.sends, hlog.took⟩
  | enqueue => exact ⟨h.connected, h.sends, h.took⟩
  | @handle t j st st' rest hc _ =>
      have hj := h.sends j (hp.calls t (j, st) (by rw [hc]; exact List.mem_cons_self)).2.1
      have hlog : AllSends (s.log (.handle j true)) :=
        h.log (fun k heq => by cases heq) (fun k took heq => by cases heq; rfl)
      rw [h.handle hj]
      exact ⟨hlog.connected, hlog.sends, hlog.took⟩
  | @ret t j st rest m _ _ =>
      have hlog : AllSends (s.log (.ret j)) :=
        h.log (fun k heq => by cases heq) (fun k took heq => by cases heq)
      exact ⟨hlog.connected, hlog.sends, hlog.took⟩
  | dequeue => exact ⟨h.connected, h.sends, h.took⟩
  | @run j ht _ =>
      have hline : j ∈ s.line := by simp [Threads.line, Threads.running, ht]
      have hlog : AllSends (s.log (.handle j true)) :=
        h.log (fun k heq => by cases heq) (fun k took heq => by cases heq; rfl)
      rw [h.handle (h.sends j (hp.lined j hline))]
      exact ⟨hlog.connected, hlog.sends, hlog.took⟩
  | @fin j _ _ _ =>
      have hlog : AllSends (s.log (.fin j)) :=
        h.log (fun k heq => by cases heq) (fun k took heq => by cases heq)
      exact ⟨hlog.connected, hlog.sends, hlog.took⟩
  | idle => exact ⟨h.connected, h.sends, h.took⟩

/-- What the users of `send` rely on. -/
structure SendsOk [DecidableEq T] (s : Threads T) : Prop where
  inOrder : ∀ i j, Before s.trace i j → j ∈ deliveredOf s.trace →
    Precedes (deliveredOf s.trace) i j
  once : (deliveredOf s.trace).Nodup
  kept : ∀ i, .ret i ∈ s.trace → i ∈ deliveredOf s.trace ∨ i ∈ s.running ++ s.queue
  counted : s.sendNum = (pendingOf s.trace).length

/-- **Sends are in order.** Whatever the interleaving of the threads'
steps: if one call returned before another started, its payload reaches the
write path first; no payload reaches it twice, and none is lost on the way;
and `m_sendNum` is the number of calls that have been counted and whose
task has not finished, so it never wraps. -/
theorem sends_in_order [DecidableEq T] (loop : T) (ls : List (Turn T)) :
    Throughout (SendsOnly loop) SendsOk Threads.new ls := by
  intro pre s _ hrun
  have hinv : Placed s ∧ Counted s ∧ Ordered loop s ∧ AllSends s := by
    refine hrun.invariant (I := fun s => Placed s ∧ Counted s ∧ Ordered loop s ∧ AllSends s) ?_
      ⟨Placed.new, Counted.new, Ordered.new, rfl, ?_, ?_⟩
    · rintro a l b ⟨hp, hcnt, hord, hall⟩ ⟨hs, hl⟩
      have hm := Threads.step_moves hs
      exact ⟨hp.step hm, hcnt.step hp hm, hord.step hp hcnt hm, hall.step hp hm hl⟩
    · simp [Threads.new]
    · simp [Threads.new]
  obtain ⟨hp, hcnt, hord, hall⟩ := hinv
  have hdel := deliveredOf_eq hall.took
  refine ⟨fun i j hb hj => ?_, ?_, fun i hi => ?_, hcnt.num⟩
  · rw [hdel] at hj ⊢
    have hline : j ∈ s.line := List.mem_append_left _ hj
    have hi := hall.sends i (hp.lined i (hp.returned i hb.left_mem))
    have hprec := hord.order i j hi hb hline (Or.inl (hall.sends j (hp.lined j hline)))
    exact hprec.of_append fun hmem => List.disjoint_of_nodup_append hp.nodup hj hmem
  · rw [hdel]
    exact (List.nodup_append.mp hp.nodup).1
  · rw [hdel]
    exact List.mem_append.mp (hp.returned i hi)

end Netpoll
