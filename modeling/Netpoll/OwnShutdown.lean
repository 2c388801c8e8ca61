import Netpoll.SendOrder

/-!
# Send, then shut down

A thread that calls `send` and then `shutdown` expects its message to go
out first. From any thread but the loop's it does: both are tasks, and the
line is in order. On the loop thread `shutdown()` runs at once, while the
`send` before it was queued if other threads had calls in flight; then the
message is still in the queue when the status leaves `Connected`, and
`sendInLoop` will drop it. `NoOwnQueued` is the exact condition.
-/

namespace Netpoll

variable {T : Type}

def Job.isMessage (j : Job T) : Bool :=
  match j.op with
  | .send o => o.isMessage
  | .shutdown => false

/-- A message is delivered before a later `shutdown()` of the same thread
takes effect. -/
def OwnFirst (trace : List (Mark T)) : Prop :=
  ∀ i j, i.isMessage = true → j.op = .shutdown → i.thread = j.thread → Before trace i j →
    .handle j true ∈ trace → Precedes trace (.handle i true) (.handle j true)

/-- When the loop thread itself shuts a connected connection down, none of
its own messages is queued. -/
def NoOwnQueued (loop : T) (s : Threads T) (l : Turn T) : Prop :=
  ∀ j rest, l = .stepCall loop → s.calls loop = (j, .start) :: rest → j.op = .shutdown →
    s.connected = true → ∀ i ∈ s.queue, i.isMessage = true → i.thread ≠ loop

theorem Job.isSend_of_isMessage {j : Job T} (h : j.isMessage = true) : j.isSend = true := by
  unfold Job.isMessage at h
  split at h
  · rename_i o hop
    simp [Job.isSend, hop]
  · cases h

/-! ## While connected -/

/-- Nothing is dropped while connected; a task that is about to be handled
is all that the loop thread does; and what waits to shut down comes from
other threads. -/
structure Owned (loop : T) (s : Threads T) : Prop where
  took : s.connected = true → ∀ j took, .handle j took ∈ s.trace → took = true
  alone : ∀ j, s.task = some (j, false) → s.calls loop = []
  remote : ∀ j ∈ s.running ++ s.queue, j.op = .shutdown → j.thread ≠ loop
  own : OwnFirst s.trace

namespace Owned

open Threads

variable {loop t : T} {s s' : Threads T} {i j : Job T} {st st' : Stage}
  {rest : List (Job T × Stage)}

theorem new : Owned loop (Threads.new : Threads T) := by
  refine ⟨?_, ?_, ?_, fun i j _ _ _ hb => ?_⟩
  · simp [Threads.new]
  · simp [Threads.new]
  · simp [Threads.new, running]
  · exact absurd hb.left_mem (by simp [Threads.new])

/-- The own messages come first as long as no `shutdown()` takes effect. -/
theorem own_append (h : OwnFirst s.trace) {evs : List (Mark T)} (hcall : ∀ k, .call k ∉ evs)
    (hhandle : ∀ k, k.op = .shutdown → .handle k true ∉ evs) : OwnFirst (s.trace ++ evs) := by
  intro i j hi hj hth hb hmem
  rw [before_append_iff hcall] at hb
  have hmem' : .handle j true ∈ s.trace :=
    (List.mem_append.mp hmem).resolve_right (hhandle j hj)
  exact (h i j hi hj hth hb hmem').append_right evs

theorem own_shutdown (h : OwnFirst s.trace)
    (hprev : ∀ i, i.isMessage = true → i.thread = j.thread → Before s.trace i j →
      .handle i true ∈ s.trace) : OwnFirst (s.trace ++ [.handle j true]) := by
  intro i k hi hk hth hb hmem
  rw [before_append_iff (by simp)] at hb
  rcases List.mem_append.mp hmem with hmem | hmem
  · exact (h i k hi hk hth hb hmem).append_right _
  · cases List.mem_singleton.mp hmem
    exact precedes_append (hprev i hi hth hb) List.mem_cons_self

theorem handle_cases (s : Threads T) (j : Job T) :
    (j.isSend = true ∧ ∃ took, (s.connected = true → took = true) ∧
      s.handle j = s.log (.handle j took)) ∨
    (j.op = .shutdown ∧
      s.handle j = { s with connected := false }.log (.handle j s.connected)) := by
  unfold Threads.handle
  cases hop : j.op with
  | send o =>
      refine Or.inl ⟨by simp [Job.isSend, hop], _, fun hc => ?_, rfl⟩
      rw [hc, Bool.true_or]
  | shutdown => exact Or.inr ⟨rfl, rfl⟩

theorem handle (h : Owned loop s) (hprev : j.op = .shutdown → s.connected = true →
      ∀ i, i.isMessage = true → i.thread = j.thread → Before s.trace i j →
        i ∈ handledOf s.trace) :
    ((s.handle j).connected = true →
      ∀ k took, .handle k took ∈ (s.handle j).trace → took = true) ∧
    OwnFirst (s.handle j).trace := by
  rcases handle_cases s j with ⟨hj, took, htook, heq⟩ | ⟨hop, heq⟩
  · rw [heq]
    refine ⟨fun hc k took' hmem => ?_, own_append h.own (by simp) fun k hk hmem => ?_⟩
    · rcases List.mem_append.mp hmem with hmem | hmem
      · exact h.took hc k took' hmem
      · cases List.mem_singleton.mp hmem
        exact htook hc
    · cases List.mem_singleton.mp hmem
      simp [Job.isSend, hk] at hj
  · rw [heq]
    constructor
    · intro hc
      cases hc
    · show OwnFirst (s.trace ++ [.handle j s.connected])
      cases hc : s.connected with
      | true =>
          refine own_shutdown h.own fun i hi hth hb => ?_
          obtain ⟨took, hmem⟩ := mem_handledOf.mp (hprev hop hc i hi hth hb)
          rwa [h.took hc i took hmem] at hmem
      | false => exact own_append h.own (by simp) (by simp)

/-- While an innermost call of the loop thread goes on, no task is about
to be handled. -/
theorem running_nil (h : Owned loop s) (hc : s.calls loop = (j, st) :: rest) : s.running = [] := by
  unfold running
  split
  · rename_i k ht
    rw [h.alone k ht] at hc
    cases hc
  · rfl

theorem alone_update [DecidableEq T] (h : Owned loop s) {cs : List (Job T × Stage)}
    (hne : s.calls t ≠ []) :
    ∀ k, s.task = some (k, false) → Function.update s.calls t cs loop = [] := by
  intro k hk
  have hnil := h.alone k hk
  by_cases ht : loop = t
  · rw [ht] at hnil
    exact absurd hnil hne
  · rw [Function.update_of_ne ht]
    exact hnil

/-- Before a `shutdown()` that its thread runs in place, the messages of
the thread have been handled: none of them waits in the queue. -/
theorem handled_of_direct (h : Owned loop s) (hp : Placed s)
    (hc : s.calls loop = (j, .start) :: rest)
    (hq : ∀ i ∈ s.queue, i.isMessage = true → i.thread ≠ loop) (hi : i.isMessage = true)
    (hth : i.thread = j.thread) (hb : Before s.trace i j) : i ∈ handledOf s.trace := by
  have hth' := (hp.calls loop (j, .start) (by rw [hc]; exact List.mem_cons_self)).1
  have hline := hp.returned i hb.left_mem
  unfold line at hline
  rw [h.running_nil hc, List.nil_append] at hline
  refine (List.mem_append.mp hline).resolve_right fun hmem => ?_
  exact hq i hmem hi (hth.trans hth')

/-- So have those before a `shutdown()` that runs as a task: another thread
queued it, and the queue keeps the order of its calls. -/
theorem handled_of_task (h : Owned loop s) (hp : Placed s) (hord : Ordered loop s)
    (ht : s.task = some (j, false)) (hop : j.op = .shutdown) (hi : i.isMessage = true)
    (hb : Before s.trace i j) : i ∈ handledOf s.trace := by
  have hrun : s.running = [j] := by simp [running, ht]
  have hline : s.line = handledOf s.trace ++ [j] ++ s.queue := by
    simp [line, hrun]
  have hremote : j.thread ≠ loop := h.remote j (by simp [hrun]) hop
  have hprec := hord.order i j (Job.isSend_of_isMessage hi) hb
    (by rw [hline]; simp) (Or.inr hremote)
  have hnd := hp.nodup
  rw [hline] at hprec hnd
  have hj : j ∉ s.queue := fun hq =>
    List.disjoint_of_nodup_append hnd (List.mem_append_right _ List.mem_cons_self) hq
  have hj' : j ∉ handledOf s.trace := fun hh =>
    List.disjoint_of_nodup_append (List.nodup_append.mp hnd).1 hh List.mem_cons_self
  rcases precedes_snoc_iff.mp (hprec.of_append hj) with hprec | ⟨hi, -⟩
  · exact absurd hprec.right_mem hj'
  · exact hi

/-- The step lemma: a guarded step keeps the own messages first. -/
theorem step [DecidableEq T] (h : Owned loop s) (hp : Placed s) (hord : Ordered loop s)
    {l : Turn T} (hg : NoOwnQueued loop s l) (hm : Moves loop s l s') : Owned loop s' := by
  have hne : ∀ {t : T} {j : Job T} {st : Stage} {rest : List (Job T × Stage)},
      s.calls t = (j, st) :: rest → s.calls t ≠ [] :=
    fun hc => by rw [hc]; exact List.cons_ne_nil _ _
  cases hm with
  | @call t op hmay =>
      refine ⟨fun hc j took hmem => ?_, fun k hk => ?_, h.remote, ?_⟩
      · exact h.took hc j took (by simpa [setCalls, Threads.log] using hmem)
      · simp only [setCalls, Threads.log] at hk ⊢
        have hnil := h.alone k hk
        by_cases ht : loop = t
        · subst ht
          unfold MayCall at hmay
          rw [hnil] at hmay
          exact absurd hk (hmay rfl k)
        · rw [Function.update_of_ne ht]
          exact hnil
      · -- a new call has not been handled
        intro i j hi hj hth hb hmem
        have hmem' : .handle j true ∈ s.trace := by simpa [setCalls, Threads.log] using hmem
        have hb' : Before s.trace i j := by
          rcases precedes_snoc_iff.mp hb with hb | ⟨-, heq⟩
          · exact hb
          · have hline : j ∈ s.line :=
              List.mem_append_left _ (mem_handledOf.mpr ⟨true, hmem'⟩)
            have hlt := hp.fresh j (hp.lined j hline)
            cases heq
            exact absurd hlt (Nat.lt_irrefl _)
        exact (h.own i j hi hj hth hb' hmem').append_right _
  | @advance t j st st' rest m hc _ _ _ =>
      exact ⟨h.took, h.alone_update (hne hc), h.remote, h.own⟩
  | @inc t j st rest hc _ _ =>
      refine ⟨fun hcon k took hmem => ?_, h.alone_update (hne hc), h.remote, ?_⟩
      · exact h.took hcon k took (by simpa [setCalls, plusSendNum, Threads.log] using hmem)
      · exact own_append h.own (by simp) (by simp)
  | @enqueue t j st rest hc hst =>
      refine ⟨h.took, h.alone_update (hne hc), fun k hk hop => ?_, h.own⟩
      have hk' : k ∈ s.running ++ s.queue ∨ k = j := by
        simpa [setCalls, queueInLoop, running, or_assoc] using hk
      rcases hk' with hk' | rfl
      · exact h.remote k hk' hop
      · rcases hst with ⟨hs, -⟩ | ⟨-, -, hloop⟩
        · simp [Job.isSend, hop] at hs
        · rw [(hp.calls t (k, st) (by rw [hc]; exact List.mem_cons_self)).1]
          exact hloop
  | @handle t j st st' rest hc hst =>
      have hkeep := h.handle (j := j) fun hop hcon i hi hth hb => by
        rcases hst with ⟨hs, -⟩ | ⟨-, rfl, rfl, -⟩
        · simp [Job.isSend, hop] at hs
        · exact h.handled_of_direct hp hc (hg j rest rfl hc hop hcon) hi hth hb
      obtain ⟨b, took, heq⟩ := s.handle_eq j
      rw [heq] at hkeep ⊢
      exact ⟨hkeep.1, h.alone_update (hne hc), h.remote, hkeep.2⟩
  | @ret t j st rest m hc _ =>
      refine ⟨fun hcon k took hmem => ?_, h.alone_update (hne hc), h.remote, ?_⟩
      · exact h.took hcon k took (by simpa [setCalls, Threads.log] using hmem)
      · exact own_append h.own (by simp) (by simp)
  | @dequeue j q ht hc hq =>
      refine ⟨h.took, fun k _ => hc, fun k hk => h.remote k ?_, h.own⟩
      simpa [running, ht, hq] using hk
  | @run j ht hc =>
      have hkeep := h.handle (j := j) fun hop _ i hi _ hb =>
        h.handled_of_task hp hord ht hop hi hb
      obtain ⟨b, took, heq⟩ := s.handle_eq j
      rw [heq] at hkeep ⊢
      refine ⟨hkeep.1, fun k hk => (by cases hk), fun k hk => h.remote k ?_, hkeep.2⟩
      exact List.mem_append_right _ (by simpa [running] using hk)
  | @fin j ht _ _ =>
      refine ⟨fun hcon k took hmem => ?_, fun k hk => (by cases hk), fun k hk => h.remote k ?_, ?_⟩
      · exact h.took hcon k took (by simpa [minusSendNum, Threads.log] using hmem)
      · exact List.mem_append_right _ (by simpa [running, minusSendNum, Threads.log] using hk)
      · exact own_append h.own (by simp) (by simp)
  | @idle j ht _ _ =>
      refine ⟨h.took, fun k hk => (by cases hk), fun k hk => h.remote k ?_, h.own⟩
      exact List.mem_append_right _ (by simpa [running] using hk)

end Owned

/-! ## Where the loop thread's calls are -/

/-- Calls nest only inside `sendInLoop`: below the innermost call of a
thread all have been delivered. What is in the line has returned or is
still a call of its thread; and what its thread has finished returned
before the innermost call started, unless that has nested calls. -/
structure Nested (s : Threads T) : Prop where
  below : ∀ t p rest, s.calls t = p :: rest → ∀ q ∈ rest, q.2 = .delivered
  delivered : ∀ t j, (j, .delivered) ∈ s.calls t → j ∈ handledOf s.trace
  lined : ∀ j ∈ s.line, .ret j ∈ s.trace ∨ ∃ st, (j, st) ∈ s.calls j.thread
  top : ∀ t p rest, s.calls t = p :: rest → p.2 ≠ .delivered →
    ∀ i, i.thread = t → .ret i ∈ s.trace → Before s.trace i p.1

namespace Nested

open Threads

variable {loop t : T} {s s' : Threads T} {i j : Job T} {st st' : Stage}
  {rest : List (Job T × Stage)}

theorem new : Nested (Threads.new : Threads T) := by
  refine ⟨?_, ?_, ?_, ?_⟩ <;> simp [Threads.new, line, running, handledOf]

theorem handledOf_mono {trace evs : List (Mark T)} (h : j ∈ handledOf trace) :
    j ∈ handledOf (trace ++ evs) := by
  rw [handledOf_append]
  exact List.mem_append_left _ h

theorem goOn [DecidableEq T] (h : Nested s) (hp : Placed s) (evs : List (Mark T))
    (hc : s.calls t = (j, st) :: rest) (hst : st ≠ .delivered)
    (hcalls : s'.calls = Function.update s.calls t ((j, st') :: rest))
    (htrace : s'.trace = s.trace ++ evs) (hevs : ∀ k, .ret k ∉ evs)
    (hline : ∀ x ∈ s'.line, x ∈ s.line ∨ x = j)
    (hdel : st' = .delivered → j ∈ handledOf s'.trace) : Nested s' := by
  have hth : j.thread = t := (hp.calls t (j, st) (by rw [hc]; exact List.mem_cons_self)).1
  refine ⟨fun t' p rs hcs q hq => ?_, fun t' k hk => ?_, fun k hk => ?_, fun t' p rs hcs hne i => ?_⟩
  · rw [hcalls] at hcs
    by_cases ht : t' = t
    · subst ht
      rw [Function.update_self] at hcs
      cases hcs
      exact h.below t' _ rest hc q hq
    · rw [Function.update_of_ne ht] at hcs
      exact h.below t' p rs hcs q hq
  · rw [hcalls] at hk
    have hold : (k, .delivered) ∈ s.calls t' → k ∈ handledOf s'.trace := fun hk => by
      rw [htrace]
      exact handledOf_mono (h.delivered t' k hk)
    rcases mem_update_top hc hk with heq | hk
    · obtain ⟨rfl, rfl⟩ := Prod.mk.inj heq
      exact hdel rfl
    · exact hold hk
  · have hframe : ∀ x, (∃ st, (x, st) ∈ s.calls x.thread) ∨ x = j →
        ∃ st, (x, st) ∈ s'.calls x.thread := by
      intro x hx
      rw [hcalls]
      by_cases hxt : x.thread = t
      · rw [hxt, Function.update_self]
        rcases hx with ⟨st₀, hx⟩ | rfl
        · rw [hxt, hc] at hx
          rcases List.mem_cons.mp hx with heq | hrest
          · obtain ⟨rfl, -⟩ := Prod.mk.inj heq
            exact ⟨st', List.mem_cons_self⟩
          · exact ⟨st₀, List.mem_cons_of_mem _ hrest⟩
        · exact ⟨st', List.mem_cons_self⟩
      · rw [Function.update_of_ne hxt]
        rcases hx with hx | rfl
        · exact hx
        · exact absurd hth hxt
    rcases hline k hk with hk | rfl
    · rcases h.lined k hk with hr | hx
      · exact Or.inl (by rw [htrace]; exact List.mem_append_left _ hr)
      · exact Or.inr (hframe k (Or.inl hx))
    · exact Or.inr (hframe k (Or.inr rfl))
  · intro hi hr
    rw [htrace] at hr ⊢
    have hr' := (List.mem_append.mp hr).resolve_right (hevs i)
    rw [hcalls] at hcs
    refine Precedes.append_right ?_ evs
    by_cases ht : t' = t
    · subst ht
      rw [Function.update_self] at hcs
      cases hcs
      exact h.top t' (j, st) rest hc hst i hi hr'
    · rw [Function.update_of_ne ht] at hcs
      exact h.top t' p rs hcs hne i hi hr'

theorem along (h : Nested s) (evs : List (Mark T)) (hcalls : s'.calls = s.calls)
    (htrace : s'.trace = s.trace ++ evs) (hevs : ∀ k, .ret k ∉ evs)
    (hline : s'.line = s.line) : Nested s' := by
  refine ⟨?_, fun t k hk => ?_, fun k hk => ?_, fun t p rs hcs hne i hi hr => ?_⟩
  · rw [hcalls]
    exact h.below
  · rw [hcalls] at hk
    rw [htrace]
    exact handledOf_mono (h.delivered t k hk)
  · rw [hline] at hk
    rw [hcalls, htrace]
    exact (h.lined k hk).imp_left fun hr => List.mem_append_left _ hr
  · rw [hcalls] at hcs
    rw [htrace] at hr ⊢
    have hr' := (List.mem_append.mp hr).resolve_right (hevs i)
    exact (h.top t p rs hcs hne i hi hr').append_right evs

theorem call [DecidableEq T] (h : Nested s) (op : Op) (hmay : MayCall loop s t) :
    Nested (({ s with next := s.next + 1 }.log (.call ⟨s.next, t, op⟩)).setCalls t
      ((⟨s.next, t, op⟩, .start) :: s.calls t)) := by
  have hline : (({ s with next := s.next + 1 }.log (.call ⟨s.next, t, op⟩)).setCalls t
      ((⟨s.next, t, op⟩, .start) :: s.calls t)).line = s.line := line_log _ rfl
  refine ⟨fun t' p rs hcs q hq => ?_, fun t' k hk => ?_, fun k hk => ?_, fun t' p rs hcs hne i hi hr => ?_⟩
  · simp only [setCalls, Threads.log] at hcs
    by_cases ht : t' = t
    · subst ht
      rw [Function.update_self] at hcs
      cases hcs
      unfold MayCall at hmay
      cases hold : s.calls t' with
      | nil =>
          rw [hold] at hq
          cases hq
      | cons p' rest' =>
          rw [hold] at hq hmay
          rcases List.mem_cons.mp hq with rfl | hq
          · exact hmay
          · exact h.below t' p' rest' hold q hq
    · rw [Function.update_of_ne ht] at hcs
      exact h.below t' p rs hcs q hq
  · refine handledOf_mono (h.delivered t' k ?_)
    rcases mem_update hk with ⟨rfl, htop⟩ | ⟨-, hk⟩
    · simpa using htop
    · exact hk
  · rw [hline] at hk
    refine (h.lined k hk).imp (fun hr => List.mem_append_left _ hr) ?_
    rintro ⟨st, hmem⟩
    refine ⟨st, ?_⟩
    simp only [setCalls, Threads.log]
    by_cases hkt : k.thread = t
    · rw [hkt, Function.update_self]
      rw [hkt] at hmem
      exact List.mem_cons_of_mem _ hmem
    · rw [Function.update_of_ne hkt]
      exact hmem
  · have hr' : .ret i ∈ s.trace := by simpa [setCalls, Threads.log] using hr
    simp only [setCalls, Threads.log] at hcs
    by_cases ht : t' = t
    · subst ht
      rw [Function.update_self] at hcs
      cases hcs
      exact precedes_append hr' List.mem_cons_self
    · rw [Function.update_of_ne ht] at hcs
      exact (h.top t' p rs hcs hne i hi hr').append_right _

theorem ret [DecidableEq T] (h : Nested s) (hp : Placed s) (m : Option (Job T))
    (hc : s.calls t = (j, st) :: rest) :
    Nested (({ s with mutex := m }.log (.ret j)).setCalls t rest) := by
  have hline : (({ s with mutex := m }.log (.ret j)).setCalls t rest).line = s.line :=
    line_log _ rfl
  have hth : j.thread = t := (hp.calls t (j, st) (by rw [hc]; exact List.mem_cons_self)).1
  refine ⟨fun t' p rs hcs q hq => ?_, fun t' k hk => ?_, fun k hk => ?_, fun t' p rs hcs hne i hi hr => ?_⟩
  · simp only [setCalls, Threads.log] at hcs
    by_cases ht : t' = t
    · subst ht
      rw [Function.update_self] at hcs
      exact h.below t' _ rest hc q (by rw [hcs]; exact List.mem_cons_of_mem _ hq)
    · rw [Function.update_of_ne ht] at hcs
      exact h.below t' p rs hcs q hq
  · exact handledOf_mono (h.delivered t' k (mem_update_pop hc hk))
  · rw [hline] at hk
    rcases h.lined k hk with hr | ⟨st₀, hmem⟩
    · exact Or.inl (List.mem_append_left _ hr)
    · simp only [setCalls, Threads.log]
      by_cases hkt : k.thread = t
      · rw [hkt, Function.update_self]
        rw [hkt, hc] at hmem
        rcases List.mem_cons.mp hmem with heq | hrest
        · obtain ⟨rfl, -⟩ := Prod.mk.inj heq
          exact Or.inl (List.mem_append_right _ List.mem_cons_self)
        · exact Or.inr ⟨st₀, hrest⟩
      · rw [Function.update_of_ne hkt]
        exact Or.inr ⟨st₀, hmem⟩
  · simp only [setCalls, Threads.log] at hcs hr
    by_cases ht : t' = t
    · -- the call below has been delivered
      subst ht
      rw [Function.update_self] at hcs
      exact absurd (h.below t' _ rest hc p (by rw [hcs]; exact List.mem_cons_self)) hne
    · rw [Function.update_of_ne ht] at hcs
      have hr' : .ret i ∈ s.trace := by
        rcases List.mem_append.mp hr with hr | hr
        · exact hr
        · cases List.mem_singleton.mp hr
          exact absurd (hi.symm.trans hth) ht
      exact (h.top t' p rs hcs hne i hi hr').append_right _

theorem step [DecidableEq T] (h : Nested s) (hp : Placed s) {l : Turn T}
    (hm : Moves loop s l s') : Nested s' := by
  cases hm with
  | call op hmay => exact h.call op hmay
  | @advance t j st st' rest m hc _ hst hst' =>
      have hne : st ≠ .delivered := by
        rintro rfl
        cases hst
      refine h.goOn hp [] hc hne rfl (by simp [setCalls]) (by simp) (fun x hx => Or.inl hx) ?_
      rintro rfl
      rcases hst' with ⟨he, -⟩ | ⟨he, -⟩ <;> cases he
  | @inc t j st rest hc _ hst =>
      have hne : st ≠ .delivered := by
        rintro rfl
        cases hst
      have hline : ((s.plusSendNum j).setCalls t ((j, .enqueue) :: rest)).line = s.line :=
        line_log _ rfl
      refine h.goOn hp [.inc j] hc hne rfl rfl (by simp) (fun x hx => Or.inl ?_) (by simp)
      rwa [hline] at hx
  | @enqueue t j st rest hc hst =>
      have hne : st ≠ .delivered := by
        rcases hst with ⟨-, rfl⟩ | ⟨-, rfl, -⟩ <;> simp
      have hline : ((s.queueInLoop j).setCalls t ((j, .done) :: rest)).line = s.line ++ [j] :=
        line_queueInLoop s j
      refine h.goOn hp [] hc hne rfl (by simp [setCalls, queueInLoop]) (by simp) (fun x hx => ?_)
        (by simp)
      rw [hline] at hx
      exact (List.mem_append.mp hx).imp_right List.mem_singleton.mp
  | @handle t j st st' rest hc hst =>
      have hne : st ≠ .delivered := by
        rcases hst with ⟨-, rfl, -⟩ | ⟨-, rfl, -, -⟩ <;> simp
      have hline : ((s.handle j).setCalls t ((j, st') :: rest)).line
          = handledOf s.trace ++ j :: (s.running ++ s.queue) := line_handle s j
      obtain ⟨b, took, heq⟩ := s.handle_eq j
      rw [heq] at hline ⊢
      refine h.goOn hp [.handle j took] hc hne rfl rfl (by simp) (fun x hx => ?_) fun _ => ?_
      · rw [hline] at hx
        simp only [List.mem_append, List.mem_cons] at hx
        simp only [line, List.mem_append]
        tauto
      · simp [setCalls, handledOf]
  | ret m hc _ => exact h.ret hp m hc
  | @dequeue j q ht _ hq =>
      exact h.along [] rfl (by simp) (by simp) (line_dequeue ht hq)
  | @run j ht _ =>
      have hline := line_run ht
      obtain ⟨b, took, heq⟩ := s.handle_eq j
      rw [heq] at hline ⊢
      exact h.along [.handle j took] rfl rfl (by simp) hline
  | @fin j ht _ _ =>
      refine h.along [.fin j] rfl rfl (by simp) (line_taskEnd ht rfl ?_)
      simp [minusSendNum, Threads.log, handledOf]
  | @idle j ht _ _ => exact h.along [] rfl (by simp) (by simp) (line_taskEnd ht rfl rfl)

/-- A message of the loop thread that is queued while the thread is about
to shut down was sent before. -/
theorem before_of_queued (h : Nested s) (hp : Placed s) (hc : s.calls loop = (j, .start) :: rest)
    (hop : j.op = .shutdown) (hi : i.isMessage = true) (hth : i.thread = loop)
    (hq : i ∈ s.queue) : Before s.trace i j := by
  have hline : i ∈ s.line := List.mem_append_right _ (List.mem_append_right _ hq)
  refine h.top loop _ rest hc (by simp) i hth ?_
  rcases h.lined i hline with hr | ⟨st, hmem⟩
  · exact hr
  · exfalso
    rw [hth, hc] at hmem
    rcases List.mem_cons.mp hmem with heq | hrest
    · obtain ⟨rfl, -⟩ := Prod.mk.inj heq
      have := Job.isSend_of_isMessage hi
      simp [Job.isSend, hop] at this
    · have hdel : st = .delivered := h.below loop _ rest hc _ hrest
      subst hdel
      have hh := h.delivered loop i (by rw [hc]; exact List.mem_cons_of_mem _ hrest)
      exact List.disjoint_of_nodup_append hp.nodup hh (List.mem_append_right _ hq)

end Nested

/-! ## Exactness -/

/-- A step outside the guard loses a message: it is still queued when the
status leaves `Connected`. -/
theorem not_ownFirst_step [DecidableEq T] {loop : T} {s s' : Threads T} {l : Turn T}
    (hp : Placed s) (hn : Nested s) (hg : ¬ NoOwnQueued loop s l)
    (hs : ThreadStep loop s l s') : ¬ OwnFirst s'.trace := by
  simp only [NoOwnQueued, not_forall, not_not] at hg
  obtain ⟨j, rest, rfl, hc, hop, hcon, i, hq, hi, hth⟩ := hg
  have hb := hn.before_of_queued hp hc hop hi hth hq
  have hjth : j.thread = loop := (hp.calls loop (j, .start) (by rw [hc]; exact List.mem_cons_self)).1
  have htrace : s'.trace = s.trace ++ [.handle j true] := by
    unfold ThreadStep at hs
    simp only [Threads.exec, Threads.stepCall, hc, hop, Threads.stepShutdown, if_true] at hs
    cases hs
    simp only [Threads.setCalls, Threads.handle, hop, Threads.log, hcon]
  intro hown
  rw [htrace] at hown
  have hprec := hown i j hi hop (hth.trans hjth.symm) (hb.append_right _) (by simp)
  have hmem : .handle i true ∈ s.trace := by
    rcases precedes_snoc_iff.mp hprec with hprec | ⟨hmem, -⟩
    · exact hprec.left_mem
    · exact hmem
  exact List.disjoint_of_nodup_append hp.nodup (mem_handledOf.mpr ⟨true, hmem⟩)
    (List.mem_append_right _ hq)

/-- **A thread's messages come before its own shutdown.** Whatever the
interleaving of the threads' sends and shutdowns, every message of a thread
is delivered before a later `shutdown()` of that thread takes effect,
exactly when the loop thread never shuts the connected connection down
while a message of its own is queued. -/
theorem ownFirst_iff_noOwnQueued [DecidableEq T] (loop : T) (ls : List (Turn T)) :
    Throughout (ThreadStep loop) (fun s => OwnFirst s.trace) Threads.new ls ↔
      EveryStep (ThreadStep loop) (NoOwnQueued loop) Threads.new ls := by
  refine throughout_iff_everyStep
    (I := fun s => (Placed s ∧ Counted s ∧ Ordered loop s ∧ Nested s) ∧ Owned loop s) ?_ ?_ ?_ ?_
  · exact ⟨⟨Placed.new, Counted.new, Ordered.new, Nested.new⟩, Owned.new⟩
  · rintro s l s' ⟨⟨hp, hcnt, hord, hn⟩, hown⟩ hg hs
    have hm := Threads.step_moves hs
    exact ⟨⟨hp.step hm, hcnt.step hp hm, hord.step hp hcnt hm, hn.step hp hm⟩,
      hown.step hp hord hg hm⟩
  · exact fun s h => h.2.own
  · rintro s l s' ⟨⟨hp, -, -, hn⟩, -⟩ hg hs
    exact not_ownFirst_step hp hn hg hs

/-- Two threads: `true` is the loop's. The other one has bumped
`m_sendNum`; the loop thread sends, which is queued, and shuts down. -/
def sendThenShutdown : List (Turn Bool) :=
  [.startCall false (.send .stringView), .stepCall false, .startCall true (.send .stringView),
    .stepCall true, .stepCall true, .stepCall true, .stepCall true, .startCall true .shutdown,
    .stepCall true]

theorem not_ownFirst_sendThenShutdown :
    ¬ Throughout (ThreadStep true) (fun s => OwnFirst s.trace) Threads.new sendThenShutdown := by
  intro h
  have hrun : Run (ThreadStep true) Threads.new sendThenShutdown _ :=
    .cons rfl (.cons rfl (.cons rfl (.cons rfl (.cons rfl (.cons rfl (.cons rfl (.cons rfl
      (.cons rfl (.nil _)))))))))
  have hown := h _ _ (List.prefix_refl _) hrun ⟨1, true, .send .stringView⟩ ⟨2, true, .shutdown⟩
    rfl rfl rfl (by unfold Before Precedes; decide) (by decide)
  exact absurd hown.left_mem (by decide)

end Netpoll
