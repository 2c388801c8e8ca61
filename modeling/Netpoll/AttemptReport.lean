import Netpoll.Connector

/-!
# What becomes of a connection attempt

Every call of `Connector::connect` opens a socket and begins an attempt;
it is over as soon as the connector does not wait for that socket on its
channel. `outcomes` reads off the trace how often each attempt has been
reported, through `m_newConnectionCallback` or `m_errorCallback`.

A connector that has its error callback and is not stopped is followed
through any calls of `start`, functors, retry timers and poll results
with any masks. A step in which the assertion of `startInLoop` fails
aborts the program and is not one of them. Each attempt that is over has
been reported exactly once, exactly when no `connect(2)` is answered with
one of the errors that are retried in the `switch`: there neither callback
is called.
-/

namespace Netpoll

/-- The attempts so far, the latest one first: the descriptor and how
often it has been reported. A call of either callback is a report of the
latest attempt. -/
def record (as : List (Int × Nat)) : ConnectorEvent → List (Int × Nat)
  | .create fd => (fd, 0) :: as
  | .newConnection _ | .error =>
      match as with
      | (fd, n) :: rest => (fd, n + 1) :: rest
      | [] => []
  | _ => as

namespace Connector

def outcomes (c : Connector) : List (Int × Nat) := c.trace.foldl record []

/-- Every attempt that is over has been reported once. -/
def Reported (c : Connector) : Prop :=
  ∀ p ∈ c.outcomes, c.channel ≠ some p.1 → p.2 = 1

instance (c : Connector) : Decidable c.Reported := by
  unfold Reported; infer_instance

/-- The acts that run `startInLoop`. -/
def RunsStart (c : Connector) : ConnectorAct → Prop
  | .start inLoop _ => inLoop = true
  | .task _ => ∃ rest, c.queue = .startInLoop :: rest
  | .timer _ _ => True
  | _ => False

/-- The answer of `connect(2)` is not one of those that are only retried. -/
def Answered (c : Connector) : ConnectorAct → Prop
  | .start inLoop e => inLoop = true → e.case ≠ .retry
  | .task e => (∃ rest, c.queue = .startInLoop :: rest) → c.started = true → e.case ≠ .retry
  | .timer _ e => c.started = true → e.case ≠ .retry
  | _ => True

end Connector

def ConnectorAct.KeepsGoing : ConnectorAct → Prop
  | .stop _ | .restart _ _ => False
  | _ => True

/-- A step of a connector that is not stopped, in which the assertion of
`startInLoop` holds. -/
def AttemptStep : Connector → ConnectorAct → Connector → Prop :=
  Guarded ConnectorStep fun c a => a.KeepsGoing ∧ (c.RunsStart a → c.status = .disconnected)

/-! ## The trace -/

namespace Connector

variable {c c' : Connector}

@[simp] theorem outcomes_log (c : Connector) (e : ConnectorEvent) :
    (c.log e).outcomes = record c.outcomes e := by
  simp only [outcomes, log, List.foldl_append, List.foldl_cons, List.foldl_nil]

theorem outcomes_retry (c : Connector) (f : Int) : (c.retry f).outcomes = c.outcomes := by
  have hclose : (c.close f).outcomes = c.outcomes := outcomes_log c _
  simp only [retry]
  split
  · rw [outcomes_log]
    exact hclose
  · exact hclose

theorem retry_channel (c : Connector) (f : Int) : (c.retry f).channel = c.channel := by
  simp only [retry]
  split <;> rfl

theorem retry_status (c : Connector) (f : Int) : (c.retry f).status = .disconnected := by
  simp only [retry]
  split <;> rfl

theorem callError_eq (h : c.errorCallback = true) : c.callError = c.log .error := if_pos h

/-! ## The invariant -/

/-- `handleWrite` is the last handler of a poll result. -/
def WriteLast (hs : List Handler) : Prop := ∀ pre rest, hs = pre ++ .write :: rest → rest = []

theorem WriteLast.tail {h : Handler} {hs : List Handler} (hw : WriteLast (h :: hs)) :
    WriteLast hs := by
  intro pre rest heq
  exact hw (h :: pre) rest (by rw [heq]; rfl)

theorem writeLast_handleEvent (ch : Channel) : WriteLast ch.handleEvent := by
  have hno : ∀ (l r pre rest : List Handler), .write ∉ l → (r = [] ∨ r = [.write]) →
      l ++ r = pre ++ .write :: rest → rest = [] := by
    intro l r pre rest hl hr heq
    rcases hr with rfl | rfl
    · rw [List.append_nil] at heq
      exact absurd (heq ▸ List.mem_append_right pre List.mem_cons_self) hl
    · by_cases hrest : rest = []
      · exact hrest
      · -- the first `write` would come before the last handler
        obtain ⟨init, last, rfl⟩ := (List.eq_nil_or_concat rest).resolve_left hrest
        rw [List.concat_eq_append, ← List.cons_append, ← List.append_assoc] at heq
        obtain ⟨rfl, -⟩ := List.append_inj' heq rfl
        exact absurd (List.mem_append_right pre List.mem_cons_self) hl
  intro pre rest heq
  rw [Channel.handleEvent] at heq
  split at heq
  · exact absurd (congrArg List.length heq) (by simp)
  · rw [Channel.handleEventSafely] at heq
    refine hno _ _ pre rest ?_ ?_ heq
    · simp only [List.mem_append, not_or]
      refine ⟨⟨?_, ?_⟩, ?_⟩ <;> split <;> simp
    · split
      · exact Or.inr rfl
      · exact Or.inl rfl

/-- What does not depend on whether an attempt is under way. -/
structure Base (c : Connector) : Prop where
  callback : c.errorCallback = true
  fresh : ∀ p ∈ c.outcomes, p.1 < c.nextFd
  queue : .removeAndResetChannel ∉ c.queue
  dispatch : WriteLast c.dispatch

/-- No attempt is under way and all have been reported. -/
structure Idle (c : Connector) : Prop where
  channel : c.channel = none
  reported : ∀ p ∈ c.outcomes, p.2 = 1

/-- One attempt is under way, the latest; the others have been reported. -/
structure Busy (c : Connector) (fd : Int) (rest : List (Int × Nat)) : Prop where
  channel : c.channel = some fd
  status : c.status = .connecting
  started : c.started = true
  latest : c.outcomes = (fd, 0) :: rest
  reported : ∀ p ∈ rest, p.2 = 1

/-- The invariant of a run. A `handleWrite` that fails without retry leaves
`m_status` at `Connecting`; no handler follows it. -/
structure Reporting (c : Connector) : Prop extends Base c where
  phase : (c.Idle ∧ (c.status = .connecting → c.dispatch = [])) ∨ ∃ fd rest, c.Busy fd rest

theorem Reporting.reported (h : c.Reporting) : c.Reported := by
  intro p hp hch
  rcases h.phase with ⟨hidle, -⟩ | ⟨fd, rest, hbusy⟩
  · exact hidle.reported p hp
  · rw [hbusy.latest] at hp
    rcases List.mem_cons.mp hp with rfl | hp
    · exact absurd hbusy.channel hch
    · exact hbusy.reported p hp

theorem reporting_new (retry : Bool) : (new retry true).Reporting where
  callback := rfl
  fresh p hp := nomatch hp
  queue := List.not_mem_nil
  dispatch pre rest heq := absurd (congrArg List.length heq) (by simp [new])
  phase := Or.inl ⟨⟨rfl, fun p hp => nomatch hp⟩, fun hs => nomatch hs⟩

/-! ## Beginning an attempt -/

theorem Base.of_eq (h : c.Base) (hcb : c'.errorCallback = c.errorCallback)
    (hout : c'.outcomes = c.outcomes) (hfd : c'.nextFd = c.nextFd) (hq : c'.queue = c.queue)
    (hd : c'.dispatch = c.dispatch) : c'.Base where
  callback := hcb ▸ h.callback
  fresh := by
    rw [hout, hfd]
    exact h.fresh
  queue := hq ▸ h.queue
  dispatch := hd ▸ h.dispatch

/-- The connector with its new socket, before the answer is looked at. -/
def opened (c : Connector) : Connector :=
  ({ c with socketHanded := false, fd := (c.nextFd : Int), nextFd := c.nextFd + 1 }).log
    (.create c.nextFd)

/-- The `default` branch of the `switch`. -/
def refused (c : Connector) (fd : Int) : Connector :=
  ({ c with socketHanded := true }.close fd).callError

theorem connect_eq (c : Connector) (e : ConnectErrno) :
    c.connect e =
      match e.case with
      | .connecting => c.opened.connecting c.nextFd
      | .retry => if c.opened.mRetry then c.opened.retry c.nextFd else c.opened
      | .error => c.opened.refused c.nextFd := rfl

theorem outcomes_opened (c : Connector) : c.opened.outcomes = ((c.nextFd : Int), 0) :: c.outcomes :=
  outcomes_log _ _

theorem Base.opened (h : c.Base) : c.opened.Base where
  callback := h.callback
  fresh := by
    intro p hp
    rw [outcomes_opened] at hp
    rcases List.mem_cons.mp hp with rfl | hp
    · exact Int.lt_succ _
    · exact Int.lt_trans (h.fresh p hp) (Int.lt_succ _)
  queue := h.queue
  dispatch := h.dispatch

/-- The report of an attempt that is not under way any more. -/
structure Ends (c c' : Connector) : Prop where
  channel : c'.channel = none
  outcomes : c'.outcomes = record c.outcomes .error
  callback : c'.errorCallback = c.errorCallback
  nextFd : c'.nextFd = c.nextFd
  queue : .removeAndResetChannel ∉ c.queue → .removeAndResetChannel ∉ c'.queue
  dispatch : c'.dispatch = c.dispatch

theorem Ends.idle (he : Ends c c') (h : c.Base) {fd : Int} {rest : List (Int × Nat)}
    (hout : c.outcomes = (fd, 0) :: rest) (hrest : ∀ p ∈ rest, p.2 = 1) : c'.Base ∧ c'.Idle := by
  have hrec : c'.outcomes = (fd, 1) :: rest := by rw [he.outcomes, hout]; rfl
  refine ⟨⟨he.callback ▸ h.callback, ?_, he.queue h.queue, he.dispatch ▸ h.dispatch⟩,
    he.channel, ?_⟩
  · intro p hp
    rw [he.nextFd]
    rw [hrec] at hp
    rcases List.mem_cons.mp hp with rfl | hp
    · exact h.fresh (fd, 0) (hout ▸ List.mem_cons_self)
    · exact h.fresh p (hout ▸ List.mem_cons_of_mem _ hp)
  · intro p hp
    rw [hrec] at hp
    rcases List.mem_cons.mp hp with rfl | hp
    · rfl
    · exact hrest p hp

theorem Ends.callError {d : Connector} (hcb : c.errorCallback = true) (hch : d.channel = none)
    (hout : d.outcomes = c.outcomes) (hcb' : d.errorCallback = c.errorCallback)
    (hfd : d.nextFd = c.nextFd)
    (hq : .removeAndResetChannel ∉ c.queue → .removeAndResetChannel ∉ d.queue)
    (hd : d.dispatch = c.dispatch) : Ends c d.callError := by
  rw [callError_eq (hcb'.trans hcb)]
  exact ⟨hch, by rw [outcomes_log, hout], hcb', hfd, hq, hd⟩

theorem Reporting.connect (h : c.Base) (hidle : c.Idle) (hs : c.status = .disconnected)
    (hst : c.started = true) {e : ConnectErrno} (he : e.case ≠ .retry) :
    (c.connect e).Reporting := by
  have hout := outcomes_opened c
  rw [connect_eq]
  cases hcase : e.case with
  | retry => exact absurd hcase he
  | connecting =>
      have hlog : (c.opened.connecting c.nextFd).outcomes = c.opened.outcomes := outcomes_log _ _
      refine ⟨h.opened.of_eq rfl hlog rfl rfl rfl, Or.inr ⟨c.nextFd, c.outcomes, ?_⟩⟩
      exact ⟨rfl, rfl, hst, hlog.trans hout, hidle.reported⟩
  | error =>
      have hends : Ends c.opened (c.opened.refused c.nextFd) :=
        Ends.callError h.callback hidle.channel (outcomes_log _ _) rfl rfl id rfl
      obtain ⟨hbase, hidle'⟩ := hends.idle h.opened hout hidle.reported
      have hst : (c.opened.refused c.nextFd).status = .disconnected := by
        rw [refused, callError]
        split <;> exact hs
      exact ⟨hbase, Or.inl ⟨hidle', fun hc => nomatch hst.symm.trans hc⟩⟩

/-- An attempt whose answer is only retried is over and not reported. -/
theorem not_reported_connect (hch : c.channel = none) {e : ConnectErrno} (he : e.case = .retry) :
    ¬ (c.connect e).Reported := by
  have hout : (c.connect e).outcomes = ((c.nextFd : Int), 0) :: c.outcomes := by
    rw [connect_eq, he]
    simp only
    split
    · rw [outcomes_retry, outcomes_opened]
    · exact outcomes_opened c
  have hch' : (c.connect e).channel = none := by
    rw [connect_eq, he]
    simp only
    split
    · rw [retry_channel]
      exact hch
    · exact hch
  intro hrep
  have hone := hrep ((c.nextFd : Int), 0) (hout ▸ List.mem_cons_self) (by rw [hch']; simp)
  cases hone

/-- `startInLoop` writes down what it has tested. -/
def tested (c : Connector) : Connector := c.log (.startInLoop c.started c.status)

theorem startInLoop_eq (c : Connector) (e : ConnectErrno) :
    c.startInLoop e = if c.started then c.tested.connect e else c.tested := rfl

theorem Reporting.startInLoop (h : c.Base) (hidle : c.Idle) (hs : c.status = .disconnected)
    {e : ConnectErrno} (he : c.started = true → e.case ≠ .retry) :
    (c.startInLoop e).Reporting := by
  have hlog : c.tested.outcomes = c.outcomes := outcomes_log c _
  have hbase : c.tested.Base := h.of_eq rfl hlog rfl rfl rfl
  have hidle' : c.tested.Idle := ⟨hidle.channel, by rw [hlog]; exact hidle.reported⟩
  rw [startInLoop_eq]
  by_cases hst : c.started = true
  · rw [if_pos hst]
    exact Reporting.connect hbase hidle' hs hst (he hst)
  · rw [if_neg hst]
    exact ⟨hbase, Or.inl ⟨hidle', fun hc => nomatch hs.symm.trans hc⟩⟩

theorem not_reported_startInLoop (hch : c.channel = none) (hst : c.started = true)
    {e : ConnectErrno} (he : e.case = .retry) : ¬ (c.startInLoop e).Reported := by
  rw [startInLoop_eq, if_pos hst]
  exact not_reported_connect (c := c.tested) hch he

/-! ## Ending an attempt -/

/-- The connector without its channel, at status `st`. -/
def detached (c : Connector) (st : ConnectorStatus) : Connector :=
  { c with
    socketHanded := true
    status := st
    channel := none
    queue := c.queue ++ [.keepChannel] }

theorem queue_detached (st : ConnectorStatus) (h : .removeAndResetChannel ∉ c.queue) :
    .removeAndResetChannel ∉ (c.detached st).queue :=
  List.not_mem_append h (by simp)

theorem handleError_eq {fd : Int} (hs : c.status = .connecting) (hch : c.channel = some fd) :
    c.handleError =
      (if c.mRetry then (c.detached .disconnected).retry fd
        else (c.detached .disconnected).close fd).callError := by
  rw [handleError]
  simp only [hs, if_true, removeAndResetChannel, hch]
  rfl

theorem handleWrite_eq {fd : Int} (hs : c.status = .connecting) (hch : c.channel = some fd)
    (hst : c.started = true) (err selfConnect : Bool) :
    c.handleWrite err selfConnect =
      if err || selfConnect then (c.detached .connecting).failWrite fd
      else (c.detached .connected).log (.newConnection fd) := by
  rw [handleWrite]
  simp only [hs, if_true, removeAndResetChannel, hch]
  cases err <;> cases selfConnect <;> simp [hst, queueInLoop, detached]

theorem retry_fields (c : Connector) (f : Int) :
    (c.retry f).errorCallback = c.errorCallback ∧ (c.retry f).nextFd = c.nextFd ∧
      (c.retry f).queue = c.queue ∧ (c.retry f).dispatch = c.dispatch := by
  simp only [retry]
  split <;> exact ⟨rfl, rfl, rfl, rfl⟩

theorem ends_failed (hcb : c.errorCallback = true) (st : ConnectorStatus) (fd : Int) :
    Ends c ((c.detached st).retry fd).callError ∧ Ends c ((c.detached st).close fd).callError := by
  obtain ⟨h1, h2, h3, h4⟩ := retry_fields (c.detached st) fd
  constructor
  · exact Ends.callError hcb (retry_channel _ _) (outcomes_retry _ _) h1 h2
      (fun hq => h3 ▸ queue_detached st hq) h4
  · exact Ends.callError hcb rfl (outcomes_log _ _) rfl rfl (queue_detached st) rfl

theorem Busy.handleError {fd : Int} {rest : List (Int × Nat)} (hb : c.Busy fd rest) (h : c.Base) :
    Ends c c.handleError ∧ c.handleError.status = .disconnected := by
  obtain ⟨h1, h2⟩ := ends_failed h.callback .disconnected fd
  rw [handleError_eq hb.status hb.channel]
  split
  · refine ⟨h1, ?_⟩
    rw [callError]
    split <;> exact retry_status _ _
  · refine ⟨h2, ?_⟩
    rw [callError]
    split <;> rfl

theorem Busy.handleWrite {fd : Int} {rest : List (Int × Nat)} (hb : c.Busy fd rest) (h : c.Base)
    (err selfConnect : Bool) : Ends c (c.handleWrite err selfConnect) := by
  obtain ⟨h1, h2⟩ := ends_failed h.callback .connecting fd
  rw [handleWrite_eq hb.status hb.channel hb.started]
  split
  · rw [failWrite]
    split
    · exact h1
    · exact h2
  · have hrec : record c.outcomes (.newConnection fd) = record c.outcomes .error := by
      rw [hb.latest]
      rfl
    exact ⟨rfl, (outcomes_log _ _).trans hrec, rfl, rfl, queue_detached .connected, rfl⟩

/-! ## Steps and runs -/

theorem Reporting.handle (h : c.Reporting) {x : Handler} {rest : List Handler}
    (hd : c.dispatch = x :: rest) (err selfConnect : Bool) :
    ({ c with dispatch := rest }.handle err selfConnect x).Reporting := by
  have hbase : ({ c with dispatch := rest } : Connector).Base :=
    ⟨h.callback, h.fresh, h.queue, WriteLast.tail (hd ▸ h.dispatch)⟩
  have hlast : x = .write → rest = [] := by
    rintro rfl
    exact h.dispatch [] rest hd
  rcases h.phase with ⟨hidle, hst⟩ | ⟨fd, as, hb⟩
  · -- nothing is under way: the handlers find another status
    have hne : c.status ≠ .connecting := by
      intro hs
      have := hst hs
      rw [hd] at this
      cases this
    have hidle' : ({ c with dispatch := rest } : Connector).Idle := ⟨hidle.channel, hidle.reported⟩
    cases x with
    | close | error =>
        rw [Connector.handle, Connector.handleError, if_neg hne]
        exact ⟨hbase.of_eq rfl rfl rfl rfl rfl, Or.inl ⟨⟨hidle.channel, hidle.reported⟩,
          fun hs => absurd hs hne⟩⟩
    | read => exact ⟨hbase, Or.inl ⟨hidle', fun hs => absurd hs hne⟩⟩
    | write =>
        rw [Connector.handle, Connector.handleWrite, if_neg hne]
        have hlog : (({ c with dispatch := rest, socketHanded := true } : Connector).log
            (.stopped c.status)).outcomes = c.outcomes := outcomes_log _ _
        refine ⟨hbase.of_eq rfl hlog rfl rfl rfl, Or.inl ⟨⟨hidle.channel, ?_⟩,
          fun hs => absurd hs hne⟩⟩
        rw [hlog]
        exact hidle.reported
  · have hb' : ({ c with dispatch := rest } : Connector).Busy fd as :=
      ⟨hb.channel, hb.status, hb.started, hb.latest, hb.reported⟩
    cases x with
    | close | error =>
        obtain ⟨hends, hs⟩ := hb'.handleError hbase
        obtain ⟨hbase', hidle'⟩ := hends.idle hbase hb'.latest hb'.reported
        exact ⟨hbase', Or.inl ⟨hidle', fun hc => nomatch hs.symm.trans hc⟩⟩
    | read => exact ⟨hbase, Or.inr ⟨fd, as, hb'⟩⟩
    | write =>
        have hends := hb'.handleWrite hbase err selfConnect
        obtain ⟨hbase', hidle'⟩ := hends.idle hbase hb'.latest hb'.reported
        refine ⟨hbase', Or.inl ⟨hidle', fun _ => ?_⟩⟩
        exact hends.dispatch.trans (hlast rfl)

theorem Reporting.idle (h : c.Reporting) (hs : c.status = .disconnected) : c.Idle := by
  rcases h.phase with ⟨hidle, -⟩ | ⟨fd, rest, hb⟩
  · exact hidle
  · exact nomatch hs.symm.trans hb.status

theorem outcomes_destroy (c : Connector) : c.destroy.outcomes = c.outcomes := by
  rw [destroy]
  split
  · exact outcomes_log c _
  · rfl

theorem destroy_fields (c : Connector) :
    c.destroy.errorCallback = c.errorCallback ∧ c.destroy.nextFd = c.nextFd ∧
      c.destroy.queue = c.queue ∧ c.destroy.dispatch = c.dispatch ∧
      c.destroy.channel = c.channel ∧ c.destroy.status = c.status := by
  rw [destroy]
  split <;> exact ⟨rfl, rfl, rfl, rfl, rfl, rfl⟩

theorem Reporting.started (h : c.Reporting) :
    ({ c with started := true } : Connector).Reporting := by
  refine ⟨⟨h.callback, h.fresh, h.queue, h.dispatch⟩, ?_⟩
  rcases h.phase with ⟨hidle, hst⟩ | ⟨fd, rest, hb⟩
  · exact Or.inl ⟨⟨hidle.channel, hidle.reported⟩, hst⟩
  · exact Or.inr ⟨fd, rest, hb.channel, hb.status, rfl, hb.latest, hb.reported⟩

theorem Reporting.queued (h : c.Reporting) {q : List ConnectorTask}
    (hq : .removeAndResetChannel ∉ q) : ({ c with queue := q } : Connector).Reporting := by
  refine ⟨⟨h.callback, h.fresh, hq, h.dispatch⟩, ?_⟩
  rcases h.phase with ⟨hidle, hst⟩ | ⟨fd, rest, hb⟩
  · exact Or.inl ⟨⟨hidle.channel, hidle.reported⟩, hst⟩
  · exact Or.inr ⟨fd, rest, hb.channel, hb.status, hb.started, hb.latest, hb.reported⟩

theorem event_channel {revents : BitVec 32}
    (h : ConnectorStep c (.event revents) c') : c.channel ≠ none := by
  intro hch
  unfold ConnectorStep exec at h
  split at h
  · cases h
  · simp only at h
    split at h
    case h_1 hsome => exact absurd (hch.symm.trans hsome) (by simp)
    case h_2 => cases h

theorem Reporting.step {a : ConnectorAct} (h : c.Reporting) (hg : c.Answered a)
    (hs : AttemptStep c a c') : c'.Reporting := by
  obtain ⟨hstep, hgo, hassert⟩ := hs
  cases hstep.move with
  | stop | restart => exact hgo.elim
  | start inLoop e =>
      cases inLoop with
      | true =>
          have hs := hassert rfl
          exact Reporting.startInLoop h.started.toBase (h.started.idle hs) hs fun _ => hg rfl
      | false =>
          have hq : .removeAndResetChannel ∉ c.queue ++ [.startInLoop] :=
            List.not_mem_append h.queue (by simp)
          exact h.started.queued hq
  | @task e t rest hq =>
      have hqueue : .removeAndResetChannel ∉ rest :=
        fun hm => h.queue (hq ▸ List.mem_cons_of_mem _ hm)
      have hrest := h.queued hqueue
      cases t with
      | removeAndResetChannel => exact absurd (hq ▸ List.mem_cons_self) h.queue
      | keepChannel => exact hrest
      | startInLoop =>
          have hs := hassert ⟨rest, hq⟩
          exact Reporting.startInLoop hrest.toBase (hrest.idle hs) hs (hg ⟨rest, hq⟩)
  | @timer e i hi =>
      have hs := hassert trivial
      have hidle := h.idle hs
      exact Reporting.startInLoop (c := { c with timers := c.timers.eraseIdx i })
        ⟨h.callback, h.fresh, h.queue, h.dispatch⟩ ⟨hidle.channel, hidle.reported⟩ hs hg
  | event revents =>
      refine ⟨⟨h.callback, h.fresh, h.queue,
        writeLast_handleEvent ⟨Channel.kWriteEvent, revents⟩⟩, ?_⟩
      rcases h.phase with ⟨hidle, -⟩ | ⟨fd, rest, hb⟩
      · exact absurd hidle.channel (event_channel hstep)
      · exact Or.inr ⟨fd, rest, hb.channel, hb.status, hb.started, hb.latest, hb.reported⟩
  | handler err selfConnect hd => exact h.handle hd err selfConnect
  | destroy hch =>
      have hout := outcomes_destroy c
      obtain ⟨h1, h2, h3, h4, h5, h6⟩ := destroy_fields c
      refine ⟨h.of_eq h1 hout h2 h3 h4, Or.inl ?_⟩
      rcases h.phase with ⟨hidle, hst⟩ | ⟨fd, rest, hb⟩
      · exact ⟨⟨h5.trans hch, hout ▸ hidle.reported⟩, h4 ▸ h6 ▸ hst⟩
      · exact absurd (hch.symm.trans hb.channel) (by simp)

/-- An act that is not `Answered` opens a socket and forgets it. -/
theorem Reporting.not_reported {a : ConnectorAct} (h : c.Reporting) (hg : ¬ c.Answered a)
    (hs : AttemptStep c a c') : ¬ c'.Reported := by
  obtain ⟨hstep, hgo, hassert⟩ := hs
  cases hstep.move with
  | stop | restart => exact hgo.elim
  | event | handler | destroy => exact absurd trivial hg
  | start inLoop e =>
      obtain ⟨rfl, he⟩ := Classical.not_imp.mp hg
      have hidle := h.idle (hassert rfl)
      exact not_reported_startInLoop (c := { c with started := true }) hidle.channel rfl
        (not_not.mp he)
  | @task e t rest hq =>
      obtain ⟨hrun, hg⟩ := Classical.not_imp.mp hg
      obtain ⟨hst, he⟩ := Classical.not_imp.mp hg
      obtain ⟨rest', hq'⟩ := hrun
      obtain rfl : t = .startInLoop := (List.cons.inj (hq.symm.trans hq')).1
      have hidle := h.idle (hassert ⟨rest', hq'⟩)
      exact not_reported_startInLoop (c := { c with queue := rest }) hidle.channel hst
        (not_not.mp he)
  | @timer e i hi =>
      obtain ⟨hst, he⟩ := Classical.not_imp.mp hg
      have hidle := h.idle (hassert trivial)
      exact not_reported_startInLoop (c := { c with timers := c.timers.eraseIdx i })
        hidle.channel hst (not_not.mp he)

/-- In every run, every attempt that is over has been reported exactly
once, exactly when no `connect(2)` is answered in the class of errors that
the `switch` retries. -/
theorem reported_iff_answered (retry : Bool) (acts : List ConnectorAct) :
    Throughout AttemptStep Reported (new retry true) acts ↔
      EveryStep AttemptStep Answered (new retry true) acts :=
  throughout_iff_everyStep (reporting_new retry) (fun _ _ _ h hg hs => h.step hg hs)
    (fun _ h => h.reported) (fun _ _ _ h hg hs => h.not_reported hg hs)

/-- `ECONNREFUSED` from `connect(2)` itself is reported neither with retry
nor without. -/
theorem connRefused_not_reported :
    ¬ Throughout AttemptStep Reported (new true true) [.start true .connRefused] ∧
      ¬ Throughout AttemptStep Reported (new false true) [.start true .connRefused] := by
  have hrun : ∀ retry, Run AttemptStep (new retry true) [.start true .connRefused]
      ((new retry true).start true .connRefused) :=
    fun retry => .cons ⟨rfl, trivial, fun _ => rfl⟩ (.nil _)
  constructor
  · intro h
    exact absurd (h _ _ (List.prefix_refl _) (hrun true)) (by decide)
  · intro h
    exact absurd (h _ _ (List.prefix_refl _) (hrun false)) (by decide)

end Connector
end Netpoll
