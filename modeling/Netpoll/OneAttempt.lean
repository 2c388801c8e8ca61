import Netpoll.TcpClient

/-!
# One connection attempt at a time

`startInLoop` asserts that the connector is disconnected, `connecting`
that there is no channel of an earlier attempt. On the loop thread both
hold as long as a new attempt is asked for only when there is none:
`start` on a disconnected connector without a retry timer, `restart`
without a retry timer (`TcpClient.StartsFree`). Nothing in the client
makes sure of that: after success the status stays `connected`, also when
the connection is gone, and `stop` leaves the retry timer running.
-/

namespace Netpoll

/-- The assertions of `startInLoop`, where it goes on, and of `connecting`. -/
def ConnectorEvent.Holds : ConnectorEvent → Prop
  | .startInLoop started status => started → status = .disconnected
  | .connecting channel => channel = none
  | _ => True

instance (e : ConnectorEvent) : Decidable e.Holds := by
  cases e <;> simp only [ConnectorEvent.Holds] <;> infer_instance

namespace Connector

/-- Attempts with a channel in the poller: the current one, and those
whose channel was overwritten. -/
def attempts (c : Connector) : Nat :=
  c.channel.toList.length + c.trace.countP fun
    | .connecting (some _) => true
    | _ => false

def OneAttempt (c : Connector) : Prop := (∀ e ∈ c.trace, e.Holds) ∧ c.attempts ≤ 1

instance (c : Connector) : Decidable c.OneAttempt := inferInstanceAs (Decidable (_ ∧ _))

/-- No assertion has failed, and no other thread has asked for anything. -/
structure Asserts (c : Connector) : Prop where
  events : ∀ e ∈ c.trace, e.Holds
  queue : ∀ t ∈ c.queue, t = .keepChannel

/-- A channel only while connecting, a retry timer only while disconnected. -/
structure Single (c : Connector) : Prop extends Asserts c where
  timers : c.timers.length ≤ 1
  waiting : c.timers ≠ [] → c.status = .disconnected
  channel : c.channel ≠ none → c.status = .connecting

/-- Nothing is under way. -/
structure Free (c : Connector) : Prop extends Asserts c where
  timers : c.timers = []
  channel : c.channel = none

theorem Asserts.oneAttempt {c : Connector} (h : c.Asserts) : c.OneAttempt := by
  refine ⟨h.events, ?_⟩
  have hcount : c.trace.countP (fun | .connecting (some _) => true | _ => false) = 0 := by
    refine List.countP_eq_zero.mpr fun e he hc => ?_
    have hold := h.events e he
    split at hc
    · cases hold
    · cases hc
  rw [attempts, hcount]
  cases c.channel <;> simp

theorem Asserts.log {c : Connector} (h : c.Asserts) (e : ConnectorEvent) (he : e.Holds) :
    (c.log e).Asserts where
  events := by
    intro x hx
    rcases List.mem_append.mp hx with hx | hx
    · exact h.events x hx
    · exact List.mem_singleton.mp hx ▸ he
  queue := h.queue

theorem Free.single {c : Connector} (h : c.Free) : c.Single where
  toAsserts := h.toAsserts
  timers := by simp [h.timers]
  waiting := fun ht => absurd h.timers ht
  channel := fun hch => absurd h.channel hch

theorem Free.of_eq {c d : Connector} (h : c.Free) (htr : d.trace = c.trace)
    (hq : d.queue = c.queue) (ht : d.timers = c.timers) (hch : d.channel = c.channel) : d.Free where
  events := htr ▸ h.events
  queue := hq ▸ h.queue
  timers := ht.trans h.timers
  channel := hch.trans h.channel

theorem Free.new (retry errorCallback : Bool) : (new retry errorCallback).Free where
  events := by simp [Connector.new]
  queue := by simp [Connector.new]
  timers := rfl
  channel := rfl

theorem Free.log {c : Connector} (h : c.Free) (e : ConnectorEvent) (he : e.Holds) :
    (c.log e).Free := ⟨h.toAsserts.log e he, h.timers, h.channel⟩

theorem Single.log {c : Connector} (h : c.Single) (e : ConnectorEvent) (he : e.Holds) :
    (c.log e).Single := ⟨h.toAsserts.log e he, h.timers, h.waiting, h.channel⟩

theorem Single.callError {c : Connector} (h : c.Single) : c.callError.Single := by
  unfold Connector.callError
  split
  · exact h.log .error trivial
  · exact h

theorem Single.channel_none {c : Connector} (h : c.Single) (hs : c.status = .disconnected) :
    c.channel = none := by
  by_contra hch
  exact absurd (hs.symm.trans (h.channel hch)) (by decide)

theorem Single.timers_nil {c : Connector} (h : c.Single) (hs : c.status = .connecting) :
    c.timers = [] := by
  by_contra ht
  exact absurd (hs.symm.trans (h.waiting ht)) (by decide)

/-! ## The functions -/

theorem Asserts.removeAndResetChannel {c : Connector} (h : c.Asserts) :
    c.removeAndResetChannel.2.Asserts := by
  unfold Connector.removeAndResetChannel
  split
  · exact h
  · refine ⟨h.events, fun t ht => ?_⟩
    rcases List.mem_append.mp ht with ht | ht
    · exact h.queue t ht
    · exact List.mem_singleton.mp ht

theorem removeAndResetChannel_channel (c : Connector) :
    c.removeAndResetChannel.2.channel = none := by
  unfold removeAndResetChannel
  split
  case h_1 hch => exact hch
  case h_2 => rfl

theorem removeAndResetChannel_timers (c : Connector) :
    c.removeAndResetChannel.2.timers = c.timers := by
  unfold removeAndResetChannel
  split <;> rfl

theorem removeAndResetChannel_status (c : Connector) :
    c.removeAndResetChannel.2.status = c.status := by
  unfold removeAndResetChannel
  split <;> rfl

theorem Asserts.free_removeAndResetChannel {c : Connector} (h : c.Asserts) (ht : c.timers = []) :
    c.removeAndResetChannel.2.Free :=
  ⟨h.removeAndResetChannel, c.removeAndResetChannel_timers.trans ht,
    c.removeAndResetChannel_channel⟩

theorem Free.retry {c : Connector} (h : c.Free) (f : Int) : (c.retry f).Single := by
  have hclose : (c.close f).Free := h.log (.close f) trivial
  unfold Connector.retry
  simp only
  split
  · refine Single.log ?_ _ trivial
    refine ⟨⟨hclose.events, hclose.queue⟩, ?_, fun _ => rfl, fun hch => absurd hclose.channel hch⟩
    have ht : (c.close f).timers = [] := hclose.timers
    simp [ht]
  · refine Free.single ?_
    exact hclose.of_eq rfl rfl rfl rfl

theorem Free.connecting {c : Connector} (h : c.Free) (f : Int) : (c.connecting f).Single := by
  refine Single.log ?_ _ h.channel
  refine ⟨⟨h.events, h.queue⟩, ?_, fun ht => absurd h.timers ht, fun _ => rfl⟩
  have ht : c.timers = [] := h.timers
  simp [ht]

theorem Free.connect {c : Connector} (h : c.Free) (e : ConnectErrno) : (c.connect e).Single := by
  have hlog : (c.log (.create c.nextFd)).Free := h.log _ trivial
  have hcreate : ({ c with socketHanded := false, fd := c.nextFd, nextFd := c.nextFd + 1 }.log
      (.create c.nextFd)).Free := hlog.of_eq rfl rfl rfl rfl
  unfold Connector.connect
  simp only
  cases e.case with
  | connecting => exact hcreate.connecting _
  | retry =>
      simp only
      split
      · exact hcreate.retry _
      · exact hcreate.single
  | error =>
      refine Single.callError (Single.log (Free.single ?_) _ trivial)
      exact hcreate.of_eq rfl rfl rfl rfl

theorem Free.startInLoop {c : Connector} (h : c.Free) (hs : c.status = .disconnected)
    (e : ConnectErrno) : (c.startInLoop e).Single := by
  have hlog : (c.log (.startInLoop c.started c.status)).Free := h.log _ fun _ => hs
  unfold Connector.startInLoop
  simp only
  split
  · exact hlog.connect e
  · exact hlog.single

theorem Single.stop {c : Connector} (h : c.Single) :
    (c.stop true).Single ∧ (c.stop true).status = .disconnected ∧
      (c.stop true).timers = c.timers := by
  have hd : ({ c with started := false, status := .disconnected } : Connector).Asserts :=
    ⟨h.events, h.queue⟩
  have ht := removeAndResetChannel_timers { c with started := false, status := .disconnected }
  have hst := removeAndResetChannel_status { c with started := false, status := .disconnected }
  refine ⟨⟨hd.removeAndResetChannel, ht ▸ h.timers, fun _ => hst, ?_⟩, hst, ht⟩
  exact fun hch => absurd (removeAndResetChannel_channel _) hch

theorem Single.start {c : Connector} (h : c.Single) (hs : c.status = .disconnected)
    (ht : c.timers = []) (e : ConnectErrno) : (c.start true e).Single := by
  have hf : ({ c with started := true } : Connector).Free :=
    ⟨⟨h.events, h.queue⟩, ht, h.channel_none hs⟩
  exact hf.startInLoop hs e

theorem Single.restart {c : Connector} (h : c.Single) (ht : c.timers = []) (e : ConnectErrno) :
    (c.restart true e).Single := by
  obtain ⟨hsingle, hs, ht'⟩ := h.stop
  exact hsingle.start hs (ht'.trans ht) e

theorem Free.failWrite {c : Connector} (h : c.Free) (f : Int) : (c.failWrite f).Single := by
  unfold Connector.failWrite
  split
  · exact (h.retry f).callError
  · have hhanded : ({ c with socketHanded := true } : Connector).Free := h.of_eq rfl rfl rfl rfl
    exact (hhanded.single.log (.close f) trivial).callError

theorem Single.handleWrite {c : Connector} (h : c.Single) (err selfConnect : Bool) :
    (c.handleWrite err selfConnect).Single := by
  have hd : ({ c with socketHanded := true } : Connector).Asserts := ⟨h.events, h.queue⟩
  unfold Connector.handleWrite
  simp only
  split
  case isFalse => exact Single.log ⟨hd, h.timers, h.waiting, h.channel⟩ (.stopped _) trivial
  case isTrue hs =>
      have hfree := hd.free_removeAndResetChannel (h.timers_nil hs)
      generalize Connector.removeAndResetChannel _ = p at hfree ⊢
      obtain ⟨f, b⟩ := p
      have hb : ({ b with status := .connected } : Connector).Free := hfree.of_eq rfl rfl rfl rfl
      simp only
      split
      · exact hfree.failWrite f
      split
      · exact hfree.failWrite f
      split
      · exact hb.single.log (.newConnection f) trivial
      · refine Single.log (Free.single ?_) _ trivial
        exact hb.of_eq rfl rfl rfl rfl

theorem Single.handleError {c : Connector} (h : c.Single) : c.handleError.Single := by
  unfold Connector.handleError
  simp only
  split
  case isFalse => exact ⟨⟨h.events, h.queue⟩, h.timers, h.waiting, h.channel⟩
  case isTrue hs =>
      have hd : ({ c with socketHanded := true, status := .disconnected } : Connector).Asserts :=
        ⟨h.events, h.queue⟩
      have hfree := hd.free_removeAndResetChannel (h.timers_nil hs)
      generalize Connector.removeAndResetChannel _ = p at hfree ⊢
      obtain ⟨f, b⟩ := p
      simp only
      refine Single.callError ?_
      split
      · exact hfree.retry f
      · exact (hfree.log (.close f) trivial).single

theorem Single.handle {c : Connector} (h : c.Single) (err selfConnect : Bool) (x : Handler) :
    (c.handle err selfConnect x).Single := by
  cases x with
  | read => exact h
  | write => exact h.handleWrite err selfConnect
  | close => exact h.handleError
  | error => exact h.handleError

end Connector

/-! ## Steps and runs -/

/-- What the user asks for is asked for on the loop thread. -/
def ConnectorAct.OnLoop : ConnectorAct → Prop
  | .start inLoop _ | .stop inLoop | .restart inLoop _ => inLoop = true
  | _ => True

def ClientAct.OnLoop : ClientAct → Prop
  | .connect inLoop _ | .stop inLoop => inLoop = true
  | .connector a => a.OnLoop
  | _ => True

/-- An attempt is asked for only while there is none: `start` needs a
disconnected connector, and no retry timer is pending. -/
def Connector.StartsFree (c : Connector) : ConnectorAct → Prop
  | .start _ _ => c.status = .disconnected ∧ c.timers = []
  | .restart _ _ => c.timers = []
  | _ => True

/-- The same of what the client asks of its connector. -/
def TcpClient.StartsFree (t : TcpClient) : ClientAct → Prop
  | .connect _ _ =>
      t.mConnect = false → t.connector.status = .disconnected ∧ t.connector.timers = []
  | .connector a => t.connector.StartsFree a
  | .closed _ _ => t.mRetry → t.mConnect → t.connector.timers = []
  | _ => True

instance (c : Connector) : (a : ConnectorAct) → Decidable (c.StartsFree a)
  | .start _ _ => inferInstanceAs (Decidable (c.status = .disconnected ∧ c.timers = []))
  | .restart _ _ => inferInstanceAs (Decidable (c.timers = []))
  | .stop _ | .task _ | .timer _ _ | .event _ | .handler _ _ | .destroy =>
      inferInstanceAs (Decidable True)

instance (t : TcpClient) : (a : ClientAct) → Decidable (t.StartsFree a)
  | .connect _ _ => inferInstanceAs (Decidable
      (t.mConnect = false → t.connector.status = .disconnected ∧ t.connector.timers = []))
  | .connector a => inferInstanceAs (Decidable (t.connector.StartsFree a))
  | .closed _ _ =>
      inferInstanceAs (Decidable (t.mRetry → t.mConnect → t.connector.timers = []))
  | .enableRetry | .disconnect | .stop _ | .connectDestroyed => inferInstanceAs (Decidable True)

namespace Connector

theorem Single.step {c c' : Connector} {a : ConnectorAct} (h : c.Single) (hloop : a.OnLoop)
    (hfree : c.StartsFree a) (hne : a ≠ .destroy) (hstep : ConnectorStep c a c') : c'.Single := by
  cases hstep.move with
  | destroy => exact absurd rfl hne
  | start inLoop e =>
      obtain rfl : inLoop = true := hloop
      exact h.start hfree.1 hfree.2 e
  | stop inLoop =>
      obtain rfl : inLoop = true := hloop
      exact h.stop.1
  | restart inLoop e =>
      obtain rfl : inLoop = true := hloop
      exact h.restart hfree e
  | @task e t rest hq =>
      obtain rfl : t = .keepChannel := h.queue t (hq ▸ List.mem_cons_self)
      refine ⟨⟨h.events, fun x hx => ?_⟩, h.timers, h.waiting, h.channel⟩
      exact h.queue x (hq ▸ List.mem_cons_of_mem _ hx)
  | @timer e i hi =>
      have hs : c.status = .disconnected := h.waiting (List.ne_nil_of_length_pos (by omega))
      have ht : c.timers.eraseIdx i = [] := by
        refine List.length_eq_zero_iff.mp ?_
        have hlen := h.timers
        rw [List.length_eraseIdx_of_lt hi]
        omega
      have hfree : ({ c with timers := c.timers.eraseIdx i } : Connector).Free :=
        ⟨⟨h.events, h.queue⟩, ht, h.channel_none hs⟩
      exact hfree.startInLoop hs e
  | event revents => exact ⟨⟨h.events, h.queue⟩, h.timers, h.waiting, h.channel⟩
  | @handler err selfConnect x rest hd =>
      refine Single.handle ?_ err selfConnect x
      exact ⟨⟨h.events, h.queue⟩, h.timers, h.waiting, h.channel⟩

end Connector

namespace TcpClient

theorem single_step {t t' : TcpClient} {a : ClientAct} (h : t.connector.Single)
    (hloop : a.OnLoop) (hfree : t.StartsFree a) (hstep : ClientStep t a t') :
    t'.connector.Single := by
  cases hstep.move with
  | enableRetry => exact h
  | connect inLoop e =>
      obtain rfl : inLoop = true := hloop
      unfold connect
      split
      · exact h
      case isFalse hc =>
          obtain ⟨hs, ht⟩ := hfree (Bool.not_eq_true _ ▸ hc)
          exact h.start hs ht e
  | disconnect =>
      unfold disconnect
      simp only
      split <;> exact h
  | stop inLoop =>
      obtain rfl : inLoop = true := hloop
      exact h.stop.1
  | connector hne hc =>
      rw [foldl_newConnection_eq]
      exact h.step hloop hfree hne hc
  | closed e hmem =>
      unfold removeConnection
      simp only
      split
      case isTrue hr => exact h.restart (hfree hr.1 hr.2) e
      case isFalse => exact h
  | connectDestroyed rest => exact h

/-- Attempts that are asked for while there is none are the only ones. -/
theorem oneAttempt_of_startsFree (retry errorCallback : Bool) {as : List ClientAct}
    (hloop : ∀ a ∈ as, a.OnLoop)
    (hfree : EveryStep ClientStep StartsFree
      { new errorCallback with connector := .new retry errorCallback } as) :
    Throughout ClientStep (fun t => t.connector.OneAttempt)
      { new errorCallback with connector := .new retry errorCallback } as := by
  intro pre t hpre hrun
  have hsingle := (hfree.guarded hpre hrun).invariant_of_labels
    (I := fun t => t.connector.Single) (P := ClientAct.OnLoop)
    (fun s a u ha hs hu => single_step hs ha hu.2 hu.1) (fun a ha => hloop a (hpre.subset ha))
    (Connector.Free.new retry errorCallback).single
  exact hsingle.oneAttempt

theorem oneAttempt_of_startsFree_retry :
    Throughout ClientStep (fun t => t.connector.OneAttempt)
      { new true with connector := .new true true }
      [.enableRetry, .connect true .connRefused, .connector (.timer 0 .inProgress),
        .connector (.event POLLOUT), .connector (.handler false false), .closed 1 .inProgress] :=
  oneAttempt_of_startsFree true true
    (by simp [ClientAct.OnLoop, ConnectorAct.OnLoop]) (everyStep_of_stepsMeet (by decide))

/-- A client that has been connected asks for its next attempt while the
status is still `connected`; a retry timer that `stop` or `restart` has
left fires during the attempt that was asked for after. -/
theorem not_oneAttempt_reconnect :
    ¬ Throughout ClientStep (fun t => t.connector.OneAttempt) (new true)
      [.connect true .inProgress, .connector (.event POLLOUT), .connector (.handler false false),
        .disconnect, .closed 0 .none, .connect true .inProgress] ∧
    ¬ Throughout ClientStep (fun t => t.connector.OneAttempt)
      { new true with connector := .new true true }
      [.connect true .connRefused, .stop true, .connect true .inProgress,
        .connector (.timer 0 .inProgress)] ∧
    ¬ Throughout ClientStep (fun t => t.connector.OneAttempt)
      { new true with connector := .new true true }
      [.connect true .connRefused, .connector (.restart true .inProgress),
        .connector (.timer 0 .inProgress)] :=
  ⟨fun h => absurd (h _ _ (List.prefix_refl _) (.of_foldlM rfl)) (by decide),
    fun h => absurd (h _ _ (List.prefix_refl _) (.of_foldlM rfl)) (by decide),
    fun h => absurd (h _ _ (List.prefix_refl _) (.of_foldlM rfl)) (by decide)⟩

end TcpClient

end Netpoll
