import Netpoll.TcpClient

/-!
# Retry

`TcpClient::enableRetry` is to keep a client connected: from `connect` on,
whenever the loop has nothing left to do, there is a connection, an
attempt or a retry timer. It sets `TcpClient::m_retry`, by which a
connection that closes is replaced; whether an attempt that fails is made
again is up to `Connector::m_retry`, which both constructors of the
client leave off. So the client keeps going as long as failed attempts
meet a connector that retries (`TcpClient.Retried`), and a first attempt
that fails is the last one otherwise.
-/

namespace Netpoll

namespace Connector

/-- An attempt is under way, or a timer is going to make one. -/
def Trying (c : Connector) : Prop :=
  c.status = .connecting ∧ c.channel ≠ none ∨ c.timers ≠ []

instance (c : Connector) : Decidable c.Trying := inferInstanceAs (Decidable (_ ∨ _))

/-- The next handler ends the attempt without a connection. -/
def fails (c : Connector) (err selfConnect : Bool) : Bool :=
  decide (c.status = .connecting) &&
    match c.dispatch.head? with
    | some .close | some .error => true
    | some .write => err || selfConnect
    | _ => false

/-! ## What the functions leave alone -/

/-- The connector stays started, and nothing but channels to be kept is
queued. -/
structure Frames (c c' : Connector) : Prop where
  started : c'.started = c.started
  queue : ∀ t, t ≠ .keepChannel → (t ∈ c'.queue ↔ t ∈ c.queue)

theorem Frames.of_eq {c c' : Connector} (hs : c'.started = c.started) (hq : c'.queue = c.queue) :
    c.Frames c' := ⟨hs, fun _ _ => hq ▸ Iff.rfl⟩

theorem Frames.trans {c₁ c₂ c₃ : Connector} (h : c₁.Frames c₂) (h' : c₂.Frames c₃) :
    c₁.Frames c₃ :=
  ⟨h'.started.trans h.started, fun t ht => (h'.queue t ht).trans (h.queue t ht)⟩

theorem Frames.of_frames {c d c' : Connector} (h : d.Frames c') (hs : d.started = c.started)
    (hq : d.queue = c.queue) : c.Frames c' := (Frames.of_eq hs hq).trans h

theorem frames_callError (c : Connector) : c.Frames c.callError := by
  unfold callError
  split <;> exact .of_eq rfl rfl

theorem frames_removeAndResetChannel (c : Connector) : c.Frames c.removeAndResetChannel.2 := by
  unfold removeAndResetChannel
  split
  · exact .of_eq rfl rfl
  · refine ⟨rfl, fun t ht => ?_⟩
    simp [queueInLoop, ht]

theorem frames_retry (c : Connector) (f : Int) : c.Frames (c.retry f) := by
  unfold retry
  simp only
  split <;> exact .of_eq rfl rfl

theorem frames_connect (c : Connector) (e : ConnectErrno) : c.Frames (c.connect e) := by
  unfold connect
  simp only
  split
  · exact .of_eq rfl rfl
  · split
    · exact (frames_retry _ _).of_frames rfl rfl
    · exact .of_eq rfl rfl
  · exact (frames_callError _).of_frames rfl rfl

theorem frames_startInLoop (c : Connector) (e : ConnectErrno) : c.Frames (c.startInLoop e) := by
  unfold startInLoop
  simp only
  split
  · exact (frames_connect _ e).of_frames rfl rfl
  · exact .of_eq rfl rfl

theorem frames_failWrite (c : Connector) (f : Int) : c.Frames (c.failWrite f) := by
  unfold failWrite
  split
  · exact (frames_retry c f).trans (frames_callError _)
  · exact (frames_callError _).of_frames rfl rfl

theorem frames_handleWrite (c : Connector) (err selfConnect : Bool) :
    c.Frames (c.handleWrite err selfConnect) := by
  unfold handleWrite
  simp only
  split
  case isFalse => exact .of_eq rfl rfl
  case isTrue =>
      have hrem := frames_removeAndResetChannel { c with socketHanded := true }
      generalize removeAndResetChannel _ = p at hrem ⊢
      obtain ⟨f, b⟩ := p
      refine Frames.trans (hrem.of_frames rfl rfl) ?_
      simp only
      split
      · exact b.frames_failWrite f
      split
      · exact b.frames_failWrite f
      split <;> exact .of_eq rfl rfl

theorem frames_handleError (c : Connector) : c.Frames c.handleError := by
  unfold handleError
  simp only
  split
  case isFalse => exact .of_eq rfl rfl
  case isTrue =>
      have hrem := frames_removeAndResetChannel
        { c with socketHanded := true, status := .disconnected }
      generalize removeAndResetChannel _ = p at hrem ⊢
      obtain ⟨f, b⟩ := p
      refine Frames.trans (hrem.of_frames rfl rfl) (Frames.trans ?_ (frames_callError _))
      simp only
      split
      · exact b.frames_retry f
      · exact .of_eq rfl rfl

theorem frames_handle (c : Connector) (err selfConnect : Bool) (x : Handler) :
    c.Frames (c.handle err selfConnect x) := by
  cases x with
  | read => exact .of_eq rfl rfl
  | write => exact c.frames_handleWrite err selfConnect
  | close => exact c.frames_handleError
  | error => exact c.frames_handleError

/-! ## Attempts -/

theorem trying_callError {c : Connector} (h : c.Trying) : c.callError.Trying := by
  unfold callError
  split <;> exact h

theorem trying_retry {c : Connector} (hs : c.started = true) (f : Int) : (c.retry f).Trying := by
  have hs' : (c.close f).started = true := hs
  unfold retry
  simp only [hs', if_true]
  exact .inr (by simp [log])

theorem trying_startInLoop {c : Connector} (hs : c.started = true) {e : ConnectErrno}
    (herr : e.case ≠ .error) (hret : e.case = .retry → c.mRetry = true) :
    (c.startInLoop e).Trying := by
  have hconnect : (c.startInLoop e) = (c.log (.startInLoop c.started c.status)).connect e := by
    unfold startInLoop
    exact if_pos hs
  rw [hconnect]
  unfold connect
  simp only
  cases he : e.case with
  | connecting => exact .inl ⟨rfl, by simp [connecting, log]⟩
  | retry =>
      simp only
      rw [if_pos (by exact hret he)]
      refine trying_retry ?_ _
      exact hs
  | error => exact absurd he herr

theorem start_cases {c : Connector} {inLoop : Bool} {e : ConnectErrno} (herr : e.case ≠ .error)
    (hret : inLoop → e.case = .retry → c.mRetry = true) :
    (c.start inLoop e).started = true ∧
      ((c.start inLoop e).Trying ∨ .startInLoop ∈ (c.start inLoop e).queue) ∧
      (.removeAndResetChannel ∈ (c.start inLoop e).queue → .removeAndResetChannel ∈ c.queue) := by
  cases inLoop with
  | true =>
      have hfr := frames_startInLoop { c with started := true } e
      refine ⟨hfr.started, .inl ?_, (hfr.queue _ (by decide)).mp⟩
      exact trying_startInLoop (c := { c with started := true }) rfl herr (hret rfl)
  | false =>
      refine ⟨rfl, .inr (List.mem_append_right _ List.mem_cons_self), fun hm => ?_⟩
      rcases List.mem_append.mp hm with hm | hm
      · exact hm
      · exact absurd (List.mem_singleton.mp hm) (by decide)

theorem removeAndResetChannel_mRetry (c : Connector) :
    c.removeAndResetChannel.2.mRetry = c.mRetry := by
  unfold removeAndResetChannel
  split <;> rfl

theorem removeAndResetChannel_trace (c : Connector) :
    c.removeAndResetChannel.2.trace = c.trace := by
  unfold removeAndResetChannel
  split <;> rfl

theorem trying_failWrite {c : Connector} (hs : c.started = true) (hr : c.mRetry = true) (f : Int) :
    (c.failWrite f).Trying := by
  unfold failWrite
  rw [if_pos hr]
  exact trying_callError (trying_retry hs f)

theorem handleWrite_cases {c : Connector} (hs : c.started = true) (hst : c.status = .connecting)
    (err selfConnect : Bool) (hret : err || selfConnect → c.mRetry = true) :
    (c.handleWrite err selfConnect).Trying ∨
      ∃ f, (c.handleWrite err selfConnect).trace = c.trace ++ [.newConnection f] := by
  have hrs := (frames_removeAndResetChannel { c with socketHanded := true }).started
  have hrr := removeAndResetChannel_mRetry { c with socketHanded := true }
  have hrt := removeAndResetChannel_trace { c with socketHanded := true }
  unfold handleWrite
  simp only
  rw [if_pos hst]
  generalize removeAndResetChannel _ = p at hrs hrr hrt ⊢
  obtain ⟨f, b⟩ := p
  have hbs : b.started = true := hrs.trans hs
  simp only
  split
  case isTrue herr => exact .inl (trying_failWrite hbs (hrr.trans (hret (by simp [herr]))) f)
  split
  case isTrue hself => exact .inl (trying_failWrite hbs (hrr.trans (hret (by simp [hself]))) f)
  exact .inr ⟨f, congrArg (fun l => l ++ [ConnectorEvent.newConnection f]) hrt⟩

theorem trying_handleError {c : Connector} (hs : c.started = true) (hst : c.status = .connecting)
    (hr : c.mRetry = true) : c.handleError.Trying := by
  have hrs := (frames_removeAndResetChannel
    { c with socketHanded := true, status := .disconnected }).started
  have hrr := removeAndResetChannel_mRetry { c with socketHanded := true, status := .disconnected }
  unfold handleError
  simp only
  rw [if_pos hst]
  generalize removeAndResetChannel _ = p at hrs hrr ⊢
  obtain ⟨f, b⟩ := p
  have hbr : b.mRetry = true := hrr.trans hr
  simp only [hbr, if_true]
  exact trying_callError (trying_retry (hrs.trans hs) f)

theorem restart_cases {c : Connector} {e : ConnectErrno} (herr : e.case ≠ .error)
    (hret : e.case = .retry → c.mRetry = true) :
    (c.restart true e).started = true ∧ (c.restart true e).Trying ∧
      (.removeAndResetChannel ∈ (c.restart true e).queue → .removeAndResetChannel ∈ c.queue) := by
  have hstop := frames_removeAndResetChannel { c with started := false, status := .disconnected }
  have hr : (c.stop true).mRetry = c.mRetry :=
    removeAndResetChannel_mRetry { c with started := false, status := .disconnected }
  have hfr := frames_startInLoop { c.stop true with started := true } e
  refine ⟨hfr.started, ?_, fun hm => ?_⟩
  · refine trying_startInLoop (c := { c.stop true with started := true }) rfl herr fun he => ?_
    exact hr.trans (hret he)
  · exact (hstop.queue _ (by decide)).mp ((hfr.queue _ (by decide)).mp hm)

theorem trying_handle_of_ne {c : Connector} (h : c.Trying) (hst : c.status ≠ .connecting)
    (err selfConnect : Bool) (x : Handler) : (c.handle err selfConnect x).Trying := by
  have htimers : c.timers ≠ [] := h.resolve_left fun ha => hst ha.1
  cases x with
  | read => exact h
  | write =>
      unfold handle handleWrite
      simp only
      rw [if_neg hst]
      exact .inr htimers
  | close | error =>
      unfold handle handleError
      simp only
      rw [if_neg hst]
      exact .inr htimers

theorem handle_cases {c : Connector} (hs : c.started = true) {err selfConnect : Bool} {x : Handler}
    {rest : List Handler} (hd : c.dispatch = x :: rest)
    (hret : c.fails err selfConnect → c.mRetry = true) {c' : Connector}
    (hc' : { c with dispatch := rest }.handle err selfConnect x = c') :
    (c.Trying → c'.Trying) ∨ ∃ f, c'.trace = c.trace ++ [.newConnection f] := by
  subst hc'
  by_cases hst : c.status = .connecting
  · cases x with
    | read => exact .inl id
    | write =>
        have hret' : err || selfConnect → c.mRetry = true := fun hf =>
          hret (by simpa [fails, hst, hd] using hf)
        rcases handleWrite_cases (c := { c with dispatch := rest }) hs hst err selfConnect hret'
          with h | h
        · exact .inl fun _ => h
        · exact .inr h
    | close =>
        have hr : c.mRetry = true := hret (by simp [fails, hst, hd])
        exact .inl fun _ => trying_handleError (c := { c with dispatch := rest }) hs hst hr
    | error =>
        have hr : c.mRetry = true := hret (by simp [fails, hst, hd])
        exact .inl fun _ => trying_handleError (c := { c with dispatch := rest }) hs hst hr
  · exact .inl fun h => trying_handle_of_ne (c := { c with dispatch := rest }) h hst err selfConnect x

end Connector

namespace TcpClient

/-! ## The client -/

/-- A live connection, an attempt in progress, or a retry timer. -/
def Alive (t : TcpClient) : Prop :=
  (∃ conn ∈ t.conns, t.connection = some conn) ∨ t.connector.Trying

instance (t : TcpClient) : Decidable t.Alive := inferInstanceAs (Decidable (_ ∨ _))

/-- The loop has nothing to do for the client. -/
def AtRest (t : TcpClient) : Prop :=
  t.connector.queue = [] ∧ t.connector.dispatch = [] ∧ t.destroys = []

/-- `connect` has been called after `enableRetry`, and neither `stop` nor
`disconnect` since. -/
structure Wanted (t : TcpClient) : Prop where
  retry : t.mRetry = true
  connect : t.mConnect = true
  started : t.connector.started = true
  queue : .removeAndResetChannel ∉ t.connector.queue

/-- And something is going to happen. -/
structure Going (t : TcpClient) : Prop extends Wanted t where
  alive : t.Alive ∨ .startInLoop ∈ t.connector.queue

theorem Going.alive_of_atRest {t : TcpClient} (h : t.Going) (hrest : t.AtRest) : t.Alive := by
  rcases h.alive with halive | hq
  · exact halive
  · rw [hrest.1] at hq
    cases hq

theorem Wanted.foldl_newConnection {t : TcpClient} (h : t.Wanted) (fds : List Int) :
    (fds.foldl newConnection t).Wanted := by
  rw [foldl_newConnection_eq]
  exact ⟨h.retry, h.connect, h.started, h.queue⟩

theorem alive_foldl_newConnection (t : TcpClient) {fds : List Int} (hne : fds ≠ []) :
    (fds.foldl newConnection t).Alive := by
  rw [foldl_newConnection_eq]
  refine .inl ⟨fds.getLast hne, List.mem_append_right _ (List.getLast_mem hne), ?_⟩
  simp only [List.getLast?_eq_some_getLast hne, Option.some_or]

end TcpClient

/-- What may come after `connect`, short of `stop` and `disconnect`: the
steps of the loop, with errors of the temporary class. -/
def ClientAct.Outcome : ClientAct → Prop
  | .enableRetry | .connectDestroyed => True
  | .connect _ e | .closed _ e => e.case ≠ .error
  | .connector (.task e) | .connector (.timer _ e) => e.case ≠ .error
  | .connector (.event _) | .connector (.handler _ _) => True
  | _ => False

instance : (a : ClientAct) → Decidable a.Outcome
  | .enableRetry | .connectDestroyed => inferInstanceAs (Decidable True)
  | .connect _ e | .closed _ e => inferInstanceAs (Decidable (e.case ≠ .error))
  | .connector (.task e) | .connector (.timer _ e) =>
      inferInstanceAs (Decidable (e.case ≠ .error))
  | .connector (.event _) | .connector (.handler _ _) => inferInstanceAs (Decidable True)
  | .connector (.start _ _) | .connector (.stop _) | .connector (.restart _ _)
  | .connector .destroy | .disconnect | .stop _ => inferInstanceAs (Decidable False)

namespace TcpClient

/-- An attempt that the step makes or ends does not fail, or the
connector retries. -/
def Retried (t : TcpClient) : ClientAct → Prop
  | .connect inLoop e =>
      inLoop → t.mConnect = false → e.case = .retry → t.connector.mRetry = true
  | .closed _ e => t.mRetry → t.mConnect → e.case = .retry → t.connector.mRetry = true
  | .connector (.task e) =>
      t.connector.queue.head? = some .startInLoop → e.case = .retry → t.connector.mRetry = true
  | .connector (.timer _ e) => e.case = .retry → t.connector.mRetry = true
  | .connector (.handler err selfConnect) =>
      t.connector.fails err selfConnect → t.connector.mRetry = true
  | _ => True

instance (t : TcpClient) : (a : ClientAct) → Decidable (t.Retried a)
  | .connect inLoop e => inferInstanceAs (Decidable
      (inLoop → t.mConnect = false → e.case = .retry → t.connector.mRetry = true))
  | .closed _ e => inferInstanceAs (Decidable
      (t.mRetry → t.mConnect → e.case = .retry → t.connector.mRetry = true))
  | .connector (.task e) => inferInstanceAs (Decidable
      (t.connector.queue.head? = some .startInLoop → e.case = .retry →
        t.connector.mRetry = true))
  | .connector (.timer _ e) =>
      inferInstanceAs (Decidable (e.case = .retry → t.connector.mRetry = true))
  | .connector (.handler err selfConnect) => inferInstanceAs (Decidable
      (t.connector.fails err selfConnect → t.connector.mRetry = true))
  | .connector (.start _ _) | .connector (.stop _) | .connector (.restart _ _)
  | .connector (.event _) | .connector .destroy | .enableRetry | .disconnect | .stop _
  | .connectDestroyed => inferInstanceAs (Decidable True)

theorem handed_of_log {c c' : Connector} {f : Int}
    (h : c'.trace = c.trace ++ [.newConnection f]) : handed c c' = [f] := by
  rw [handed, h, List.drop_left]
  rfl

/-- A step of the connector that keeps up what it was trying, tries
anew or hands on a connection. -/
theorem Going.of_connector {t : TcpClient} (h : t.Going) {c : Connector}
    (hstarted : c.started = true) (hqueue : .removeAndResetChannel ∉ c.queue)
    (halive : c.Trying ∨ handed t.connector c ≠ [] ∨
      (t.connector.Trying → c.Trying) ∧
        (.startInLoop ∈ t.connector.queue → .startInLoop ∈ c.queue)) :
    ((handed t.connector c).foldl newConnection { t with connector := c }).Going := by
  have hwanted : Wanted { t with connector := c } := ⟨h.retry, h.connect, hstarted, hqueue⟩
  refine ⟨hwanted.foldl_newConnection _, ?_⟩
  by_cases hfds : handed t.connector c = []
  · rw [hfds]
    rcases halive with htry | hne | ⟨htry, hq⟩
    · exact .inl (.inr htry)
    · exact absurd hfds hne
    · rcases h.alive with (hconn | ht) | hs
      · exact .inl (.inl hconn)
      · exact .inl (.inr (htry ht))
      · exact .inr (hq hs)
  · exact .inl (alive_foldl_newConnection _ hfds)

theorem Going.connector_step {t : TcpClient} (h : t.Going) {a : ConnectorAct} {c : Connector}
    (hout : ClientAct.Outcome (.connector a)) (hret : t.Retried (.connector a))
    (hstep : ConnectorStep t.connector a c) :
    ((handed t.connector c).foldl newConnection { t with connector := c }).Going := by
  cases hstep.move with
  | start => exact hout.elim
  | stop => exact hout.elim
  | restart => exact hout.elim
  | destroy => exact hout.elim
  | @task e x rest hq =>
      have hrem : .removeAndResetChannel ∉ rest := fun hm =>
        h.queue (hq ▸ List.mem_cons_of_mem _ hm)
      cases x with
      | startInLoop =>
          have hfr := Connector.frames_startInLoop { t.connector with queue := rest } e
          refine h.of_connector (hfr.started.trans h.started) ?_ (.inl ?_)
          · exact fun hm => hrem ((hfr.queue _ (by decide)).mp hm)
          · refine Connector.trying_startInLoop ?_ hout ?_
            · exact h.started
            · exact hret (by rw [hq]; rfl)
      | removeAndResetChannel => exact absurd (hq ▸ List.mem_cons_self) h.queue
      | keepChannel =>
          refine h.of_connector h.started hrem (.inr (.inr ⟨id, fun hm => ?_⟩))
          rw [hq] at hm
          exact (List.mem_cons.mp hm).resolve_left (by decide)
  | @timer e i hi =>
      have hfr := Connector.frames_startInLoop
        { t.connector with timers := t.connector.timers.eraseIdx i } e
      refine h.of_connector (hfr.started.trans h.started) ?_ (.inl ?_)
      · exact fun hm => h.queue ((hfr.queue _ (by decide)).mp hm)
      · refine Connector.trying_startInLoop ?_ hout hret
        exact h.started
  | event revents => exact h.of_connector h.started h.queue (.inr (.inr ⟨id, id⟩))
  | @handler err selfConnect x rest hd =>
      have hfr := Connector.frames_handle { t.connector with dispatch := rest } err selfConnect x
      refine h.of_connector (hfr.started.trans h.started) ?_ ?_
      · exact fun hm => h.queue ((hfr.queue _ (by decide)).mp hm)
      · rcases Connector.handle_cases h.started hd hret rfl with htry | ⟨f, hf⟩
        · exact .inr (.inr ⟨htry, (hfr.queue _ (by decide)).mpr⟩)
        · exact .inr (.inl (by rw [handed_of_log hf]; simp))

theorem Going.step {t t' : TcpClient} {a : ClientAct} (h : t.Going) (hout : a.Outcome)
    (hret : t.Retried a) (hstep : ClientStep t a t') : t'.Going := by
  cases hstep.move with
  | enableRetry => exact ⟨⟨rfl, h.connect, h.started, h.queue⟩, h.alive⟩
  | connect inLoop e =>
      rw [TcpClient.connect, if_pos h.connect]
      exact h
  | disconnect => exact hout.elim
  | stop => exact hout.elim
  | connector hne hc => exact h.connector_step hout hret hc
  | closed e hmem =>
      obtain ⟨hstarted, htry, hq⟩ :=
        Connector.restart_cases (c := t.connector) hout (hret h.retry h.connect)
      unfold removeConnection
      simp only
      rw [if_pos ⟨h.retry, h.connect⟩]
      exact ⟨⟨h.retry, h.connect, hstarted, fun hm => h.queue (hq hm)⟩, .inl (.inr htry)⟩
  | connectDestroyed rest => exact ⟨⟨h.retry, h.connect, h.started, h.queue⟩, h.alive⟩

theorem going_connect {t : TcpClient} (hr : t.mRetry = true) (hc : t.mConnect = false)
    (hq : .removeAndResetChannel ∉ t.connector.queue) {inLoop : Bool} {e : ConnectErrno}
    (hout : ClientAct.Outcome (.connect inLoop e)) (hret : t.Retried (.connect inLoop e)) :
    (t.connect inLoop e).Going := by
  obtain ⟨hstarted, halive, hqueue⟩ :=
    Connector.start_cases (c := t.connector) hout fun hl => hret hl hc
  have heq : t.connect inLoop e =
      { t with mConnect := true, connector := t.connector.start inLoop e } := by
    rw [connect, if_neg (by simp [hc])]
  rw [heq]
  exact ⟨⟨hr, rfl, hstarted, fun hm => hq (hqueue hm)⟩, halive.imp_left .inr⟩

/-! ## Runs -/

theorem mRetry_step {t t' : TcpClient} {a : ClientAct} (h : t.mRetry = true)
    (hstep : ClientStep t a t') : t'.mRetry = true := by
  cases hstep.move with
  | enableRetry => rfl
  | connect inLoop e =>
      unfold TcpClient.connect
      split <;> exact h
  | disconnect =>
      unfold TcpClient.disconnect
      simp only
      split <;> exact h
  | stop inLoop => exact h
  | connector hne hc =>
      rw [foldl_newConnection_eq]
      exact h
  | closed e hmem =>
      unfold removeConnection
      simp only
      split <;> exact h
  | connectDestroyed rest => exact h

theorem mRetry_of_enableRetry {s t : TcpClient} {as : List ClientAct} (hrun : Run ClientStep s as t)
    (hmem : .enableRetry ∈ as) : t.mRetry = true := by
  induction hrun with
  | nil => cases hmem
  | @snoc t u as a hr hs ih =>
      rcases List.mem_append.mp hmem with hm | hm
      · exact mRetry_step (ih hm) hs
      · obtain rfl := List.mem_singleton.mp hm
        obtain rfl := Option.some.inj hs
        rfl

/-- From `connect` on, a client that retries keeps going as long as its
failed attempts are retried. -/
theorem alive_of_retried (retry errorCallback : Bool) {pre as : List ClientAct} {t u : TcpClient}
    {inLoop : Bool} {e : ConnectErrno}
    (hpre : Run ClientStep { new errorCallback with connector := .new retry errorCallback } pre t)
    (henable : .enableRetry ∈ pre)
    (hfree : t.mConnect = false ∧ .removeAndResetChannel ∉ t.connector.queue)
    (hout : ∀ a ∈ .connect inLoop e :: as, a.Outcome)
    (hret : EveryStep ClientStep Retried t (.connect inLoop e :: as))
    (hrun : Run ClientStep t (.connect inLoop e :: as) u) (hrest : u.AtRest) : u.Alive := by
  obtain ⟨v, ⟨hv, hretv⟩, hafter⟩ := (hret.guarded List.prefix_rfl hrun).cons_inv
  obtain rfl := Option.some.inj hv
  have hgoing : (t.connect inLoop e).Going :=
    going_connect (mRetry_of_enableRetry hpre henable) hfree.1 hfree.2
      (hout _ List.mem_cons_self) hretv
  have hend : u.Going :=
    hafter.invariant_of_labels (P := ClientAct.Outcome)
      (fun s a w ha hs hw => hs.step ha hw.2 hw.1)
      (fun a ha => hout a (List.mem_cons_of_mem _ ha)) hgoing
  exact hend.alive_of_atRest hrest

theorem alive_of_retried_closed :
    ∃ u, Run ClientStep (new true).enableRetry
        [.connect true .inProgress, .connector (.event POLLOUT), .connector (.handler false false),
          .connector (.task .none), .closed 0 .inProgress, .connectDestroyed] u ∧
      u.AtRest ∧ u.Alive := by
  have hpre : Run ClientStep (new true) [.enableRetry] (new true).enableRetry := .of_foldlM rfl
  have hrun : Run ClientStep (new true).enableRetry
      [.connect true .inProgress, .connector (.event POLLOUT), .connector (.handler false false),
        .connector (.task .none), .closed 0 .inProgress, .connectDestroyed] _ := .of_foldlM rfl
  refine ⟨_, hrun, ⟨rfl, rfl, rfl⟩, ?_⟩
  exact alive_of_retried false true hpre (by decide) ⟨rfl, by decide⟩ (by decide)
    (everyStep_of_stepsMeet (by decide)) hrun ⟨rfl, rfl, rfl⟩

/-- A first attempt that fails leaves nothing, whether `connect(2)` or the
socket reports it. Neither does a `connect` that is ignored, since the
last connection has left `m_connect` set, nor one whose channel the
`stop` of another thread takes away after. -/
theorem not_alive_of_failure :
    (∃ u, Run ClientStep (new true) [.enableRetry, .connect true .connRefused] u ∧
      u.AtRest ∧ ¬ u.Alive) ∧
    (∃ u, Run ClientStep (new true)
        [.enableRetry, .connect true .inProgress, .connector (.event POLLOUT),
          .connector (.handler true false), .connector (.task .none)] u ∧
      u.AtRest ∧ ¬ u.Alive) ∧
    (∃ u, Run ClientStep (new true)
        [.connect true .inProgress, .connector (.event POLLOUT), .connector (.handler false false),
          .connector (.task .none), .closed 0 .none, .connectDestroyed, .enableRetry,
          .connect true .inProgress] u ∧
      u.AtRest ∧ ¬ u.Alive) ∧
    ∃ u, Run ClientStep (new true)
        [.enableRetry, .stop false, .connect true .inProgress, .connector (.task .none),
          .connector (.task .none)] u ∧
      u.AtRest ∧ ¬ u.Alive :=
  ⟨⟨_, .of_foldlM rfl, ⟨rfl, rfl, rfl⟩, by decide⟩, ⟨_, .of_foldlM rfl, ⟨rfl, rfl, rfl⟩, by decide⟩,
    ⟨_, .of_foldlM rfl, ⟨rfl, rfl, rfl⟩, by decide⟩, ⟨_, .of_foldlM rfl, ⟨rfl, rfl, rfl⟩, by decide⟩⟩

end TcpClient

end Netpoll
