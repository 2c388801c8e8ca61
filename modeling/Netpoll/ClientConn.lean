import Netpoll.TcpClient

/-!
# The current connection of a client

`m_connection` points to the connection of a client from `newConnection`
until `removeConnection`, which asserts that it still does and clears it.
`newConnection` does not look at the pointer: a second attempt that
succeeds while the first connection is open replaces it, and closing the
first connection then clears the pointer to the second.

A step of the connector hands on at most one socket, and does so exactly
when an attempt succeeds (`hands_step`). The pointer is right as long as
no attempt succeeds while a connection is open.
-/

namespace Netpoll

namespace Connector

/-! ## The sockets that a step hands on -/

/-- From `c` to `c'` the sockets `fds` were given to the callback. -/
def Hands (c : Connector) (fds : List Int) (c' : Connector) : Prop :=
  ∃ evs, c'.trace = c.trace ++ evs ∧ (evs.filterMap fun
    | .newConnection fd => some fd
    | _ => none) = fds

variable {c c' : Connector} {fds : List Int}

theorem Hands.handed (h : c.Hands fds c') : TcpClient.handed c c' = fds := by
  obtain ⟨evs, htrace, rfl⟩ := h
  have hdrop : c'.trace.drop c.trace.length = evs := by rw [htrace, List.drop_left]
  exact congrArg _ hdrop

theorem Hands.of_eq (h : c'.trace = c.trace) : c.Hands [] c' := ⟨[], by rw [h, List.append_nil], rfl⟩

theorem Hands.trans {c'' : Connector} (h : c.Hands [] c') (h' : c'.Hands fds c'') :
    c.Hands fds c'' := by
  obtain ⟨evs, htrace, hnil⟩ := h
  obtain ⟨evs', htrace', hfds⟩ := h'
  refine ⟨evs ++ evs', by rw [htrace', htrace, List.append_assoc], ?_⟩
  rw [List.filterMap_append, hnil, hfds, List.nil_append]

theorem Hands.of_trace {d : Connector} (h : d.Hands fds c') (ht : d.trace = c.trace) :
    c.Hands fds c' := (Hands.of_eq ht).trans h

theorem hands_close (c : Connector) (f : Int) : c.Hands [] (c.close f) := ⟨[_], rfl, rfl⟩

theorem hands_callError (c : Connector) : c.Hands [] c.callError := by
  unfold callError
  split
  · exact ⟨[_], rfl, rfl⟩
  · exact .of_eq rfl

theorem hands_removeAndResetChannel (c : Connector) : c.Hands [] c.removeAndResetChannel.2 := by
  unfold removeAndResetChannel
  split <;> exact .of_eq rfl

theorem hands_retry (c : Connector) (f : Int) : c.Hands [] (c.retry f) := by
  unfold retry
  simp only
  split
  · exact (hands_close c f).trans ⟨[_], rfl, rfl⟩
  · exact (hands_close c f).trans (.of_eq rfl)

theorem hands_connect (c : Connector) (e : ConnectErrno) : c.Hands [] (c.connect e) := by
  unfold connect
  simp only
  have hcreate : c.Hands [] ({ c with
      socketHanded := false, fd := c.nextFd, nextFd := c.nextFd + 1 }.log (.create c.nextFd)) :=
    ⟨[_], rfl, rfl⟩
  split
  · exact hcreate.trans ⟨[_], rfl, rfl⟩
  · split
    · exact hcreate.trans (hands_retry _ _)
    · exact hcreate
  · refine hcreate.trans (Hands.trans ?_ (hands_callError _))
    exact (hands_close _ _).of_trace rfl

theorem hands_startInLoop (c : Connector) (e : ConnectErrno) : c.Hands [] (c.startInLoop e) := by
  unfold startInLoop
  simp only
  have hlog : c.Hands [] (c.log (.startInLoop c.started c.status)) := ⟨[_], rfl, rfl⟩
  split
  · exact hlog.trans (hands_connect _ e)
  · exact hlog

theorem hands_failWrite (c : Connector) (f : Int) : c.Hands [] (c.failWrite f) := by
  unfold failWrite
  split
  · exact (hands_retry c f).trans (hands_callError _)
  · refine Hands.trans ?_ (hands_callError _)
    exact (hands_close _ f).of_trace rfl

theorem hands_handleError (c : Connector) : c.Hands [] c.handleError := by
  unfold handleError
  simp only
  split
  case isFalse => exact .of_eq rfl
  case isTrue =>
    have hrem := (hands_removeAndResetChannel
      { c with socketHanded := true, status := .disconnected }).of_trace (c := c) rfl
    generalize removeAndResetChannel _ = p at hrem ⊢
    obtain ⟨f, b⟩ := p
    simp only
    split
    · exact hrem.trans ((hands_retry b f).trans (hands_callError _))
    · exact hrem.trans ((hands_close b f).trans (hands_callError _))

theorem hands_start (c : Connector) (inLoop : Bool) (e : ConnectErrno) :
    c.Hands [] (c.start inLoop e) := by
  unfold start
  simp only
  split
  · exact (hands_startInLoop _ e).of_trace rfl
  · exact .of_eq rfl

theorem hands_stop (c : Connector) (inLoop : Bool) : c.Hands [] (c.stop inLoop) := by
  unfold stop
  simp only
  split
  · exact (hands_removeAndResetChannel _).of_trace rfl
  · exact .of_eq rfl

theorem hands_runTask (c : Connector) (e : ConnectErrno) (t : ConnectorTask) :
    c.Hands [] (c.runTask e t) := by
  cases t with
  | startInLoop => exact hands_startInLoop c e
  | removeAndResetChannel => exact hands_removeAndResetChannel c
  | keepChannel => exact .of_eq rfl

/-! ## Success -/

/-- `handleWrite` finds the attempt under way and the socket connected. -/
def WriteSucceeds (c : Connector) (err selfConnect : Bool) : Prop :=
  c.status = .connecting ∧ c.started = true ∧ err = false ∧ selfConnect = false

/-- The step in which an attempt succeeds. -/
def Succeeds (c : Connector) : ConnectorAct → Prop
  | .handler err selfConnect =>
      c.dispatch.head? = some .write ∧ c.WriteSucceeds err selfConnect
  | _ => False

theorem hands_handleWrite (c : Connector) (err selfConnect : Bool) :
    (c.WriteSucceeds err selfConnect ∧ ∃ f, c.Hands [f] (c.handleWrite err selfConnect)) ∨
      (¬ c.WriteSucceeds err selfConnect ∧ c.Hands [] (c.handleWrite err selfConnect)) := by
  unfold handleWrite
  simp only
  by_cases hst : c.status = .connecting
  · rw [if_pos hst]
    have hrem := (hands_removeAndResetChannel { c with socketHanded := true }).of_trace (c := c) rfl
    have hstarted : ({ c with socketHanded := true }).removeAndResetChannel.2.started = c.started := by
      unfold removeAndResetChannel
      split <;> rfl
    generalize removeAndResetChannel _ = p at hrem hstarted ⊢
    obtain ⟨f, b⟩ := p
    simp only at hstarted ⊢
    cases err with
    | true => exact .inr ⟨by simp [WriteSucceeds], hrem.trans (hands_failWrite b f)⟩
    | false =>
      cases selfConnect with
      | true => exact .inr ⟨by simp [WriteSucceeds], hrem.trans (hands_failWrite b f)⟩
      | false =>
        simp only [Bool.false_eq_true, if_false]
        cases hb : b.started with
        | true => exact .inl ⟨⟨hst, hstarted ▸ hb, rfl, rfl⟩, f, hrem.trans ⟨[_], rfl, rfl⟩⟩
        | false =>
            rw [hb] at hstarted
            refine .inr ⟨by simp [WriteSucceeds, ← hstarted], ?_⟩
            exact hrem.trans ((hands_close _ f).of_trace rfl)
  · rw [if_neg hst]
    exact .inr ⟨fun h => hst h.1, [_], rfl, rfl⟩

/-- The step lemma: a step hands on one socket when an attempt succeeds and
none otherwise. -/
theorem hands_step {a : ConnectorAct} (hne : a ≠ .destroy) (h : ConnectorStep c a c') :
    (c.Succeeds a ∧ ∃ f, c.Hands [f] c') ∨ (¬ c.Succeeds a ∧ c.Hands [] c') := by
  cases h.move with
  | start inLoop e => exact .inr ⟨id, hands_start c inLoop e⟩
  | stop inLoop => exact .inr ⟨id, hands_stop c inLoop⟩
  | restart inLoop e => exact .inr ⟨id, (hands_stop c inLoop).trans (hands_start _ inLoop e)⟩
  | task e hq => exact .inr ⟨id, (hands_runTask _ e _).of_trace rfl⟩
  | timer e hi => exact .inr ⟨id, (hands_startInLoop _ e).of_trace rfl⟩
  | event revents => exact .inr ⟨id, .of_eq rfl⟩
  | @handler err selfConnect hd rest hdisp =>
      cases hd with
      | write =>
          have hiff : c.Succeeds (.handler err selfConnect) ↔
              { c with dispatch := rest }.WriteSucceeds err selfConnect := by
            rw [Succeeds, hdisp]
            exact and_iff_right rfl
          rw [hiff]
          refine (hands_handleWrite { c with dispatch := rest } err selfConnect).imp ?_ ?_
          · exact fun ⟨hw, f, hf⟩ => ⟨hw, f, hf.of_trace rfl⟩
          · exact fun ⟨hw, hf⟩ => ⟨hw, hf.of_trace rfl⟩
      | close => exact .inr ⟨by simp [Succeeds, hdisp], (hands_handleError _).of_trace rfl⟩
      | error => exact .inr ⟨by simp [Succeeds, hdisp], (hands_handleError _).of_trace rfl⟩
      | read => exact .inr ⟨by simp [Succeeds, hdisp], .of_eq rfl⟩
  | destroy => exact absurd rfl hne

end Connector

/-! ## The pointer -/

namespace TcpClient

/-- `m_connection` is the one connection that is established and not
removed, and was so whenever `removeConnection` ran. -/
structure Current (t : TcpClient) : Prop where
  live : t.conns = t.connection.toList
  removed : ∀ current conn, .removeConnection current conn ∈ t.trace → current = some conn

/-- No attempt succeeds while a connection is open. -/
def OneAtATime (t : TcpClient) : ClientAct → Prop
  | .connector a => t.connector.Succeeds a → t.connection = none
  | _ => True

variable {t t' : TcpClient} {a : ClientAct}

theorem Current.new (errorCallback : Bool) : (new errorCallback).Current :=
  ⟨rfl, fun _ _ h => absurd h List.not_mem_nil⟩

theorem Current.of_eq (h : t.Current) (hc : t'.conns = t.conns) (hp : t'.connection = t.connection)
    (htrace : ∀ current conn, .removeConnection current conn ∈ t'.trace →
      .removeConnection current conn ∈ t.trace) : t'.Current :=
  ⟨by rw [hc, hp]; exact h.live, fun current conn hmem => h.removed _ _ (htrace _ _ hmem)⟩

theorem Current.removeConnection (h : t.Current) {conn : Int} (hmem : conn ∈ t.conns)
    (e : ConnectErrno) : (t.removeConnection conn e).Current := by
  have hconn : t.connection = some conn := by
    rw [h.live, Option.mem_toList] at hmem
    exact hmem
  have hrem : ({ t with
      connection := none, conns := t.conns.erase conn, destroys := t.destroys ++ [conn] }.log
        (.removeConnection t.connection conn)).Current := by
    refine ⟨?_, fun current conn' hmem' => ?_⟩
    · change t.conns.erase conn = []
      rw [h.live, hconn]
      simp
    · rcases List.mem_append.mp hmem' with hmem' | hmem'
      · exact h.removed _ _ hmem'
      · obtain ⟨rfl, rfl⟩ := ClientEvent.removeConnection.inj (List.mem_singleton.mp hmem')
        exact hconn
  unfold TcpClient.removeConnection
  simp only
  split
  · exact hrem.of_eq rfl rfl fun _ _ => id
  · exact hrem

theorem Current.step (h : t.Current) (hg : t.OneAtATime a) (hstep : ClientStep t a t') :
    t'.Current := by
  cases hstep.move with
  | enableRetry => exact h.of_eq rfl rfl fun _ _ => id
  | connect inLoop e =>
      unfold TcpClient.connect
      split
      · exact h
      · exact h.of_eq rfl rfl fun _ _ => id
  | disconnect =>
      unfold disconnect
      simp only
      split
      · refine h.of_eq rfl rfl fun current conn hmem => ?_
        simpa [log] using hmem
      · exact h.of_eq rfl rfl fun _ _ => id
  | stop inLoop => exact h.of_eq rfl rfl fun _ _ => id
  | @connector b c hne hc =>
      rcases Connector.hands_step hne hc with ⟨hsucc, f, hf⟩ | ⟨-, hf⟩
      · rw [hf.handed]
        have hnone := hg hsucc
        refine ⟨?_, fun current conn hmem => h.removed current conn ?_⟩
        · change t.conns ++ [f] = [f]
          rw [h.live, hnone]
          rfl
        · simpa [newConnection, log] using hmem
      · rw [hf.handed]
        exact h.of_eq rfl rfl fun _ _ => id
  | closed e hmem => exact h.removeConnection hmem e
  | connectDestroyed rest => exact h.of_eq rfl rfl fun _ _ => id

/-- A second success leaves two connections and one pointer. -/
theorem Current.breaks (h : t.Current) (hg : ¬ t.OneAtATime a) (hstep : ClientStep t a t') :
    ¬ t'.Current := by
  intro h'
  cases hstep.move with
  | @connector b c hne hc =>
      obtain ⟨hsucc, hsome⟩ := Classical.not_imp.mp hg
      rcases Connector.hands_step hne hc with ⟨-, f, hf⟩ | ⟨hnot, -⟩
      · have hlive := h'.live
        rw [hf.handed] at hlive
        change t.conns ++ [f] = [f] at hlive
        rw [h.live] at hlive
        cases hconn : t.connection with
        | none => exact hsome hconn
        | some x => simp [hconn] at hlive
      · exact hnot hsucc
  | _ => exact hg trivial

/-- In every run the pointer is the current connection exactly when no
attempt succeeds while a connection is open. -/
theorem current_iff_oneAtATime (errorCallback : Bool) (acts : List ClientAct) :
    Throughout ClientStep Current (new errorCallback) acts ↔
      EveryStep ClientStep OneAtATime (new errorCallback) acts :=
  throughout_iff_everyStep (I := Current) (Current.new errorCallback)
    (fun _ _ _ h hg hstep => h.step hg hstep) (fun _ h => h)
    (fun _ _ _ h hg hstep => h.breaks hg hstep)

/-- A client that is connected, is stopped, connects again, and then loses
its first connection. -/
def reconnected : List ClientAct :=
  [.connect true .inProgress, .connector (.event POLLOUT), .connector (.handler false false),
    .stop true, .connect true .inProgress, .connector (.event POLLOUT),
    .connector (.handler false false), .closed 0 .inProgress]

/-- `removeConnection` of socket 0 finds the pointer at socket 1 and clears
it, while socket 1 stays open. -/
theorem not_current_reconnected :
    ((reconnected.foldlM exec (new false)).map fun t => (t.connection, t.conns, t.trace)) =
        some (none, [1], [.newConnection 0, .newConnection 1, .removeConnection (some 1) 0]) ∧
      ¬ Throughout ClientStep Current (new false) reconnected := by
  refine ⟨by decide, fun h => ?_⟩
  have hlast := (h _ _ (List.prefix_refl _) (.of_foldlM rfl)).live
  exact absurd hlast (by decide)

end TcpClient

end Netpoll
