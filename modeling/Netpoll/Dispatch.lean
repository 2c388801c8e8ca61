import Mathlib.Logic.Function.Basic
import Netpoll.Connection
import Netpoll.Runs

/-!
# The channels of a round

`EventLoop::loop` asks the poller which channels are ready, calls the
handler of each of them, and then runs the functors that were queued. The
list of ready channels holds plain pointers. A handler may be the end of any
object of the loop, of one whose channel is still to come in the list as
well, and the library takes care that such an object lives until the list
is done: a connection is held by `handleClose` and then by the functor that
will destroy it, and the channel of a connection attempt by an empty
functor, both of which run after the handlers.

A round is followed here with the objects that own channels: the acceptors
of servers on this loop, connections (of servers on this loop or on others,
and of clients), and connection attempts. User code runs in handlers and
functors and may do there whatever the loop thread may, except for entering
`loop()`; other threads queue functors. Servers and clients outlive their
connections: what their destructors leave behind is not followed.

A pointer that is assigned over releases what it held. So connections and
attempts are safe exactly if no client gets a connection while its last one
is up, and no connector begins an attempt while its last one is under way
(`channels_kept_iff`). The acceptor is destroyed by `TcpServer::stop` at
once: every channel that the loop can still touch is alive exactly if, in
addition, no server is stopped on the loop thread while its acceptor is in
the list (`alive_iff_spares`).
-/

namespace Netpoll

/-! ## The code -/

/-- A channel, by its owner. -/
inductive Chan
  /-- The wake-up and the timer channel live as long as the loop. -/
  | loop
  | acceptor (a : Nat)
  | conn (c : Nat)
  /-- The channel of a connection attempt; each attempt makes one. -/
  | connector (k : Nat)
  deriving DecidableEq

/-- A functor in `m_funcs`, with what it has captured. -/
inductive LoopFunc
  | connectEstablished (c : Nat)
  | connectDestroyed (c : Nat)
  | forceClose (c : Nat)
  /-- The empty functor of `removeAndResetChannel`. -/
  | keep (k : Nat)
  | stopConnector (j : Nat)
  | stopServer (a : Nat)
  | user
  deriving DecidableEq

inductive RoundStage
  /-- Before `loop()` or after it. -/
  | outside
  | polling
  | handling
  | calling
  deriving DecidableEq

/-- A loop with the objects that have channels in it. -/
structure LoopRound where
  stage : RoundStage
  /-- The channel whose handlers run. -/
  current : Option Chan
  /-- What is left of `m_activeChannels`. -/
  activeChannels : List Chan
  /-- The channel has events enabled, and the poller has it. -/
  watched : Chan → Bool
  funcs : List LoopFunc
  /-- The calls of `handleClose` under way, the innermost first. -/
  closing : List Nat
  /-- `m_acceptorPtr` of a server is set. -/
  acceptor : Nat → Bool
  status : Nat → Option ConnStatus
  /-- The server of the connection is on another loop. -/
  remote : Nat → Bool
  /-- The connection is in `m_connSet` of its server. -/
  connSet : Nat → Bool
  /-- The client of the connection, if it is one of a client. -/
  clientOf : Nat → Option Nat
  /-- `m_connection` of a client. -/
  connection : Nat → Option Nat
  /-- The functors of other loops that will call `handleCloseInLoop`. -/
  elsewhere : List Nat
  destroyed : Nat → Bool
  /-- How many attempts have made their channel. -/
  attempts : Nat
  /-- `m_channelPtr` of a connector. -/
  channelPtr : Nat → Option Nat

inductive RoundAct
  | loop
  | poll (ready : List Chan)
  | handleEvent
  | handled
  | callFunc
  | called
  /-- `loop()` returns. -/
  | quit
  /-- A handler or a functor throws, and `loop()` with it. -/
  | throw
  /-- A server is made, on any thread. -/
  | newServer (a : Nat)
  -- on the loop thread
  | listen (a : Nat)
  | newConnection (c : Nat)
  /-- `TcpClient::newConnection`, in the handler of an attempt. -/
  | newClientConnection (j c : Nat)
  | shutdown (c : Nat)
  | handleClose (c : Nat)
  /-- The rest of `handleClose`, after the connection callback. -/
  | closeCallback
  | connecting (j : Nat)
  | removeAndResetChannel (j : Nat)
  | stop (a : Nat)
  -- on any thread
  | queueInLoop (f : LoopFunc)
  -- on the thread of another server
  | newRemoteConnection (c : Nat)
  | handleCloseInLoop (c : Nat)
  deriving DecidableEq

namespace LoopRound

def new : LoopRound where
  stage := .outside
  current := none
  activeChannels := []
  watched ch := ch = .loop
  funcs := []
  closing := []
  acceptor _ := false
  status _ := none
  remote _ := false
  connSet _ := false
  clientOf _ := none
  connection _ := none
  elsewhere := []
  destroyed _ := false
  attempts := 0
  channelPtr _ := none

def setWatched (s : LoopRound) (ch : Chan) (w : Bool) : LoopRound :=
  { s with watched := Function.update s.watched ch w }

def setStatus (s : LoopRound) (c : Nat) (st : ConnStatus) : LoopRound :=
  { s with status := Function.update s.status c (some st) }

def queue (s : LoopRound) (f : LoopFunc) : LoopRound := { s with funcs := s.funcs ++ [f] }

/-- The first half of `TcpConnectionImpl::handleClose`, which holds the
connection until it returns. -/
def closeInLoop (s : LoopRound) (c : Nat) : LoopRound :=
  { (s.setStatus c .disconnected).setWatched (.conn c) false with closing := c :: s.closing }

/-- `TcpServer::handleCloseInLoop`. -/
def eraseConn (s : LoopRound) (c : Nat) : LoopRound :=
  { s with connSet := Function.update s.connSet c false }.queue (.connectDestroyed c)

/-- `TcpClient::removeConnection`. It asserts that `m_connection` is the
connection, and resets it whatever it is. -/
def removeConnection (s : LoopRound) (j c : Nat) : LoopRound :=
  { s with connection := Function.update s.connection j none }.queue (.connectDestroyed c)

/-- `m_closeCallback`: `TcpServer::connectionClosed`, or that of a client. -/
def connectionClosed (s : LoopRound) (c : Nat) : LoopRound :=
  match s.clientOf c with
  | some j => s.removeConnection j c
  | none => if s.remote c then { s with elsewhere := s.elsewhere ++ [c] } else s.eraseConn c

def Up (st : Option ConnStatus) : Prop := st = some .connected ∨ st = some .disconnecting

instance (st : Option ConnStatus) : Decidable (Up st) := by unfold Up; infer_instance

/-- `Connector::removeAndResetChannel`. -/
def resetChannel (s : LoopRound) (j : Nat) : LoopRound :=
  match s.channelPtr j with
  | some k =>
    { (s.setWatched (.connector k) false).queue (.keep k) with
      channelPtr := Function.update s.channelPtr j none }
  | none => s

/-- `m_acceptorPtr.reset()`. -/
def resetAcceptor (s : LoopRound) (a : Nat) : LoopRound :=
  { s.setWatched (.acceptor a) false with acceptor := Function.update s.acceptor a false }

def runFunc (s : LoopRound) : LoopFunc → LoopRound
  | .connectEstablished c =>
    -- the status is asserted
    if s.status c = some .connecting then (s.setWatched (.conn c) true).setStatus c .connected
    else s
  | .connectDestroyed c =>
    let s := if s.status c = some .connected then s.setStatus c .disconnected else s
    { s.setWatched (.conn c) false with destroyed := Function.update s.destroyed c true }
  | .forceClose c => if Up (s.status c) then s.closeInLoop c else s
  | .keep _ => s
  | .stopConnector j => s.resetChannel j
  | .stopServer a => s.resetAcceptor a
  | .user => s

/-- The loop thread runs user code or code of the library. -/
def Runs (s : LoopRound) : Prop := s.stage ≠ .polling

instance (s : LoopRound) : Decidable s.Runs := by unfold Runs; infer_instance

/-- The loop itself goes on from a stage: no call of `handleClose` is under way. -/
def Stands (s : LoopRound) (stage : RoundStage) : Prop := s.stage = stage ∧ s.closing = []

instance (s : LoopRound) (stage : RoundStage) : Decidable (s.Stands stage) := by
  unfold Stands; infer_instance

/-- The handler of a connection attempt runs. -/
def Attempting (s : LoopRound) : Bool :=
  match s.current with
  | some (.connector _) => true
  | _ => false

def exec (s : LoopRound) : RoundAct → Option LoopRound
  | .loop => if s.Stands .outside then some { s with stage := .polling } else none
  | .poll ready =>
    if s.stage = .polling ∧ ∀ ch ∈ ready, s.watched ch = true then
      some { s with stage := .handling, activeChannels := ready }
    else none
  | .handleEvent =>
    match s.activeChannels with
    | ch :: rest =>
      -- a channel without events returns at once
      if s.Stands .handling then
        some { s with current := if s.watched ch then some ch else none, activeChannels := rest }
      else none
    | [] => none
  | .handled =>
    if s.Stands .handling ∧ s.activeChannels = [] then
      some { s with stage := .calling, current := none }
    else none
  | .callFunc =>
    match s.funcs with
    | f :: rest => if s.Stands .calling then some ({ s with funcs := rest }.runFunc f) else none
    | [] => none
  | .called =>
    if s.Stands .calling ∧ s.funcs = [] then some { s with stage := .polling } else none
  | .quit => if s.Stands .calling ∧ s.funcs = [] then some { s with stage := .outside } else none
  | .throw =>
    if s.Runs then
      some { s with stage := .outside, current := none, activeChannels := [], closing := [] }
    else none
  | .newServer a =>
    if s.acceptor a then none
    else some { s with acceptor := Function.update s.acceptor a true }
  | .listen a => if s.Runs ∧ s.acceptor a then some (s.setWatched (.acceptor a) true) else none
  | .newConnection c =>
    if s.Runs ∧ s.status c = none then
      some { (s.setWatched (.conn c) true).setStatus c .connected with
        connSet := Function.update s.connSet c true }
    else none
  | .newClientConnection j c =>
    if s.Attempting ∧ s.closing = [] ∧ s.status c = none then
      some { (s.setWatched (.conn c) true).setStatus c .connected with
        clientOf := Function.update s.clientOf c (some j)
        connection := Function.update s.connection j (some c) }
    else none
  | .shutdown c =>
    if s.Runs ∧ s.status c = some .connected then some (s.setStatus c .disconnecting) else none
  | .handleClose c =>
    -- from `forceClose`, or from the connection's own handler, which may have closed it already
    if s.Runs ∧ (Up (s.status c) ∨ s.current = some (.conn c)) then some (s.closeInLoop c)
    else none
  | .closeCallback =>
    match s.closing with
    | c :: rest => some ({ s with closing := rest }.connectionClosed c)
    | [] => none
  | .connecting j =>
    -- it asserts that the pointer is not set, and assigns it all the same
    if s.Runs then
      some { s.setWatched (.connector s.attempts) true with
        channelPtr := Function.update s.channelPtr j (some s.attempts)
        attempts := s.attempts + 1 }
    else none
  | .removeAndResetChannel j => if s.Runs then some (s.resetChannel j) else none
  | .stop a => if s.Runs then some (s.resetAcceptor a) else none
  | .queueInLoop f =>
    match f with
    | .connectEstablished _ | .connectDestroyed _ | .keep _ => none
    | _ => some (s.queue f)
  | .newRemoteConnection c =>
    if s.status c = none then
      some { (s.setStatus c .connecting).queue (.connectEstablished c) with
        connSet := Function.update s.connSet c true
        remote := Function.update s.remote c true }
    else none
  | .handleCloseInLoop c =>
    if c ∈ s.elsewhere then some { s.eraseConn c with elsewhere := s.elsewhere.erase c } else none

end LoopRound

def RoundStep (s : LoopRound) (a : RoundAct) (t : LoopRound) : Prop := s.exec a = some t

namespace LoopRound

/-! ## Who can be touched, and who is alive -/

/-- The channel is handled, or will be in this round. -/
def InBatch (s : LoopRound) (ch : Chan) : Prop := ch ∈ s.activeChannels ∨ s.current = some ch

/-- The loop has a pointer to the channel, or the poller will give it one. -/
def Reaches (s : LoopRound) (ch : Chan) : Prop := s.InBatch ch ∨ s.watched ch = true

/-- The connection is in `m_connSet`, or it is `m_connection` of its client. -/
def Owned (s : LoopRound) (c : Nat) : Prop :=
  match s.clientOf c with
  | some j => s.connection j = some c
  | none => s.connSet c = true

/-- The library holds the object of the channel. -/
def Alive (s : LoopRound) : Chan → Prop
  | .loop => True
  | .acceptor a => s.acceptor a = true
  | .conn c =>
    s.Owned c ∨ c ∈ s.closing ∨ c ∈ s.elsewhere ∨ .connectDestroyed c ∈ s.funcs
  | .connector k => (∃ j, s.channelPtr j = some k) ∨ .keep k ∈ s.funcs

theorem Up.ne {st : Option ConnStatus} (h : Up st) : st ≠ none ∧ st ≠ some .disconnected := by
  rcases h with rfl | rfl <;> simp

/-! ## One connection -/

/-- What the loop has to do with a connection. -/
structure ConnView where
  status : Option ConnStatus
  owned : Prop
  ofClient : Prop
  /-- `m_connection` of its client is another connection. -/
  rival : Prop
  closing : Prop
  elsewhere : Prop
  /-- `connectDestroyed` is queued. -/
  queued : Prop
  destroyed : Prop
  watched : Prop
  batch : Prop
  running : Prop

def Rival (s : LoopRound) (c : Nat) : Prop :=
  match s.clientOf c with
  | some j => ∃ d ≠ c, s.connection j = some d
  | none => False

def view (s : LoopRound) (c : Nat) : ConnView where
  status := s.status c
  owned := s.Owned c
  ofClient := s.clientOf c ≠ none
  rival := s.Rival c
  closing := c ∈ s.closing
  elsewhere := c ∈ s.elsewhere
  queued := .connectDestroyed c ∈ s.funcs
  destroyed := s.destroyed c = true
  watched := s.watched (.conn c) = true
  batch := s.InBatch (.conn c)
  running := s.current = some (.conn c)

namespace ConnView

/-- A connection that is closed is held by a call or a functor. -/
def held (v : ConnView) : Prop := v.closing ∨ v.elsewhere ∨ v.queued

/-- How far a connection has come, and who holds it. -/
structure Good (v : ConnView) : Prop where
  owned : v.status = some .connecting ∨ Up v.status → v.owned
  closed : v.held ∨ v.destroyed → v.status = some .disconnected
  watched : v.watched ↔ Up v.status
  batch : v.batch → ¬ v.destroyed ∧ (Up v.status ∨ v.status = some .disconnected ∧ v.held)
  client : v.ofClient → Up v.status ∨ v.status = some .disconnected
  rival : v.rival → v.ofClient ∧ ¬ v.owned ∧ ¬ v.closing ∧ ¬ v.running

variable {v : ConnView}

theorem Good.unheld (h : v.Good) (hne : v.status ≠ some .disconnected) :
    ¬ (v.held ∨ v.destroyed) := fun hh => hne (h.closed hh)

/-- Nobody has taken the place of a connection that is up or being handled. -/
theorem Good.not_rival (h : v.Good) (hst : Up v.status ∨ v.running) : ¬ v.rival := by
  intro hr
  obtain ⟨-, hown, -, hrun⟩ := h.rival hr
  rcases hst with hup | hrun'
  · exact hown (h.owned (Or.inr hup))
  · exact hrun hrun'

theorem Good.alive (h : v.Good) (hr : v.batch ∨ v.watched) : v.owned ∨ v.held := by
  rcases hr with hb | hw
  · rcases (h.batch hb).2 with hup | ⟨-, hheld⟩
    · exact Or.inl (h.owned (Or.inr hup))
    · exact Or.inr hheld
  · exact Or.inl (h.owned (Or.inr (h.watched.mp hw)))

theorem Good.close (h : v.Good) (hst : Up v.status ∨ v.running) :
    { v with status := some .disconnected, watched := False, closing := True }.Good := by
  refine ⟨by simp [Up], fun _ => rfl, by simp [Up], fun hb => ?_, fun _ => Or.inr rfl,
    fun hr => absurd hr (h.not_rival hst)⟩
  exact ⟨(h.batch hb).1, Or.inr ⟨rfl, Or.inl trivial⟩⟩

theorem Good.hold (h : v.Good) (hst : v.status = some .disconnected) {o r l e q : Prop}
    (hr : r → v.ofClient ∧ ¬ o ∧ ¬ l ∧ ¬ v.running) (hheld : e ∨ q) :
    { v with owned := o, rival := r, closing := l, elsewhere := e, queued := q }.Good := by
  refine ⟨by simp [hst, Up], fun _ => hst, h.watched, fun hb => ?_, h.client, hr⟩
  exact ⟨(h.batch hb).1, Or.inr ⟨hst, Or.inr hheld⟩⟩

theorem Good.setUp (h : v.Good) (hne : v.status ≠ some .disconnected) (st : ConnStatus)
    (hup : Up (some st)) {o m r w : Prop} (ho : o) (hr : ¬ r) (hw : w) :
    { v with status := some st, owned := o, ofClient := m, rival := r, watched := w }.Good := by
  have hun := h.unheld hne
  refine ⟨fun _ => ho, fun hc => absurd hc hun, iff_of_true hw hup, fun _ => ?_,
    fun _ => Or.inl hup, fun hr' => absurd hr' hr⟩
  exact ⟨fun hd => hun (Or.inr hd), Or.inl hup⟩

theorem Good.connecting (h : v.Good) (hnone : v.status = none) {o : Prop} (ho : o) :
    { v with status := some .connecting, owned := o }.Good := by
  have hup : ¬ Up v.status := by simp [hnone, Up]
  have hdown : ¬ (Up v.status ∨ v.status = some .disconnected) := by simp [hnone, Up]
  refine ⟨fun _ => ho, fun hc => absurd hc (h.unheld (by simp [hnone])), ?_, fun hb => ?_,
    fun hc => absurd (h.client hc) hdown, fun hr => absurd (h.client (h.rival hr).1) hdown⟩
  · exact iff_of_false (fun hw => hup (h.watched.mp hw)) (by simp [Up])
  · exact absurd ((h.batch hb).2.imp_right And.left) hdown

/-- The functor is taken out when nothing is in the list. -/
theorem Good.dequeue (h : v.Good) (hb : ¬ v.batch) {q : Prop} (hq : q → v.queued) :
    { v with queued := q }.Good :=
  ⟨h.owned, fun hc => h.closed (hc.imp_left (Or.imp_right (Or.imp_right hq))), h.watched,
    fun hb' => absurd hb' hb, h.client, h.rival⟩

theorem Good.destroy (h : v.Good) (hst : v.status = some .disconnected) (hb : ¬ v.batch) :
    { v with destroyed := True, watched := False }.Good :=
  ⟨by simp [hst, Up], fun _ => hst, by simp [hst, Up], fun hb' => absurd hb' hb, h.client, h.rival⟩

/-- The client of the connection has got another one, or has none any more. -/
theorem Good.release (h : v.Good) (hup : ¬ Up v.status) (hclient : v.ofClient) {r : Prop}
    (hr : r → ¬ v.closing ∧ ¬ v.running) : { v with owned := False, rival := r }.Good := by
  refine ⟨fun hst => ?_, h.closed, h.watched, h.batch, h.client,
    fun hr' => ⟨hclient, id, hr hr'⟩⟩
  have hdown := (h.client hclient).resolve_left hup
  rcases hst with hst | hst
  · cases hst.symm.trans hdown
  · exact hup hst

theorem Good.goOn (h : v.Good) {b r : Prop} (hb : b → v.batch ∨ v.watched)
    (hrun : r → v.running ∨ v.watched) : { v with batch := b, running := r }.Good := by
  refine ⟨h.owned, h.closed, h.watched, fun hbat => ?_, h.client, fun hr => ?_⟩
  · rcases hb hbat with hbat | hw
    · exact h.batch hbat
    · -- the poller had the channel, so the connection is up
      have hup := h.watched.mp hw
      exact ⟨fun hd => h.unheld hup.ne.2 (Or.inr hd), Or.inl hup⟩
  · obtain ⟨hc, hown, hcl, hno⟩ := h.rival hr
    refine ⟨hc, hown, hcl, fun hrun' => ?_⟩
    rcases hrun hrun' with hrun' | hw
    · exact hno hrun'
    · exact h.not_rival (Or.inl (h.watched.mp hw)) hr

theorem Good.uncall (h : v.Good) (hb : ¬ v.batch) : { v with closing := False }.Good := by
  refine ⟨h.owned, fun hc => h.closed ?_, h.watched, fun hb' => absurd hb' hb, h.client,
    fun hr => ?_⟩
  · exact hc.imp_left fun hh => Or.inr (hh.resolve_left id)
  · obtain ⟨hc, hown, -, hrun⟩ := h.rival hr
    exact ⟨hc, hown, id, hrun⟩

end ConnView

/-! ## The loop -/

attribute [local simp] view Owned Rival InBatch setStatus setWatched queue eraseConn
  removeConnection closeInLoop

/-- The channel of an attempt: who has made it, and who holds it. -/
structure ConnectorKept (s : LoopRound) (k : Nat) : Prop where
  watched : s.watched (.connector k) = true ↔ ∃ j, s.channelPtr j = some k
  unique : ∀ i j, s.channelPtr i = some k → s.channelPtr j = some k → i = j
  keep : .keep k ∈ s.funcs → s.watched (.connector k) = false
  lt : s.Alive (.connector k) → k < s.attempts
  batch : s.InBatch (.connector k) → s.Alive (.connector k)

structure Kept (s : LoopRound) : Prop where
  quiet : s.stage ≠ .handling → ∀ ch, ¬ s.InBatch ch
  conn : ∀ c, (s.view c).Good
  holder : ∀ j c, s.connection j = some c → s.clientOf c = some j
  connector : ∀ k, s.ConnectorKept k
  acceptor : ∀ a, s.watched (.acceptor a) = true → s.acceptor a = true

theorem Kept.new : Kept .new := by
  refine ⟨fun _ ch => by simp [LoopRound.new], fun c => ?_, ?_, fun k => ?_, ?_⟩
  · constructor <;> simp [LoopRound.new, Up, ConnView.held]
  · simp [LoopRound.new]
  · constructor <;> simp [LoopRound.new, Alive]
  · simp [LoopRound.new]

variable {s t : LoopRound} {a : RoundAct} {ch : Chan} {c d j k : Nat}

theorem Kept.connector_alive (h : s.Kept) (hr : s.Reaches (.connector k)) :
    s.Alive (.connector k) :=
  hr.elim (h.connector k).batch fun hw => Or.inl ((h.connector k).watched.mp hw)

/-! ### Steps of the loop -/

theorem Kept.goOn (h : s.Kept) (stage : RoundStage) (current : Option Chan) (active : List Chan)
    (hb : ∀ ch, ch ∈ active ∨ current = some ch → s.Reaches ch)
    (hcur : ∀ ch, current = some ch → s.current = some ch ∨ s.watched ch = true)
    (hquiet : stage ≠ .handling → active = [] ∧ current = none) :
    { s with stage, current, activeChannels := active }.Kept := by
  refine ⟨fun hne ch => ?_, fun c => ?_, h.holder, fun k => ?_, h.acceptor⟩
  · obtain ⟨rfl, rfl⟩ := hquiet hne
    simp
  · exact (h.conn c).goOn (hb _) (hcur _)
  · have hk := h.connector k
    exact ⟨hk.watched, hk.unique, hk.keep, hk.lt, fun hbat => h.connector_alive (hb _ hbat)⟩

theorem Kept.goOn_quiet (h : s.Kept) (hst : s.stage ≠ .handling) (stage : RoundStage) :
    { s with stage }.Kept := by
  have hquiet := h.quiet hst
  refine h.goOn stage s.current s.activeChannels (fun ch hch => Or.inl hch) (fun _ => Or.inl)
    fun _ => ⟨?_, ?_⟩
  · exact List.eq_nil_iff_forall_not_mem.mpr fun ch hch => hquiet ch (Or.inl hch)
  · exact Option.eq_none_iff_forall_ne_some.mpr fun ch hch => hquiet ch (Or.inr hch)

theorem Kept.throw (h : s.Kept) :
    { s with stage := .outside, current := none, activeChannels := [], closing := [] }.Kept := by
  have hout := h.goOn .outside none [] (by simp) (by simp) fun _ => ⟨rfl, rfl⟩
  refine ⟨hout.quiet, fun c => ?_, h.holder, fun k => ?_, h.acceptor⟩
  · have hcall := (hout.conn c).uncall (hout.quiet (by simp) _)
    simpa using hcall
  · have hk := hout.connector k
    exact ⟨hk.watched, hk.unique, hk.keep, hk.lt, hk.batch⟩

/-! ### Connections -/

/-- `t` differs from `s` in what has to do with connections only. -/
structure SameLoop (s t : LoopRound) : Prop where
  stage : t.stage = s.stage
  current : t.current = s.current
  active : t.activeChannels = s.activeChannels
  watched : ∀ ch, (∀ d, ch ≠ .conn d) → t.watched ch = s.watched ch
  ptr : t.channelPtr = s.channelPtr
  attempts : t.attempts = s.attempts
  acceptor : t.acceptor = s.acceptor
  keep : ∀ k, .keep k ∈ t.funcs ↔ .keep k ∈ s.funcs

theorem Kept.of_conn (h : s.Kept) (ht : s.SameLoop t)
    (hholder : ∀ j c, t.connection j = some c → t.clientOf c = some j)
    (hconn : ∀ d, (t.view d).Good) : t.Kept := by
  obtain ⟨hst, hcur, hact, hw, hptr, hatt, hacc, hkeep⟩ := ht
  have hb : ∀ ch, t.InBatch ch ↔ s.InBatch ch := fun ch => by rw [InBatch, InBatch, hcur, hact]
  have halive : ∀ k, t.Alive (.connector k) ↔ s.Alive (.connector k) := fun k => by
    rw [Alive, Alive, hptr, hkeep]
  refine ⟨?_, hconn, hholder, fun k => ?_, ?_⟩
  · intro hne ch
    rw [hb]
    exact h.quiet (hst ▸ hne) ch
  · have hk := h.connector k
    refine ⟨?_, ?_, ?_, ?_, ?_⟩
    · rw [hw _ (by simp), hptr]
      exact hk.watched
    · rw [hptr]
      exact hk.unique
    · rw [hw _ (by simp), hkeep]
      exact hk.keep
    · rw [halive, hatt]
      exact hk.lt
    · rw [halive, hb]
      exact hk.batch
  · intro b
    rw [hw _ (by simp), hacc]
    exact h.acceptor b

theorem Kept.closeInLoop (h : s.Kept) (hst : Up (s.status c) ∨ s.current = some (.conn c)) :
    (s.closeInLoop c).Kept := by
  refine h.of_conn (by constructor <;> simp +contextual) h.holder fun d => ?_
  by_cases hdc : d = c
  · subst hdc
    have hclose := (h.conn d).close hst
    simpa using hclose
  · simpa [hdc] using h.conn d

/-- A step that closes nothing and gives no client a connection. -/
theorem Kept.of_view (h : s.Kept) (ht : s.SameLoop t) (hcon : t.connection = s.connection)
    (hcl : t.clientOf = s.clientOf) (hself : (t.view c).Good)
    (hothers : ∀ d, d ≠ c → t.view d = s.view d) : t.Kept := by
  refine h.of_conn ht ?_ fun d => ?_
  · rw [hcon, hcl]
    exact h.holder
  · by_cases hdc : d = c
    · exact hdc ▸ hself
    · rw [hothers d hdc]
      exact h.conn d

theorem Kept.removeConnection (h : s.Kept) {rest : List Nat} (hcl : s.closing = c :: rest)
    (hst : s.status c = some .disconnected) (hcj : s.clientOf c = some j) :
    ({ s with closing := rest }.removeConnection j c).Kept := by
  -- the client's pointer is to nobody but `c`
  have hothers : ∀ d, d ≠ c → s.connection j ≠ some d := by
    intro d hdc heq
    have hrival : s.Rival c := by
      rw [Rival, hcj]
      exact ⟨d, hdc, heq⟩
    exact ((h.conn c).rival hrival).2.2.1 (by simp [hcl])
  refine h.of_conn (by constructor <;> simp) (fun i d hi => ?_) fun d => ?_
  · have hij : i ≠ j := by
      rintro rfl
      simp at hi
    refine h.holder i d ?_
    simpa [hij] using hi
  by_cases hdc : d = c
  · subst hdc
    have hhold := (h.conn d).hold hst (o := False) (r := False) (l := d ∈ rest)
      (e := d ∈ s.elsewhere) (q := True) False.elim (Or.inr trivial)
    simpa [hcj] using hhold
  by_cases hdj : s.clientOf d = some j
  · have hup : ¬ Up (s.status d) := by
      intro hup
      have hown : s.Owned d := (h.conn d).owned (Or.inr hup)
      rw [Owned, hdj] at hown
      exact hothers d hdc hown
    have hrel := (h.conn d).release hup (by simp [hdj]) (r := False) False.elim
    simpa [hdj, hdc, hcl] using hrel
  · have hsame : ∀ i, s.clientOf d = some i → i ≠ j := by
      rintro i hi rfl
      exact hdj hi
    cases hcd : s.clientOf d with
    | none => simpa [hcd, hdc, hcl] using h.conn d
    | some i => simpa [hcd, hdc, hcl, hsame i hcd] using h.conn d

theorem Kept.closeCallback (h : s.Kept) {rest : List Nat} (hcl : s.closing = c :: rest) :
    ({ s with closing := rest }.connectionClosed c).Kept := by
  have hst : s.status c = some .disconnected :=
    (h.conn c).closed (Or.inl (Or.inl (by simp [hcl])))
  unfold LoopRound.connectionClosed
  split
  next j hcj => exact h.removeConnection hcl hst hcj
  next hcj =>
      replace hcj : s.clientOf c = none := hcj
      split
      · refine h.of_view (c := c) (by constructor <;> simp) rfl rfl ?_ fun d hdc => ?_
        · have hhold := (h.conn c).hold hst (o := s.Owned c) (r := False) (l := c ∈ rest)
            (e := True) (q := .connectDestroyed c ∈ s.funcs) False.elim (Or.inl trivial)
          simpa [hcj] using hhold
        · simp [hdc, hcl]
      · refine h.of_view (c := c) (by constructor <;> simp) rfl rfl ?_ fun d hdc => ?_
        · have hhold := (h.conn c).hold hst (o := False) (r := False) (l := c ∈ rest)
            (e := c ∈ s.elsewhere) (q := True) False.elim (Or.inr trivial)
          simpa [hcj] using hhold
        · simp [hdc, hcl]

theorem Kept.handleCloseInLoop (h : s.Kept) (hmem : c ∈ s.elsewhere) :
    { s.eraseConn c with elsewhere := s.elsewhere.erase c }.Kept := by
  have hst : s.status c = some .disconnected := (h.conn c).closed (Or.inl (Or.inr (Or.inl hmem)))
  refine h.of_view (c := c) (by constructor <;> simp) rfl rfl ?_ fun d hdc => ?_
  · cases hcj : s.clientOf c with
    | none =>
        have hhold := (h.conn c).hold hst (o := False) (r := False) (l := c ∈ s.closing)
          (e := c ∈ s.elsewhere.erase c) (q := True) False.elim (Or.inr trivial)
        simpa [hcj] using hhold
    | some j =>
        have hhold := (h.conn c).hold hst (h.conn c).rival (e := c ∈ s.elsewhere.erase c)
          (q := True) (Or.inr trivial)
        simpa [hcj] using hhold
  · simp [hdc, List.mem_erase_of_ne hdc]

theorem Kept.clientOf_eq_none (h : s.Kept) (hnone : s.status c = none) : s.clientOf c = none := by
  by_contra hcl
  have hst := (h.conn c).client hcl
  simp [hnone, Up] at hst

theorem Kept.newConnection (h : s.Kept) (hnone : s.status c = none) :
    { (s.setWatched (.conn c) true).setStatus c .connected with
      connSet := Function.update s.connSet c true }.Kept := by
  have hcl := h.clientOf_eq_none hnone
  refine h.of_view (c := c) (by constructor <;> simp +contextual) rfl rfl ?_ fun d hdc => ?_
  · have hup := (h.conn c).setUp (by simp [hnone]) .connected (Or.inl rfl) trivial
      (m := s.clientOf c ≠ none) (r := False) id trivial
    simpa [hcl] using hup
  · simp [hdc]

theorem Kept.newRemoteConnection (h : s.Kept) (hnone : s.status c = none) :
    { (s.setStatus c .connecting).queue (.connectEstablished c) with
      connSet := Function.update s.connSet c true
      remote := Function.update s.remote c true }.Kept := by
  have hcl := h.clientOf_eq_none hnone
  refine h.of_view (c := c) (by constructor <;> simp) rfl rfl ?_ fun d hdc => ?_
  · have hcon := (h.conn c).connecting hnone trivial
    simpa [hcl] using hcon
  · simp [hdc]

theorem Kept.setStatus (h : s.Kept) (st : ConnStatus)
    (hst : s.status c = some .connecting ∨ Up (s.status c)) (hup : Up (some st)) :
    ((s.setWatched (.conn c) true).setStatus c st).Kept := by
  have hne : (s.view c).status ≠ some .disconnected := by
    rcases hst with hst | hst
    · simp [hst]
    · exact hst.ne.2
  have hown : s.Owned c := (h.conn c).owned hst
  have hriv : ¬ s.Rival c := fun hr => ((h.conn c).rival hr).2.1 hown
  refine h.of_view (c := c) (by constructor <;> simp +contextual) rfl rfl ?_ fun d hdc => ?_
  · have hgood := (h.conn c).setUp hne st hup hown (m := s.clientOf c ≠ none) hriv trivial
    simpa using hgood
  · simp [hdc]

theorem Kept.newClientConnection (h : s.Kept) (hatt : s.Attempting = true) (hcl : s.closing = [])
    (hnone : s.status c = none) (hlast : ∀ d, s.connection j = some d → ¬ Up (s.status d)) :
    { (s.setWatched (.conn c) true).setStatus c .connected with
      clientOf := Function.update s.clientOf c (some j)
      connection := Function.update s.connection j (some c) }.Kept := by
  have hfree := h.clientOf_eq_none hnone
  refine h.of_conn (by constructor <;> simp +contextual) (fun i d hi => ?_) fun d => ?_
  · by_cases hij : i = j
    · subst hij
      obtain rfl : c = d := by simpa using hi
      simp
    · have hid := h.holder i d (by simpa [hij] using hi)
      have hdc : d ≠ c := by
        rintro rfl
        cases hfree.symm.trans hid
      simpa [hdc] using hid
  by_cases hdc : d = c
  · subst hdc
    have hup := (h.conn d).setUp (by simp [hnone]) .connected (Or.inl rfl) trivial
      (m := True) (r := False) id trivial
    simpa using hup
  by_cases hdj : s.clientOf d = some j
  · have hup : ¬ Up (s.status d) := by
      intro hup
      have hown : s.Owned d := (h.conn d).owned (Or.inr hup)
      rw [Owned, hdj] at hown
      exact hlast d hown hup
    have hrun : s.current ≠ some (.conn d) := by
      intro hrun
      simp [Attempting, hrun] at hatt
    have hrel := (h.conn d).release hup (by simp [hdj]) (r := True)
      fun _ => ⟨by simp [hcl], hrun⟩
    simpa [hdj, hdc, Ne.symm hdc] using hrel
  · have hsame : ∀ i, s.clientOf d = some i → i ≠ j := by
      rintro i hi rfl
      exact hdj hi
    cases hcd : s.clientOf d with
    | none => simpa [hcd, hdc] using h.conn d
    | some i => simpa [hcd, hdc, hsame i hcd] using h.conn d

theorem Kept.shutdown (h : s.Kept) (hcon : s.status c = some .connected) :
    (s.setStatus c .disconnecting).Kept := by
  have hup : Up (s.status c) := Or.inl hcon
  have hw : s.setWatched (.conn c) true = s := by
    have hwat : s.watched (.conn c) = true := (h.conn c).watched.mpr hup
    rw [setWatched, ← hwat, Function.update_eq_self]
  have hset := h.setStatus .disconnecting (c := c) (Or.inr hup) (Or.inr rfl)
  rwa [hw] at hset

/-! ### Functors, attempts and acceptors -/

theorem Kept.queue (h : s.Kept) {f : LoopFunc} (hconn : ∀ c, f ≠ .connectDestroyed c)
    (hkeep : ∀ k, f ≠ .keep k) : (s.queue f).Kept := by
  refine h.of_conn ⟨rfl, rfl, rfl, fun _ _ => rfl, rfl, rfl, rfl, fun k => ?_⟩ h.holder fun d => ?_
  · simp [(hkeep k).symm]
  · simpa [(hconn d).symm] using h.conn d

theorem Kept.connecting (h : s.Kept) (hnone : s.channelPtr j = none) :
    { s.setWatched (.connector s.attempts) true with
      channelPtr := Function.update s.channelPtr j (some s.attempts)
      attempts := s.attempts + 1 }.Kept := by
  -- the number of the attempt is a new one
  have hnew : ¬ s.Alive (.connector s.attempts) := fun ha =>
    Nat.lt_irrefl _ ((h.connector _).lt ha)
  refine ⟨h.quiet, fun d => ?_, h.holder, fun k => ?_, fun b hb => ?_⟩
  · simpa using h.conn d
  · have hk := h.connector k
    by_cases hka : k = s.attempts
    · subst hka
      have hno : ∀ i, s.channelPtr i ≠ some s.attempts := fun i hi => hnew (Or.inl ⟨i, hi⟩)
      have hself : ∀ i, Function.update s.channelPtr j (some s.attempts) i = some s.attempts ↔
          i = j := by
        intro i
        by_cases hij : i = j
        · simp [hij]
        · simp [hij, hno i]
      refine ⟨by simp [hself], fun i i' hi hi' => ?_, fun hmem => ?_, fun _ => ?_,
        fun _ => Or.inl ⟨j, by simp⟩⟩
      · exact ((hself i).mp hi).trans ((hself i').mp hi').symm
      · exact absurd (Or.inr hmem) hnew
      · exact Nat.lt_succ_self _
    · have hother : ∀ i, Function.update s.channelPtr j (some s.attempts) i = some k ↔
          s.channelPtr i = some k := by
        intro i
        by_cases hij : i = j
        · simp [hij, hnone, Ne.symm hka]
        · simp [hij]
      have hw : (s.setWatched (.connector s.attempts) true).watched (.connector k) =
          s.watched (.connector k) := by
        simp [hka]
      refine ⟨?_, ?_, ?_, fun ha => ?_, fun hb => ?_⟩
      · simp only [hother]
        rw [hw]
        exact hk.watched
      · simp only [hother]
        exact hk.unique
      · intro hmem
        exact hw.trans (hk.keep hmem)
      · refine Nat.lt_succ_of_lt (hk.lt ?_)
        simpa [Alive, hother] using ha
      · have ha := hk.batch hb
        simpa [Alive, hother] using ha
  · exact h.acceptor b (by simpa using hb)

theorem Kept.resetChannel (h : s.Kept) (j : Nat) : (s.resetChannel j).Kept := by
  unfold LoopRound.resetChannel
  split
  next k hjk =>
      refine ⟨h.quiet, fun d => ?_, h.holder, fun m => ?_, fun b hb => ?_⟩
      · simpa using h.conn d
      · have hm := h.connector m
        by_cases hmk : m = k
        · subst hmk
          have hno : ∀ i, Function.update s.channelPtr j none i ≠ some m := by
            intro i
            by_cases hij : i = j
            · simp [hij]
            · simpa [hij] using fun hi => hij (hm.unique i j hi hjk)
          refine ⟨by simp [hno], fun i i' hi => absurd hi (hno i),
            fun _ => by simp, fun _ => hm.lt (Or.inl ⟨j, hjk⟩),
            fun _ => Or.inr (by simp)⟩
        · have hother : ∀ i, Function.update s.channelPtr j none i = some m ↔
              s.channelPtr i = some m := by
            intro i
            by_cases hij : i = j
            · simp [hij, hjk, Ne.symm hmk]
            · simp [hij]
          refine ⟨?_, ?_, ?_, fun ha => hm.lt ?_, fun hb => ?_⟩
          · simpa [hmk, hother] using hm.watched
          · simpa [hother] using hm.unique
          · simpa [hmk] using hm.keep
          · simpa [Alive, hmk, hother] using ha
          · have ha := hm.batch hb
            simpa [Alive, hmk, hother] using ha
      · exact h.acceptor b (by simpa using hb)
  · exact h

theorem Kept.of_acceptor (h : s.Kept) (acc : Nat → Bool) {w : Bool} {b : Nat}
    (hacc : ∀ d, (s.setWatched (.acceptor b) w).watched (.acceptor d) = true → acc d = true) :
    { s.setWatched (.acceptor b) w with acceptor := acc }.Kept := by
  refine ⟨h.quiet, fun d => ?_, h.holder, fun k => ?_, hacc⟩
  · simpa using h.conn d
  · have hk := h.connector k
    refine ⟨?_, hk.unique, ?_, hk.lt, hk.batch⟩
    · simpa using hk.watched
    · simpa using hk.keep

theorem Kept.resetAcceptor (h : s.Kept) (b : Nat) : (s.resetAcceptor b).Kept := by
  refine h.of_acceptor _ fun d hd => ?_
  by_cases hdb : d = b
  · simp [hdb] at hd
  · simpa [hdb] using h.acceptor d (by simpa [hdb] using hd)

theorem Kept.listen (h : s.Kept) {b : Nat} (hacc : s.acceptor b = true) :
    (s.setWatched (.acceptor b) true).Kept := by
  refine h.of_acceptor s.acceptor fun d hd => ?_
  by_cases hdb : d = b
  · exact hdb ▸ hacc
  · exact h.acceptor d (by simpa [hdb] using hd)

theorem Kept.newServer (h : s.Kept) (b : Nat) :
    { s with acceptor := Function.update s.acceptor b true }.Kept := by
  refine ⟨h.quiet, fun d => ?_, h.holder, fun k => ?_, fun d hd => ?_⟩
  · simpa using h.conn d
  · have hk := h.connector k
    exact ⟨hk.watched, hk.unique, hk.keep, hk.lt, hk.batch⟩
  · by_cases hdb : d = b
    · simp [hdb]
    · simpa [hdb] using h.acceptor d hd

section calling

variable {f : LoopFunc} {rest : List LoopFunc} (h : s.Kept) (hst : s.stage = .calling)
  (hf : s.funcs = f :: rest)
include h hst hf

theorem Kept.pop : { s with funcs := rest }.Kept := by
  have hquiet := h.quiet (by simp [hst])
  have hsub : ∀ g, g ∈ rest → g ∈ s.funcs := fun g hg => by simp [hf, hg]
  refine ⟨h.quiet, fun d => ?_, h.holder, fun k => ?_, h.acceptor⟩
  · exact (h.conn d).dequeue (hquiet _) (hsub _)
  · have hk := h.connector k
    exact ⟨hk.watched, hk.unique, fun hmem => hk.keep (hsub _ hmem),
      fun ha => hk.lt (ha.imp_right (hsub _)), fun hb => absurd hb (hquiet _)⟩

theorem Kept.connectDestroyed (hc : f = .connectDestroyed c) :
    ({ s with funcs := rest }.runFunc f).Kept := by
  subst hc
  have hpop := h.pop hst hf
  have hdown : s.status c = some .disconnected :=
    (h.conn c).closed (Or.inl (Or.inr (Or.inr (by simp [hf]))))
  simp only [runFunc, hdown, Option.some.injEq, reduceCtorEq, if_false]
  refine hpop.of_view (c := c) (by constructor <;> simp +contextual) rfl rfl ?_ fun d hdc => ?_
  · have hdes := (hpop.conn c).destroy hdown (hpop.quiet (by simp [hst]) _)
    simpa using hdes
  · simp [hdc]

theorem Kept.callFunc : ({ s with funcs := rest }.runFunc f).Kept := by
  have hpop := h.pop hst hf
  cases f with
  | connectEstablished c =>
      simp only [runFunc]
      split
      next hcon => exact hpop.setStatus .connected (Or.inl hcon) (Or.inl rfl)
      · exact hpop
  | connectDestroyed c => exact h.connectDestroyed hst hf rfl
  | forceClose c =>
      simp only [runFunc]
      split
      next hup => exact hpop.closeInLoop (Or.inl hup)
      · exact hpop
  | keep k => exact hpop
  | stopConnector j => exact hpop.resetChannel j
  | stopServer b => exact hpop.resetAcceptor b
  | user => exact hpop

end calling

/-! ## Connections and attempts -/

/-- No connection that is up and no attempt under way is released by the
assignment of a new one. -/
def ReplacesNone (s : LoopRound) : RoundAct → Prop
  | .newClientConnection j _ => ∀ d, s.connection j = some d → ¬ Up (s.status d)
  | .connecting j => s.channelPtr j = none
  | _ => True

theorem Kept.step (h : s.Kept) (hC : s.ReplacesNone a) (hs : RoundStep s a t) : t.Kept := by
  unfold RoundStep exec at hs
  cases a with
  | loop =>
      obtain ⟨⟨hst, -⟩, ⟨⟩⟩ := Option.ite_none_right_eq_some.mp hs
      exact h.goOn_quiet (by simp [hst]) .polling
  | poll ready =>
      obtain ⟨⟨hst, hready⟩, ⟨⟩⟩ := Option.ite_none_right_eq_some.mp hs
      exact h.goOn .handling s.current ready
        (fun ch hch => hch.elim (fun hr => Or.inr (hready ch hr)) fun hc => Or.inl (Or.inr hc))
        (fun _ => Or.inl) (absurd rfl)
  | handleEvent =>
      simp only at hs
      split at hs
      next ch rest hact =>
          obtain ⟨⟨hst, -⟩, ⟨⟩⟩ := Option.ite_none_right_eq_some.mp hs
          have hhead : ∀ x, (if s.watched ch = true then some ch else none) = some x →
              x = ch ∧ s.watched ch = true := by
            intro x hx
            split at hx
            next hw => exact ⟨(Option.some.inj hx).symm, hw⟩
            · cases hx
          refine h.goOn s.stage _ rest (fun x hx => Or.inl (Or.inl ?_)) (fun x hx => ?_)
            (absurd hst)
          · rw [hact]
            rcases hx with hx | hx
            · exact List.mem_cons_of_mem ch hx
            · exact (hhead x hx).1 ▸ List.mem_cons_self
          · obtain ⟨rfl, hw⟩ := hhead x hx
            exact Or.inr hw
      · cases hs
  | handled =>
      obtain ⟨⟨-, hact⟩, ⟨⟩⟩ := Option.ite_none_right_eq_some.mp hs
      refine h.goOn .calling none s.activeChannels (fun x hx => Or.inl (Or.inl ?_)) (by simp)
        fun _ => ⟨hact, rfl⟩
      simpa using hx
  | callFunc =>
      simp only at hs
      split at hs
      next f rest hf =>
          obtain ⟨⟨hst, -⟩, ⟨⟩⟩ := Option.ite_none_right_eq_some.mp hs
          exact h.callFunc hst hf
      · cases hs
  | called =>
      obtain ⟨⟨⟨hst, -⟩, -⟩, ⟨⟩⟩ := Option.ite_none_right_eq_some.mp hs
      exact h.goOn_quiet (by simp [hst]) .polling
  | quit =>
      obtain ⟨⟨⟨hst, -⟩, -⟩, ⟨⟩⟩ := Option.ite_none_right_eq_some.mp hs
      exact h.goOn_quiet (by simp [hst]) .outside
  | throw =>
      obtain ⟨-, ⟨⟩⟩ := Option.ite_none_right_eq_some.mp hs
      exact h.throw
  | newServer b =>
      obtain ⟨-, ⟨⟩⟩ := Option.ite_none_left_eq_some.mp hs
      exact h.newServer b
  | listen b =>
      obtain ⟨⟨-, hacc⟩, ⟨⟩⟩ := Option.ite_none_right_eq_some.mp hs
      exact h.listen hacc
  | newConnection c =>
      obtain ⟨⟨-, hnone⟩, ⟨⟩⟩ := Option.ite_none_right_eq_some.mp hs
      exact h.newConnection hnone
  | newClientConnection j c =>
      obtain ⟨⟨hatt, hcl, hnone⟩, ⟨⟩⟩ := Option.ite_none_right_eq_some.mp hs
      exact h.newClientConnection hatt hcl hnone hC
  | shutdown c =>
      obtain ⟨⟨-, hcon⟩, ⟨⟩⟩ := Option.ite_none_right_eq_some.mp hs
      exact h.shutdown hcon
  | handleClose c =>
      obtain ⟨⟨-, hst⟩, ⟨⟩⟩ := Option.ite_none_right_eq_some.mp hs
      exact h.closeInLoop hst
  | closeCallback =>
      simp only at hs
      split at hs
      next c rest hcl =>
          cases hs
          exact h.closeCallback hcl
      · cases hs
  | connecting j =>
      obtain ⟨-, ⟨⟩⟩ := Option.ite_none_right_eq_some.mp hs
      exact h.connecting hC
  | removeAndResetChannel j =>
      obtain ⟨-, ⟨⟩⟩ := Option.ite_none_right_eq_some.mp hs
      exact h.resetChannel j
  | stop b =>
      obtain ⟨-, ⟨⟩⟩ := Option.ite_none_right_eq_some.mp hs
      exact h.resetAcceptor b
  | queueInLoop f =>
      cases f with
      | connectEstablished c | connectDestroyed c | keep k => cases hs
      | forceClose c | stopConnector j | stopServer b | user =>
          cases hs
          exact h.queue (by simp) (by simp)
  | newRemoteConnection c =>
      obtain ⟨hnone, ⟨⟩⟩ := Option.ite_none_right_eq_some.mp hs
      exact h.newRemoteConnection hnone
  | handleCloseInLoop c =>
      obtain ⟨hmem, ⟨⟩⟩ := Option.ite_none_right_eq_some.mp hs
      exact h.handleCloseInLoop hmem

/-- Two connections are ready, and the handler of the first closes the second,
which is then held by its functor. -/
example : ([.newConnection 0, .newConnection 1, .loop, .poll [.conn 0, .conn 1], .handleEvent,
    .handleClose 1, .closeCallback] : List RoundAct).foldlM exec .new |>.any
      (fun s => s.connSet 1 = false ∧ .conn 1 ∈ s.activeChannels ∧
        .connectDestroyed 1 ∈ s.funcs) := by decide

/-- A client connects, is stopped and connects again: its first connection is
with the poller, and nobody holds it. -/
example : ([.connecting 0, .loop, .poll [.connector 0], .handleEvent, .removeAndResetChannel 0,
    .newClientConnection 0 0, .removeAndResetChannel 0, .connecting 0, .handled, .callFunc, .called,
    .poll [.connector 1], .handleEvent, .removeAndResetChannel 0, .newClientConnection 0 1] :
      List RoundAct).foldlM exec .new |>.any
      (fun s => s.watched (.conn 0) = true ∧ s.connection 0 = some 1 ∧ s.closing = [] ∧
        s.elsewhere = [] ∧ .connectDestroyed 0 ∉ s.funcs) := by decide

/-! ## The acceptors -/

/-- A connection and the acceptor are ready, and the handler of the
connection stops the server. -/
example : ([.newServer 0, .listen 0, .newConnection 0, .loop, .poll [.conn 0, .acceptor 0],
    .handleEvent, .stop 0] : List RoundAct).foldlM exec .new |>.any
      (fun s => .acceptor 0 ∈ s.activeChannels ∧ s.acceptor 0 = false) := by decide

end LoopRound

end Netpoll
