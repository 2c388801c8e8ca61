import Netpoll.Connector

/-!
# `TcpClient`

A connector and the connection it has brought about, from
`net/tcp_client.{h,cc}`: `newConnection` is the connector's callback,
`removeConnection` the close callback of a connection. A connection is
known by its socket; what it reads and writes is not looked at here, only
that it is established, may be closed at any time after, and is destroyed
by a functor that `removeConnection` queues.

As for the connector, assertions do not stop the client; what the one of
`removeConnection` compares is in the trace. Connector and client call
user code last, so what the user does in a callback is the next step.
-/

namespace Netpoll

inductive ClientEvent where
  | newConnection (conn : Int)
  | shutdown (conn : Int)
  /-- `removeConnection(conn)` with the `m_connection` that it finds. -/
  | removeConnection (current : Option Int) (conn : Int)
deriving DecidableEq

structure TcpClient where
  connector : Connector
  mRetry : Bool
  mConnect : Bool
  /-- `m_connection` -/
  connection : Option Int
  /-- Established and not removed, the oldest first. -/
  conns : List Int
  /-- Connections with `connectDestroyed` in the queue of the loop. -/
  destroys : List Int
  trace : List ClientEvent
deriving DecidableEq

namespace TcpClient

/-- Both constructors leave the connector without retry. -/
def new (errorCallback : Bool) : TcpClient where
  connector := .new false errorCallback
  mRetry := false
  mConnect := false
  connection := none
  conns := []
  destroys := []
  trace := []

def log (t : TcpClient) (e : ClientEvent) : TcpClient := { t with trace := t.trace ++ [e] }

def enableRetry (t : TcpClient) : TcpClient := { t with mRetry := true }

def connect (t : TcpClient) (inLoop : Bool) (e : ConnectErrno) : TcpClient :=
  if t.mConnect then t
  else { t with mConnect := true, connector := t.connector.start inLoop e }

def disconnect (t : TcpClient) : TcpClient :=
  let t := { t with mConnect := false }
  match t.connection with
  | some conn => t.log (.shutdown conn)
  | none => t

def stop (t : TcpClient) (inLoop : Bool) : TcpClient :=
  { t with mConnect := false, connector := t.connector.stop inLoop }

def newConnection (t : TcpClient) (sockfd : Int) : TcpClient :=
  { t with connection := some sockfd, conns := t.conns ++ [sockfd] }.log (.newConnection sockfd)

def removeConnection (t : TcpClient) (conn : Int) (e : ConnectErrno) : TcpClient :=
  let t := { t with
    connection := none
    conns := t.conns.erase conn
    destroys := t.destroys ++ [conn] }.log (.removeConnection t.connection conn)
  if t.mRetry ∧ t.mConnect then { t with connector := t.connector.restart true e } else t

/-- The sockets that a step of the connector hands to its callback. -/
def handed (c c' : Connector) : List Int :=
  (c'.trace.drop c.trace.length).filterMap fun
    | .newConnection fd => some fd
    | _ => none

end TcpClient

/-- What happens to a client; `connect(2)` answers as for the connector. -/
inductive ClientAct where
  | enableRetry
  | connect (inLoop : Bool) (e : ConnectErrno)
  | disconnect
  | stop (inLoop : Bool)
  /-- A step of the connector; the client owns it, so it is not destroyed. -/
  | connector (a : ConnectorAct)
  /-- A connection calls its close callback. -/
  | closed (conn : Int) (e : ConnectErrno)
  /-- The loop runs a queued `connectDestroyed`. -/
  | connectDestroyed
deriving DecidableEq

namespace TcpClient

def exec (t : TcpClient) : ClientAct → Option TcpClient
  | .enableRetry => some t.enableRetry
  | .connect inLoop e => some (t.connect inLoop e)
  | .disconnect => some t.disconnect
  | .stop inLoop => some (t.stop inLoop)
  | .connector a =>
      if a = .destroy then none
      else
        (t.connector.exec a).map fun c =>
          (handed t.connector c).foldl newConnection { t with connector := c }
  | .closed conn e => if conn ∈ t.conns then some (t.removeConnection conn e) else none
  | .connectDestroyed =>
      match t.connector.dispatch, t.destroys with
      | [], _ :: rest => some { t with destroys := rest }
      | _, _ => none

end TcpClient

/-- One step of a client. -/
def ClientStep (t : TcpClient) (a : ClientAct) (t' : TcpClient) : Prop := t.exec a = some t'

/-- The steps, by what happens. -/
inductive ClientMove (t : TcpClient) : ClientAct → TcpClient → Prop
  | enableRetry : ClientMove t .enableRetry t.enableRetry
  | connect (inLoop : Bool) (e : ConnectErrno) :
      ClientMove t (.connect inLoop e) (t.connect inLoop e)
  | disconnect : ClientMove t .disconnect t.disconnect
  | stop (inLoop : Bool) : ClientMove t (.stop inLoop) (t.stop inLoop)
  | connector {a : ConnectorAct} {c : Connector} (hne : a ≠ .destroy)
      (hc : ConnectorStep t.connector a c) :
      ClientMove t (.connector a)
        ((TcpClient.handed t.connector c).foldl TcpClient.newConnection { t with connector := c })
  | closed {conn : Int} (e : ConnectErrno) (hmem : conn ∈ t.conns) :
      ClientMove t (.closed conn e) (t.removeConnection conn e)
  | connectDestroyed (rest : List Int) : ClientMove t .connectDestroyed { t with destroys := rest }

theorem ClientStep.move {t t' : TcpClient} {a : ClientAct} (h : ClientStep t a t') :
    ClientMove t a t' := by
  cases a with
  | enableRetry => exact Option.some.inj h ▸ .enableRetry
  | connect inLoop e => exact Option.some.inj h ▸ .connect inLoop e
  | disconnect => exact Option.some.inj h ▸ .disconnect
  | stop inLoop => exact Option.some.inj h ▸ .stop inLoop
  | connector a =>
      simp only [ClientStep, TcpClient.exec] at h
      split at h
      · cases h
      case isFalse hne =>
          obtain ⟨c, hc, rfl⟩ := Option.map_eq_some_iff.mp h
          exact .connector hne hc
  | closed conn e =>
      simp only [ClientStep, TcpClient.exec] at h
      split at h
      case isTrue hmem => exact Option.some.inj h ▸ .closed e hmem
      case isFalse => cases h
  | connectDestroyed =>
      simp only [ClientStep, TcpClient.exec] at h
      split at h
      case h_1 => exact Option.some.inj h ▸ .connectDestroyed _
      case h_2 => cases h

namespace TcpClient

theorem foldl_newConnection_eq (t : TcpClient) (fds : List Int) :
    fds.foldl newConnection t = { t with
      connection := fds.getLast?.or t.connection
      conns := t.conns ++ fds
      trace := t.trace ++ fds.map .newConnection } := by
  induction fds generalizing t with
  | nil => simp
  | cons f fds ih =>
      rw [List.foldl_cons, ih]
      cases hlast : fds.getLast? <;> simp [newConnection, log, List.getLast?_cons, hlast]

end TcpClient

end Netpoll
