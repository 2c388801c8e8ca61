import Netpoll.Channel
import Netpoll.Runs

/-!
# `Connector`

One connection attempt after the other, from `net/inner/connector.{h,cc}`
(Linux build): `connect` opens a socket, `connecting` waits for it to
become writable on a channel, `handleWrite` and `handleError` end the
attempt, and `retry` makes a timer that starts the next one.

The functions go on behind a failed assertion, as they do in a release
build; what the assertions of `startInLoop`, `connecting` and
`handleWrite` find is part of the trace. A poll result is dispatched
handler by handler, since the error callback in between is user code,
which may call `start`, `stop` and `restart` on the loop thread. Another
thread may call them at any time; its part on the loop is queued.

Descriptors are the source's `int`s, with `-1` for none. None is given
out twice here, so that a second `close` of the same number is seen as
such.
-/

namespace Netpoll

/-- What `connect(2)` returns; `none` is success. -/
inductive ConnectErrno where
  | none | inProgress | intr | isConn
  | again | addrInUse | addrNotAvail | connRefused | netUnreach
  | acces | perm | afNoSupport | already | badF | fault | notSock
  | other
deriving DecidableEq

/-- The cases of the `switch` in `Connector::connect`. -/
inductive ConnectCase where
  | connecting | retry | error
deriving DecidableEq

def ConnectErrno.case : ConnectErrno → ConnectCase
  | .none | .inProgress | .intr | .isConn => .connecting
  | .again | .addrInUse | .addrNotAvail | .connRefused | .netUnreach => .retry
  | .acces | .perm | .afNoSupport | .already | .badF | .fault | .notSock | .other => .error

inductive ConnectorStatus where
  | disconnected | connecting | connected
deriving DecidableEq

/-- The functors that are queued in the loop. -/
inductive ConnectorTask where
  | startInLoop
  | removeAndResetChannel
  /-- Holds a channel that was removed. -/
  | keepChannel
deriving DecidableEq

/-- What the connector does. -/
inductive ConnectorEvent where
  | create (fd : Int)
  | close (fd : Int)
  | newConnection (fd : Int)
  | error
  | runAfter (ms : Nat)
  /-- `startInLoop` with what it tests. -/
  | startInLoop (started : Bool) (status : ConnectorStatus)
  /-- `connecting` with the channel that it asserts to be absent. -/
  | connecting (channel : Option Int)
  /-- `handleWrite` on a connector that has been stopped. -/
  | stopped (status : ConnectorStatus)
deriving DecidableEq

structure Connector where
  /-- The descriptor of `m_channelPtr`. -/
  channel : Option Int
  started : Bool
  status : ConnectorStatus
  retryInterval : Nat
  maxRetryInterval : Nat
  mRetry : Bool
  socketHanded : Bool
  fd : Int
  errorCallback : Bool
  /-- Functors of the connector in its loop, in order. -/
  queue : List ConnectorTask
  /-- The delays of the retry timers that have not fired. -/
  timers : List Nat
  /-- The handlers of the current poll result that are still to be called. -/
  dispatch : List Handler
  nextFd : Nat
  destroyed : Bool
  trace : List ConnectorEvent
deriving DecidableEq

namespace Connector

def kInitRetryDelayMs : Nat := 500
def kMaxRetryDelayMs : Nat := 30 * 1000

def new (retry errorCallback : Bool) : Connector where
  channel := none
  started := false
  status := .disconnected
  retryInterval := kInitRetryDelayMs
  maxRetryInterval := kMaxRetryDelayMs
  mRetry := retry
  socketHanded := false
  fd := -1
  errorCallback
  queue := []
  timers := []
  dispatch := []
  nextFd := 0
  destroyed := false
  trace := []

def log (c : Connector) (e : ConnectorEvent) : Connector := { c with trace := c.trace ++ [e] }

def close (c : Connector) (fd : Int) : Connector := c.log (.close fd)

def callError (c : Connector) : Connector := if c.errorCallback then c.log .error else c

def queueInLoop (c : Connector) (t : ConnectorTask) : Connector := { c with queue := c.queue ++ [t] }

/-- The channel leaves the poller; its descriptor is returned. -/
def removeAndResetChannel (c : Connector) : Int × Connector :=
  match c.channel with
  | none => (-1, c)
  | some sockfd => (sockfd, { c with channel := none }.queueInLoop .keepChannel)

def connecting (c : Connector) (sockfd : Int) : Connector :=
  { c with status := .connecting, channel := some sockfd }.log (.connecting c.channel)

def retry (c : Connector) (sockfd : Int) : Connector :=
  let c := { c.close sockfd with status := .disconnected }
  if c.started then
    let interval := c.retryInterval * 2
    { c with
      timers := c.timers ++ [c.retryInterval]
      retryInterval := if interval > c.maxRetryInterval then c.maxRetryInterval else interval }.log
      (.runAfter c.retryInterval)
  else c

def connect (c : Connector) (e : ConnectErrno) : Connector :=
  let fd : Int := c.nextFd
  let c := { c with socketHanded := false, fd, nextFd := c.nextFd + 1 }.log (.create fd)
  match e.case with
  | .connecting => c.connecting fd
  | .retry => if c.mRetry then c.retry fd else c
  | .error => ({ c with socketHanded := true }.close fd).callError

def startInLoop (c : Connector) (e : ConnectErrno) : Connector :=
  let c := c.log (.startInLoop c.started c.status)
  if c.started then c.connect e else c

/-- How a failed attempt ends in `handleWrite`: on an error of the socket,
and in the same words on a self connect. -/
def failWrite (c : Connector) (sockfd : Int) : Connector :=
  if c.mRetry then (c.retry sockfd).callError
  else ({ c with socketHanded := true }.close sockfd).callError

/-- `err` is `SO_ERROR`. -/
def handleWrite (c : Connector) (err selfConnect : Bool) : Connector :=
  let c := { c with socketHanded := true }
  if c.status = .connecting then
    match c.removeAndResetChannel with
    | (sockfd, c) =>
      if err then c.failWrite sockfd
      else if selfConnect then c.failWrite sockfd
      else
        let c := { c with status := .connected }
        if c.started then c.log (.newConnection sockfd)
        else { c with socketHanded := true }.close sockfd
  else c.log (.stopped c.status)

def handleError (c : Connector) : Connector :=
  let c := { c with socketHanded := true }
  if c.status = .connecting then
    match { c with status := .disconnected }.removeAndResetChannel with
    | (sockfd, c) => (if c.mRetry then c.retry sockfd else c.close sockfd).callError
  else c

/-- `start` on the loop thread, or on another one. -/
def start (c : Connector) (inLoop : Bool) (e : ConnectErrno) : Connector :=
  let c := { c with started := true }
  if inLoop then c.startInLoop e else c.queueInLoop .startInLoop

def stop (c : Connector) (inLoop : Bool) : Connector :=
  let c := { c with started := false, status := .disconnected }
  if inLoop then c.removeAndResetChannel.2 else c.queueInLoop .removeAndResetChannel

def restart (c : Connector) (inLoop : Bool) (e : ConnectErrno) : Connector :=
  (c.stop inLoop).start inLoop e

def runTask (c : Connector) (e : ConnectErrno) : ConnectorTask → Connector
  | .startInLoop => c.startInLoop e
  | .removeAndResetChannel => c.removeAndResetChannel.2
  | .keepChannel => c

/-- The callbacks that `connecting` sets; there is none for reading. -/
def handle (c : Connector) (err selfConnect : Bool) : Handler → Connector
  | .close | .error => c.handleError
  | .write => c.handleWrite err selfConnect
  | .read => c

/-- `~Connector`. -/
def destroy (c : Connector) : Connector :=
  let c := if !c.socketHanded ∧ c.fd ≠ -1 then c.close c.fd else c
  { c with destroyed := true }

end Connector

/-- What happens to a connector. Where a function of it may call
`connect(2)`, the answer is given. -/
inductive ConnectorAct where
  | start (inLoop : Bool) (e : ConnectErrno)
  | stop (inLoop : Bool)
  | restart (inLoop : Bool) (e : ConnectErrno)
  /-- The loop runs the next functor. -/
  | task (e : ConnectErrno)
  /-- A retry timer fires. -/
  | timer (i : Nat) (e : ConnectErrno)
  /-- A poll result for the channel. -/
  | event (revents : BitVec 32)
  /-- The next handler of that poll result is called. -/
  | handler (err selfConnect : Bool)
  | destroy
deriving DecidableEq

namespace Connector

/-- The loop thread does one thing at a time. The callbacks of a channel
hold the connector, so it lives as long as it has a channel; what holds
it in the queue and the timers of a loop may go with the loop. -/
def exec (c : Connector) (a : ConnectorAct) : Option Connector :=
  if c.destroyed then none
  else
    match a with
    | .start inLoop e => some (c.start inLoop e)
    | .stop inLoop => some (c.stop inLoop)
    | .restart inLoop e => some (c.restart inLoop e)
    | .task e =>
        match c.dispatch, c.queue with
        | [], t :: rest => some ({ c with queue := rest }.runTask e t)
        | _, _ => none
    | .timer i e =>
        if c.dispatch = [] ∧ i < c.timers.length then
          some ({ c with timers := c.timers.eraseIdx i }.startInLoop e)
        else none
    | .event revents =>
        match c.dispatch, c.channel with
        | [], some _ =>
            some { c with dispatch := Channel.handleEvent ⟨Channel.kWriteEvent, revents⟩ }
        | _, _ => none
    | .handler err selfConnect =>
        match c.dispatch with
        | h :: rest => some ({ c with dispatch := rest }.handle err selfConnect h)
        | [] => none
    | .destroy => if c.channel = none ∧ c.dispatch = [] then some c.destroy else none

end Connector

/-- One step of a connector. -/
def ConnectorStep (c : Connector) (a : ConnectorAct) (c' : Connector) : Prop := c.exec a = some c'

/-- The steps, by what happens. -/
inductive ConnectorMove (c : Connector) : ConnectorAct → Connector → Prop
  | start (inLoop : Bool) (e : ConnectErrno) : ConnectorMove c (.start inLoop e) (c.start inLoop e)
  | stop (inLoop : Bool) : ConnectorMove c (.stop inLoop) (c.stop inLoop)
  | restart (inLoop : Bool) (e : ConnectErrno) :
      ConnectorMove c (.restart inLoop e) (c.restart inLoop e)
  | task (e : ConnectErrno) {t : ConnectorTask} {rest : List ConnectorTask}
      (hq : c.queue = t :: rest) : ConnectorMove c (.task e) ({ c with queue := rest }.runTask e t)
  | timer (e : ConnectErrno) {i : Nat} (hi : i < c.timers.length) :
      ConnectorMove c (.timer i e) ({ c with timers := c.timers.eraseIdx i }.startInLoop e)
  | event (revents : BitVec 32) : ConnectorMove c (.event revents)
      { c with dispatch := Channel.handleEvent ⟨Channel.kWriteEvent, revents⟩ }
  | handler (err selfConnect : Bool) {h : Handler} {rest : List Handler}
      (hd : c.dispatch = h :: rest) :
      ConnectorMove c (.handler err selfConnect) ({ c with dispatch := rest }.handle err selfConnect h)
  | destroy (hch : c.channel = none) : ConnectorMove c .destroy c.destroy

theorem ConnectorStep.move {c c' : Connector} {a : ConnectorAct} (h : ConnectorStep c a c') :
    ConnectorMove c a c' := by
  unfold ConnectorStep Connector.exec at h
  split at h
  · cases h
  cases a with
  | start inLoop e => exact Option.some.inj h ▸ .start inLoop e
  | stop inLoop => exact Option.some.inj h ▸ .stop inLoop
  | restart inLoop e => exact Option.some.inj h ▸ .restart inLoop e
  | task e =>
      simp only at h
      split at h
      case h_1 hq => exact Option.some.inj h ▸ .task e hq
      case h_2 => cases h
  | timer i e =>
      simp only at h
      split at h
      case isTrue hi => exact Option.some.inj h ▸ .timer e hi.2
      case isFalse => cases h
  | event revents =>
      simp only at h
      split at h
      case h_1 => exact Option.some.inj h ▸ .event revents
      case h_2 => cases h
  | handler err selfConnect =>
      simp only at h
      split at h
      case h_1 hd => exact Option.some.inj h ▸ .handler err selfConnect hd
      case h_2 => cases h
  | destroy =>
      simp only at h
      split at h
      case isTrue hch => exact Option.some.inj h ▸ .destroy hch.1
      case isFalse => cases h

end Netpoll
