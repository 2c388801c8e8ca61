import Mathlib.Data.List.Sort
import Mathlib.Logic.Function.Basic
import Netpoll.Connection

/-!
# `TcpServer` and its loops

A server accepts on its own loop and gives each connection to an I/O loop
(`net/tcp_server.{h,cc}`). Every connection is the whole machine of
`Netpoll.Connection`; its close callback is `connectionClosed`. What one
loop wants another to do is a functor in the queue of that loop, which is
served in order; `runInLoop` runs it at once on the loop's own thread.

User code may call a connection on any thread once it has seen it, which
is in the connection callback of `connectEstablished`. `stop` is a sweep
over a copy of `m_connSet`, whose calls of `forceClose` run user code in
between. Two connections of one loop are not kept from interleaving their
callbacks here, which the thread of the loop does; that only adds runs.

The timing wheels of idle connections are left out.
-/

namespace Netpoll

/-- A connection object. The order stands for that of the addresses, by
which `m_connSet` is sorted. -/
abbrev ConnId := Nat

/-- The functors that are queued in the loops. -/
inductive ServerTask where
  | connectEstablished (c : ConnId)
  | handleCloseInLoop (c : ConnId)
  | connectDestroyed (c : ConnId)
  | call (c : ConnId) (k : Call)
  | stop
deriving DecidableEq

/-- What the server does. The number is what `m_connSet.erase` returns. -/
inductive ServerEvent where
  | newConnection (c : ConnId)
  | connectionClosed (c : ConnId)
  | handleCloseInLoop (c : ConnId) (n : Nat)
  | connectDestroyed (c : ConnId)
deriving DecidableEq

structure EventLoopThreadPool (L : Type*) where
  loopThreadList : List L
  loopIndex : Nat

/-- The loop whose turn it is; `none` is the null pointer. -/
def EventLoopThreadPool.getNextLoop {L : Type*} (p : EventLoopThreadPool L) :
    Option L × EventLoopThreadPool L :=
  if p.loopThreadList ≠ [] then
    let next := p.loopIndex + 1
    (p.loopThreadList[p.loopIndex]?,
      { p with loopIndex := if next ≥ p.loopThreadList.length then 0 else next })
  else (none, p)

structure ServerConn (L : Type*) where
  ioLoop : L
  conn : Conn

structure TcpServer (L : Type*) where
  loop : L
  /-- `m_acceptorPtr` is set. -/
  accepting : Bool
  loopPool : Option (EventLoopThreadPool L)
  connSet : List ConnId
  conns : ConnId → Option (ServerConn L)
  queue : L → List ServerTask
  /-- What `stop` has copied and not yet closed. -/
  connPtrs : List ConnId
  trace : List ServerEvent

inductive ServerAct (L : Type*) where
  /-- The acceptor has a connection; these callbacks are set on the server. -/
  | newConnection (c : ConnId) (callbacks : Callbacks) (env : Env)
  /-- A loop runs the functor at the front of its queue. -/
  | task (l : L) (env : Env)
  /-- A poll result for a connection. -/
  | event (c : ConnId) (revents : BitVec 32) (env : Env)
  /-- The frame on top of a connection goes on. -/
  | resume (c : ConnId) (env : Env)
  /-- User code calls a connection; `none` is a thread without a loop. -/
  | call (thread : Option L) (c : ConnId) (k : Call) (env : Env)
  | stop (thread : Option L)
  /-- The sweep of `stop` goes on with the next connection. -/
  | sweep (env : Env)
  /-- `m_loopPoolPtr.reset()`. -/
  | resetPool
  /-- The pool is used by somebody else. -/
  | getNextLoop

namespace TcpServer

variable {L : Type*} [DecidableEq L]

def new (loop : L) (loopPool : Option (EventLoopThreadPool L)) : TcpServer L where
  loop
  accepting := true
  loopPool
  connSet := []
  conns _ := none
  queue _ := []
  connPtrs := []
  trace := []

def log (s : TcpServer L) (e : ServerEvent) : TcpServer L := { s with trace := s.trace ++ [e] }

def setConn (s : TcpServer L) (c : ConnId) (x : ServerConn L) : TcpServer L :=
  { s with conns := Function.update s.conns c (some x) }

def queueInLoop (s : TcpServer L) (l : L) (t : ServerTask) : TcpServer L :=
  { s with queue := Function.update s.queue l (s.queue l ++ [t]) }

def handleCloseInLoop (s : TcpServer L) (c : ConnId) : TcpServer L :=
  let n := s.connSet.count c
  let s := { s with connSet := s.connSet.erase c }.log (.handleCloseInLoop c n)
  match s.conns c with
  | some x => s.queueInLoop x.ioLoop (.connectDestroyed c)
  | none => s

/-- The close callback, on the loop of the connection. -/
def connectionClosed (s : TcpServer L) (ioLoop : L) (c : ConnId) : TcpServer L :=
  let s := s.log (.connectionClosed c)
  if ioLoop = s.loop then s.handleCloseInLoop c
  else s.queueInLoop s.loop (.handleCloseInLoop c)

/-- A step of a connection; if it invokes the close callback, the server's
function runs. -/
def runConn (s : TcpServer L) (c : ConnId) (a : Act) (env : Env) : Option (TcpServer L) :=
  match s.conns c with
  | none => none
  | some x =>
    if x.conn.Enabled a then
      match { x.conn with env }.exec a with
      | .error _ => none
      | .ok conn =>
        let s := s.setConn c { x with conn }
        if x.conn.trace.count .close < conn.trace.count .close then
          some (s.connectionClosed x.ioLoop c)
        else some s
    else none

/-- `stop` on the server's loop, up to the sweep. A nested call of `stop`
sweeps first. -/
def stopInLoop (s : TcpServer L) : TcpServer L :=
  { s with accepting := false, connPtrs := s.connSet ++ s.connPtrs }

def runTask (s : TcpServer L) (env : Env) : ServerTask → Option (TcpServer L)
  | .connectEstablished c => s.runConn c .connectEstablished env
  | .handleCloseInLoop c => some (s.handleCloseInLoop c)
  | .connectDestroyed c => (s.log (.connectDestroyed c)).runConn c .connectDestroyed env
  | .call c k => s.runConn c (.call k) env
  | .stop => some s.stopInLoop

/-- `EventLoop::runInLoop` of the loop `l`, called on a thread. -/
def runInLoop (s : TcpServer L) (thread : Option L) (l : L) (t : ServerTask) (env : Env) :
    Option (TcpServer L) :=
  if thread = some l then s.runTask env t else some (s.queueInLoop l t)

/-- The loop that a new connection gets. -/
def nextIoLoop (s : TcpServer L) : Option L × TcpServer L :=
  match s.loopPool with
  | some p =>
      if p.loopThreadList.length > 0 then
        (p.getNextLoop.1, { s with loopPool := some p.getNextLoop.2 })
      else (some s.loop, s)
  | none => (some s.loop, s)

def newConnection (s : TcpServer L) (c : ConnId) (callbacks : Callbacks) (env : Env) :
    Option (TcpServer L) :=
  match s.nextIoLoop, MessageBuffer.new kBufferDefaultLength with
  | (some ioLoop, s), .ok readBuffer =>
      let conn := Conn.new readBuffer { callbacks with close := true } env
      let s := s.setConn c { ioLoop, conn }
      let s := { s with connSet := s.connSet.orderedInsert (· ≤ ·) c }.log (.newConnection c)
      s.runInLoop (some s.loop) ioLoop (.connectEstablished c) env
  | _, _ => none

/-- A function of a connection that is called on a thread. -/
def callConn (s : TcpServer L) (thread : Option L) (c : ConnId) (k : Call) (env : Env) :
    Option (TcpServer L) :=
  match s.conns c with
  | none => none
  | some x => s.runInLoop thread x.ioLoop (.call c k) env

/-- User code has seen the connection. -/
def Shown (s : TcpServer L) (c : ConnId) : Prop :=
  ∀ x ∈ s.conns c, x.conn.status ≠ .connecting

instance (s : TcpServer L) (c : ConnId) : Decidable (s.Shown c) :=
  match h : s.conns c with
  | none => isTrue fun x hx => by simp [h] at hx
  | some x => decidable_of_iff (x.conn.status ≠ .connecting) (by simp [Shown, h])

def exec (s : TcpServer L) : ServerAct L → Option (TcpServer L)
  | .newConnection c callbacks env =>
      if s.accepting ∧ (s.conns c).isNone then s.newConnection c callbacks env else none
  | .task l env =>
      match s.queue l with
      | [] => none
      | t :: rest => { s with queue := Function.update s.queue l rest }.runTask env t
  | .event c revents env => s.runConn c (.event revents) env
  | .resume c env => s.runConn c .resume env
  | .call thread c k env => if s.Shown c then s.callConn thread c k env else none
  | .stop thread =>
      if thread = some s.loop then some s.stopInLoop else some (s.queueInLoop s.loop .stop)
  | .sweep env =>
      match s.connPtrs with
      | [] => none
      | c :: rest => { s with connPtrs := rest }.callConn (some s.loop) c .forceClose env
  | .resetPool => if s.accepting then none else some { s with loopPool := none }
  | .getNextLoop =>
      match s.loopPool with
      | none => none
      | some p => some { s with loopPool := some p.getNextLoop.2 }

end TcpServer

/-- One step of a server with its loops and connections. -/
def ServerStep {L : Type*} [DecidableEq L] (s : TcpServer L) (a : ServerAct L)
    (s' : TcpServer L) : Prop :=
  s.exec a = some s'

end Netpoll
