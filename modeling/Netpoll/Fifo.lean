import Mathlib.Data.List.Basic

/-!
# A FIFO queue with two-step insertion

An insertion first gets its place in the order (`exchange`) and becomes
visible in a second step (`link`), so the front item may be one that the
consumer cannot take yet, with complete ones behind it. `pop?` is what the
consumer can do.

`FifoQueue` is the queue as an object with atomic operations: it keeps what
the calls of the consumer have returned.
-/

namespace Netpoll

/-- An item in the queue, and whether its producer has made it visible. -/
structure Cell (T α : Type*) where
  producer : T
  item : α
  linked : Bool
  deriving DecidableEq

namespace Fifo

variable {T α : Type*} {q : List (Cell T α)} {t : T} {x : α} {c : Cell T α}

def exchange (t : T) (x : α) (q : List (Cell T α)) : List (Cell T α) := q ++ [⟨t, x, false⟩]

/-- A producer has at most one item that is not visible. -/
def link [DecidableEq T] (t : T) (q : List (Cell T α)) : List (Cell T α) :=
  q.map fun c => if c.producer = t then { c with linked := true } else c

/-- The front item, if it is visible, and the rest. -/
def pop? : List (Cell T α) → Option (α × List (Cell T α))
  | c :: rest => if c.linked then some (c.item, rest) else none
  | [] => none

theorem pop?_eq_none_iff :
    pop? q = none ↔ q = [] ∨ ∃ c rest, q = c :: rest ∧ c.linked = false := by
  cases q with
  | nil => simp [pop?]
  | cons c rest => cases hc : c.linked <;> simp [pop?, hc]

theorem pop?_eq_some {rest : List (Cell T α)} (h : pop? q = some (x, rest)) :
    ∃ t, q = ⟨t, x, true⟩ :: rest := by
  cases q with
  | nil => cases h
  | cons c r =>
      obtain ⟨t, y, linked⟩ := c
      cases linked with
      | false => cases h
      | true =>
          obtain ⟨rfl, rfl⟩ := Prod.mk.inj (Option.some.inj h)
          exact ⟨t, rfl⟩

end Fifo

/-- What a call of the consumer has returned. -/
inductive FifoResult (α : Type*)
  /-- The item, or none for `false`. -/
  | dequeue (output : Option α)
  | empty (isEmpty : Bool)
  deriving DecidableEq

namespace FifoResult

variable {α : Type*}

/-- The item that the call has taken. -/
def output? : FifoResult α → Option α
  | dequeue output => output
  | empty _ => none

end FifoResult

inductive FifoAct (T α : Type*)
  | exchange (t : T) (x : α)
  | link (t : T)
  | dequeue
  | empty

structure FifoQueue (T α : Type*) where
  cells : List (Cell T α)
  results : List (FifoResult α)

namespace FifoQueue

variable {T α : Type*}

def new : FifoQueue T α := ⟨[], []⟩

def exec [DecidableEq T] (q : FifoQueue T α) : FifoAct T α → FifoQueue T α
  | .exchange t x => { q with cells := Fifo.exchange t x q.cells }
  | .link t => { q with cells := Fifo.link t q.cells }
  | .dequeue =>
    match Fifo.pop? q.cells with
    | some (x, rest) => ⟨rest, q.results ++ [.dequeue (some x)]⟩
    | none => { q with results := q.results ++ [.dequeue none] }
  | .empty => { q with results := q.results ++ [.empty (Fifo.pop? q.cells).isNone] }

theorem exec_dequeue_some [DecidableEq T] {q : FifoQueue T α} {x : α} {rest : List (Cell T α)}
    (h : Fifo.pop? q.cells = some (x, rest)) :
    q.exec .dequeue = ⟨rest, q.results ++ [.dequeue (some x)]⟩ := by
  rw [exec, h]

theorem exec_dequeue_none [DecidableEq T] {q : FifoQueue T α} (h : Fifo.pop? q.cells = none) :
    q.exec .dequeue = { q with results := q.results ++ [.dequeue none] } := by
  rw [exec, h]

end FifoQueue

end Netpoll
