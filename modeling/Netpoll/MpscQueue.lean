import Mathlib.Logic.Function.Basic
import Netpoll.Fifo
import Netpoll.Runs

/-!
# The multi-producer single-consumer queue

`MpscQueue` is a linked list of heap nodes. A producer allocates a node,
exchanges `head_` for it, and then stores it in the `next_` of the node
that was the head before; between the two the list is in pieces. The
consumer owns `tail_`, a node whose payload is gone; it takes the payload
of the node behind it, moves `tail_` there and frees the old one.

A step is one atomic access or one allocation of one thread, in any
interleaving. A step that would touch memory that is not allocated does
not exist (`exec` is `none`), so a proof has to show that a thread in the
middle of a call can always go on. An address that was freed may be given
out again.

Three fields are history only: the items each producer has called
`enqueue` for, the items in the order of the exchanges, and what the calls
of `dequeue` and `empty` have returned.
-/

namespace Netpoll

/-- `BufferNode` of the queue: `dataPtr_`, while there is a payload, and `next_`. -/
structure QueueNode (α : Type*) where
  data : Option α
  next : Option Nat

/-- Where a producer stands in `enqueue`. -/
inductive ProducerStage (α : Type*)
  | idle
  | allocated (node : Nat) (input : α)
  /-- The exchange was the `k`-th one. -/
  | exchanged (node prevhead k : Nat)

inductive ConsumerCall
  | dequeue
  | empty
  deriving DecidableEq

/-- Where the consumer stands in `dequeue` or `empty`. -/
inductive ConsumerStage (α : Type*)
  | idle
  | loadedTail (call : ConsumerCall) (tail : Nat)
  | loadedNext (tail next : Nat)
  | moved (tail next : Nat) (output : α)
  | stored (tail : Nat) (output : α)

structure MpscQueue (T α : Type*) where
  heap : Nat → Option (QueueNode α)
  head : Nat
  tail : Nat
  producer : T → ProducerStage α
  consumer : ConsumerStage α
  calls : T → List α
  order : List (T × α)
  results : List (FifoResult α)

inductive QueueAct (T α : Type*)
  | alloc (t : T) (node : Nat) (input : α)
  | exchange (t : T)
  | link (t : T)
  | loadTail (call : ConsumerCall)
  | loadNext
  | move
  | storeTail
  | deleteTail

namespace MpscQueue

variable {T α : Type*} [DecidableEq T]

/-- One node without payload. -/
def new : MpscQueue T α where
  heap a := if a = 0 then some ⟨none, none⟩ else none
  head := 0
  tail := 0
  producer _ := .idle
  consumer := .idle
  calls _ := []
  order := []
  results := []

/-- The items that `dequeue` has returned. -/
def returned (s : MpscQueue T α) : List α := s.results.filterMap FifoResult.output?

def setNode (a : Nat) (node : Option (QueueNode α)) (s : MpscQueue T α) : MpscQueue T α :=
  { s with heap := Function.update s.heap a node }

def setProducer (t : T) (stage : ProducerStage α) (s : MpscQueue T α) : MpscQueue T α :=
  { s with producer := Function.update s.producer t stage }

def exec (s : MpscQueue T α) : QueueAct T α → Option (MpscQueue T α)
  | .alloc t a x =>
    match s.producer t, s.heap a with
    | .idle, none =>
      some { (s.setNode a (some ⟨some x, none⟩)).setProducer t (.allocated a x) with
        calls := Function.update s.calls t (s.calls t ++ [x]) }
    | _, _ => none
  | .exchange t =>
    match s.producer t with
    | .allocated a x =>
      some { s.setProducer t (.exchanged a s.head s.order.length) with
        head := a
        order := s.order ++ [(t, x)] }
    | _ => none
  | .link t =>
    match s.producer t with
    | .exchanged a p _ =>
      match s.heap p with
      | some node => some ((s.setNode p (some { node with next := some a })).setProducer t .idle)
      | none => none
    | _ => none
  | .loadTail call =>
    match s.consumer with
    | .idle => some { s with consumer := .loadedTail call s.tail }
    | _ => none
  | .loadNext =>
    match s.consumer with
    | .loadedTail call a =>
      match s.heap a with
      | some node =>
        match call, node.next with
        | .dequeue, some b => some { s with consumer := .loadedNext a b }
        | .dequeue, none =>
          some { s with consumer := .idle, results := s.results ++ [.dequeue none] }
        | .empty, next =>
          some { s with consumer := .idle, results := s.results ++ [.empty next.isNone] }
      | none => none
    | _ => none
  | .move =>
    match s.consumer with
    | .loadedNext a b =>
      match s.heap b with
      | some ⟨some x, next⟩ =>
        some { s.setNode b (some ⟨none, next⟩) with consumer := .moved a b x }
      | _ => none
    | _ => none
  | .storeTail =>
    match s.consumer with
    | .moved a b x => some { s with tail := b, consumer := .stored a x }
    | _ => none
  | .deleteTail =>
    match s.consumer with
    | .stored a x =>
      match s.heap a with
      | some _ =>
        some { s.setNode a none with
          consumer := .idle
          results := s.results ++ [.dequeue (some x)] }
      | none => none
    | _ => none

end MpscQueue

namespace MpscQueue

variable {T α : Type*}

/-- The producer of the `k`-th item has not performed its `next_` store. -/
def Linking (s : MpscQueue T α) (k : Nat) : Prop :=
  ∃ t a p, s.producer t = .exchanged a p k

/-- The producer `t` of the `k`-th item is not between its two steps for it. -/
def linkedAt (s : MpscQueue T α) (t : T) (k : Nat) : Bool :=
  match s.producer t with
  | .exchanged _ _ j => j != k
  | _ => true

/-- How many items `tail_` has gone past. -/
def past (s : MpscQueue T α) : Nat :=
  s.returned.length + match s.consumer with
    | .stored _ _ => 1
    | _ => 0

/-- The result of a `dequeue` that has stored `tail_` and not returned yet. -/
def due : ConsumerStage α → List (FifoResult α)
  | .stored _ x => [.dequeue (some x)]
  | _ => []

/-- The abstract queue that a state stands for: the items that `tail_` has
not gone past, in the order of the exchanges. -/
def abs (s : MpscQueue T α) : FifoQueue T α where
  cells := (s.order.mapIdx fun k e => ⟨e.1, e.2, s.linkedAt e.1 k⟩).drop s.past
  results := s.results ++ due s.consumer

/-- The operation of the abstract queue that takes effect with a step: a
call of `empty` and a `dequeue` that finds nothing at their load of `next_`,
any other `dequeue` at its store of `tail_`. -/
def takesEffect (s : MpscQueue T α) : QueueAct T α → Option (FifoAct T α)
  | .exchange t =>
    match s.producer t with
    | .allocated _ x => some (.exchange t x)
    | _ => none
  | .link t => some (.link t)
  | .loadNext =>
    match s.consumer with
    | .loadedTail .empty _ => some .empty
    | .loadedTail .dequeue a =>
      if (s.heap a).map QueueNode.next = some none then some .dequeue else none
    | _ => none
  | .storeTail => some .dequeue
  | _ => none

end MpscQueue

end Netpoll
