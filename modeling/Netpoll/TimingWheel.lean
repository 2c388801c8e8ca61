import Netpoll.MessageBuffer
import Netpoll.Rounding
import Netpoll.Runs

/-!
# The timing wheel

`TimingWheel` (`net/inner/timing_wheel.h`, `timing_wheel.cc`) with a tick
interval of one second. A wheel has queues of `m_bucketsNumPerQueue`
buckets each; queue `i` is advanced every `B ^ i` ticks, which destroys
the bucket at its front. An entry whose delay does not fit the finest
queue goes to a coarser one, wrapped in `CallbackEntry`s: a
`CallbackEntry` that loses its last reference re-inserts what it holds
into the next finer queue, from within its destructor.

The tick counter and the powers of `B` are natural numbers: the counter
grows by one each second and the powers are bounded by the product that
sizes the wheel. The sums of `insertEntryInLoop` are `size_t` sums.
-/

namespace Netpoll

/-- `static_cast<size_t>(n / 1.0F)`: the integer is converted to `float`,
whose significand has 24 bits, and back. -/
def toFloat (n : Nat) : Nat := roundBits 24 n

/-- What the `shared_ptr<void>` of a bucket points to: an entry of the
caller, or a `CallbackEntry` with the values its lambda captured. -/
inductive EntryPtr (E : Type) where
  | entry (e : E)
  | callbackEntry (delay i t : Nat) (entryPtr : EntryPtr E)
  deriving DecidableEq, Repr

/-- The caller's entry that a pointer keeps alive. -/
def EntryPtr.target {E : Type} : EntryPtr E → E
  | .entry e => e
  | .callbackEntry _ _ _ p => p.target

/-- A wheel. Its fields say what the constructor's asserts and `resize`
calls establish: every queue has `bucketsNumPerQueue` buckets. -/
structure TimingWheel (E : Type) where
  bucketsNumPerQueue : Nat
  ticksCounter : Nat
  taskQueues : List (List (List (EntryPtr E)))
  one_lt_buckets : 1 < bucketsNumPerQueue
  length_queue : ∀ q ∈ taskQueues, q.length = bucketsNumPerQueue

namespace TimingWheel

variable {E : Type}

/-- The `while` loop of the constructor, with its counters `m_QueueNum`
and `ticksNum`. The product grows with each round, so `maxTickNum` rounds
are enough. -/
def sizingLoop (B maxTickNum : Nat) : Nat → Nat → Nat → Nat
  | 0, queueNum, _ => queueNum
  | fuel + 1, queueNum, ticksNum =>
      if maxTickNum > ticksNum then sizingLoop B maxTickNum fuel (queueNum + 1) (ticksNum * B)
      else queueNum

/-- The number of queues of a wheel for timeouts up to `maxTimeout`. -/
def sizing (maxTimeout B : Nat) : Nat :=
  sizingLoop B (toFloat maxTimeout) (toFloat maxTimeout) 1 B

/-- The constructor; `hB` is its assert on the number of buckets. -/
def new (E : Type) (maxTimeout B : Nat) (hB : 1 < B) : TimingWheel E where
  bucketsNumPerQueue := B
  ticksCounter := 0
  taskQueues := List.replicate (sizing maxTimeout B) (List.replicate B [])
  one_lt_buckets := hB
  length_queue := by
    intro q hq
    rw [List.eq_of_mem_replicate hq, List.length_replicate]

def queueNum (w : TimingWheel E) : Nat := w.taskQueues.length

/-- `m_taskQueues[i][slot]`. -/
def bucket (w : TimingWheel E) (i slot : Nat) : List (EntryPtr E) :=
  (w.taskQueues.getD i []).getD slot []

/-- The wheel keeps `e` alive. -/
def Holds (w : TimingWheel E) (e : E) : Prop :=
  ∃ q ∈ w.taskQueues, ∃ b ∈ q, ∃ p ∈ b, p.target = e

instance [DecidableEq E] (w : TimingWheel E) (e : E) : Decidable (w.Holds e) :=
  inferInstanceAs (Decidable (∃ q ∈ w.taskQueues, ∃ b ∈ q, ∃ p ∈ b, p.target = e))

/-- Replacing one queue by one of the same length. -/
def modifyQueue (w : TimingWheel E) (i : Nat)
    (f : List (List (EntryPtr E)) → List (List (EntryPtr E)))
    (hf : ∀ q, q.length = w.bucketsNumPerQueue → (f q).length = w.bucketsNumPerQueue) :
    TimingWheel E :=
  { w with
    taskQueues := w.taskQueues.modify i f
    length_queue := by
      intro q hq
      obtain ⟨k, hk⟩ := List.mem_iff_getElem?.mp hq
      rw [List.getElem?_modify] at hk
      obtain ⟨q', hq', rfl⟩ := Option.map_eq_some_iff.mp hk
      have hlen := w.length_queue q' (List.mem_of_getElem? hq')
      by_cases hik : i = k
      · simpa [hik] using hf q' hlen
      · simpa [hik] using hlen }

section Insert

variable [DecidableEq E]

/-- `m_taskQueues[i][slot].insert(entryPtr)`. -/
def insertAt (w : TimingWheel E) (i slot : Nat) (p : EntryPtr E) : TimingWheel E :=
  w.modifyQueue i (fun q => q.modify slot (List.insert p)) (by simp)

/-- The slot a `CallbackEntry` re-inserts at. -/
def callbackSlot (B delay t : Nat) : Nat := addSz delay (t % B) % B

/-- What the destructor of the object behind `p` does to the wheel. -/
def destruct (w : TimingWheel E) : EntryPtr E → TimingWheel E
  | .entry _ => w
  | .callbackEntry delay i t p =>
      if delay > 0 then w.insertAt i (callbackSlot w.bucketsNumPerQueue delay t) p else w

/-- The loop of `insertEntryInLoop` with `rem` queues still to visit. -/
def insertLoop (w : TimingWheel E) : (rem i delay t : Nat) → EntryPtr E → TimingWheel E
  | 0, _, _, _, _ => w
  | rem + 1, i, delay, t, p =>
      if delay ≤ w.bucketsNumPerQueue then w.insertAt i (subSz delay 1) p
      else if i < w.queueNum - 1 then
        w.insertLoop rem (i + 1)
          (subSz (addSz delay (t % w.bucketsNumPerQueue)) 1 / w.bucketsNumPerQueue)
          (t / w.bucketsNumPerQueue) (.callbackEntry delay i t p)
      else
        -- the delay is too long for the wheel; this was the last queue
        w.insertAt i (w.bucketsNumPerQueue - 1) p

/-- The rotations that a delay needs; with an interval of one second the
remainder that would add one is always zero. -/
def rotations (delay : Nat) : Nat := toFloat delay + if delay % 1 = 0 then 0 else 1

def insertEntryInLoop (w : TimingWheel E) (delay : Nat) (e : E) : TimingWheel E :=
  w.insertLoop w.queueNum 0 (rotations delay) w.ticksCounter (.entry e)

/-- `insertEntry`, which in the loop's thread calls `insertEntryInLoop`. -/
def insertEntry (w : TimingWheel E) (delay : Nat) (e : E) : TimingWheel E :=
  if delay = 0 then w else w.insertEntryInLoop delay e

/-- Advance queue `i`: its front bucket is swapped out, an empty bucket is
appended, and then the pointers of the old front bucket are dropped. -/
def rotate (w : TimingWheel E) (i : Nat) : TimingWheel E :=
  (w.bucket i 0).foldl destruct
    (w.modifyQueue i (fun q => q.tail ++ [[]]) (by
      intro q hq
      have := w.one_lt_buckets
      simp only [List.length_append, List.length_tail, List.length_singleton]
      omega))

/-- The loop of the tick callback with `rem` queues still to visit. -/
def tickLoop (t : Nat) : (rem i pow : Nat) → TimingWheel E → TimingWheel E
  | 0, _, _, w => w
  | rem + 1, i, pow, w =>
      tickLoop t rem (i + 1) (pow * w.bucketsNumPerQueue)
        (if t % pow = 0 then w.rotate i else w)

/-- The tick callback. -/
def tick (w : TimingWheel E) : TimingWheel E :=
  tickLoop (w.ticksCounter + 1) w.queueNum 0 1 { w with ticksCounter := w.ticksCounter + 1 }

end Insert

end TimingWheel

/-! ## Runs of a wheel -/

/-- What happens to a wheel: a tick, or an insertion by any caller. -/
inductive WheelAct (E : Type) where
  | tick
  | insertEntry (delay : Nat) (e : E)

/-- The action gives the wheel a reference to `e`. -/
def WheelAct.Inserts {E : Type} (e : E) : WheelAct E → Prop
  | .tick => False
  | .insertEntry _ e' => e' = e

def TimingWheel.exec {E : Type} [DecidableEq E] (w : TimingWheel E) :
    WheelAct E → TimingWheel E
  | .tick => w.tick
  | .insertEntry delay e => w.insertEntry delay e

/-- The step relation of a wheel: every action has exactly one outcome. -/
def WheelStep {E : Type} [DecidableEq E] (w : TimingWheel E) (a : WheelAct E)
    (w' : TimingWheel E) : Prop := w.exec a = w'

end Netpoll
