import Netpoll.WheelRelease

/-!
# Destroying a wheel

`~TimingWheel` clears its queues from the coarsest to the finest. Clearing
a queue drops the pointers of its buckets; a `CallbackEntry` that is
dropped re-inserts what it holds, through `m_taskQueues`, into a queue of
the wheel that is being destroyed. While that happens the queues are not
those of a `TimingWheel` any more, some of them having lost their buckets,
so the destructor has a state of its own (`Teardown`), in which indexing a
queue without all its buckets is a fault.

A wheel is filled with any numbers of ticks, so that what follows does not
depend on how a delay is converted to them.
-/

namespace Netpoll

/-- The wheel in its destructor: the queues, and the entries of callers
that were released so far. -/
structure Teardown (E : Type) where
  queues : List (List (List (EntryPtr E)))
  released : List E

namespace Teardown

variable {E : Type}

def queue (s : Teardown E) (i : Nat) : List (List (EntryPtr E)) := s.queues.getD i []

section Steps

variable [DecidableEq E]

/-- `m_taskQueues[i][slot].insert(p)`. -/
def insertAt (s : Teardown E) (i slot : Nat) (p : EntryPtr E) : Teardown E :=
  { s with queues := s.queues.set i ((s.queue i).modify slot (List.insert p)) }

/-- The last reference to the object behind a pointer is gone. -/
def drop (B : Nat) (s : Teardown E) : EntryPtr E → Except Fault (Teardown E)
  | .entry e => .ok { s with released := s.released ++ [e] }
  | .callbackEntry delay i t p =>
      if delay > 0 then
        let slot := TimingWheel.callbackSlot B delay t
        if (s.queue i).length = B ∧ slot < B then .ok (s.insertAt i slot p)
        else .error .outOfBounds
      else s.drop B p

/-- `clear` of queue `k`. The queue is not usable from the first bucket on
that is destroyed. -/
def clear (B : Nat) (s : Teardown E) (k : Nat) : Except Fault (Teardown E) :=
  (s.queue k).flatten.foldlM (drop B) { s with queues := s.queues.set k [] }

/-- The loop from `rbegin` to `rend`, with the queues below `k` still to clear. -/
def clearFrom (B : Nat) : Nat → Teardown E → Except Fault (Teardown E)
  | 0, s => .ok s
  | k + 1, s => do clearFrom B k (← s.clear B k)

end Steps

end Teardown

namespace TimingWheel

variable {E : Type} [DecidableEq E]

/-- `~TimingWheel`. The tick timer is cancelled first, so no tick comes in between. -/
def destructor (w : TimingWheel E) : Except Fault (Teardown E) :=
  Teardown.clearFrom w.bucketsNumPerQueue w.queueNum ⟨w.taskQueues, []⟩

end TimingWheel

/-! ## Wheels with any contents -/

inductive FillAct (E : Type) where
  | tick
  /-- The loop of `insertEntryInLoop`, for a delay of so many ticks. -/
  | insertTicks (ticks : Nat) (e : E)

namespace TimingWheel

variable {E : Type}

/-- A wheel of `Q` queues with empty buckets, at tick `T`. -/
def blank (E : Type) (Q B T : Nat) (hB : 1 < B) : TimingWheel E where
  bucketsNumPerQueue := B
  ticksCounter := T
  taskQueues := List.replicate Q (List.replicate B [])
  one_lt_buckets := hB
  length_queue := by
    intro q hq
    rw [List.eq_of_mem_replicate hq, List.length_replicate]

variable [DecidableEq E]

def fill (w : TimingWheel E) : FillAct E → TimingWheel E
  | .tick => w.tick
  | .insertTicks ticks e => w.insertLoop w.queueNum 0 ticks w.ticksCounter (.entry e)

def FillStep (w : TimingWheel E) (a : FillAct E) (w' : TimingWheel E) : Prop := w.fill a = w'

/-- What callers make of a constructed wheel is such a wheel. -/
theorem fill_of_run {maxTimeout B : Nat} {hB : 1 < B} {ls : List (WheelAct E)} {w : TimingWheel E}
    (hrun : Run WheelStep (new E maxTimeout B hB) ls w) :
    ∃ acts, Run FillStep (blank E (sizing maxTimeout B) B 0 hB) acts w := by
  induction hrun with
  | nil => exact ⟨[], .nil _⟩
  | @snoc w _ _ a _ hstep ih =>
      obtain ⟨acts, hacts⟩ := ih
      subst hstep
      cases a with
      | tick => exact ⟨_, hacts.snoc (show FillStep w .tick _ from rfl)⟩
      | insertEntry delay e =>
          rw [exec, insertEntry]
          split
          · exact ⟨acts, hacts⟩
          · exact ⟨_, hacts.snoc (show FillStep w (.insertTicks (rotations delay) e) _ from rfl)⟩

/-! ## Which queue an entry points to -/

/-- Every pointer is one for the queue it is in. -/
def Stacked (w : TimingWheel E) : Prop := ∀ j r p, p ∈ w.bucket j r → p.Nested j

omit [DecidableEq E] in
theorem Stacked.blank (Q B T : Nat) (hB : 1 < B) : (blank E Q B T hB).Stacked := by
  intro j r p hp
  rw [bucket, TimingWheel.blank, List.getD_eq_getElem?_getD, List.getD_eq_getElem?_getD,
    List.getElem?_replicate] at hp
  split at hp
  · rw [Option.getD_some, List.getElem?_replicate] at hp
    split at hp <;> cases hp
  · simp at hp

variable {w : TimingWheel E}

theorem Stacked.insertAt (h : w.Stacked) {i slot : Nat} {p : EntryPtr E} (hp : p.Nested i) :
    (w.insertAt i slot p).Stacked := by
  intro j r q hq
  rcases mem_bucket_insertAt.mp hq with hq | ⟨rfl, rfl, -⟩
  · exact h j r q hq
  · exact hp

theorem Stacked.rotate (h : w.Stacked) {i : Nat} (hi : i < w.queueNum) : (w.rotate i).Stacked := by
  intro j r q hq
  rcases (mem_bucket_rotate hi).mp hq with hq | ⟨delay, t, hmem, -⟩
  · exact h j _ q hq
  · obtain ⟨-, -, hnest⟩ := h i 0 _ hmem
    exact hnest

theorem Stacked.tickLoop (h : w.Stacked) (t rem i pow : Nat) (hi : i + rem ≤ w.queueNum) :
    (tickLoop t rem i pow w).Stacked := by
  induction rem generalizing i pow w with
  | zero => exact h
  | succ rem ih =>
      rw [TimingWheel.tickLoop]
      split
      · exact ih (h.rotate (by omega)) _ _ (by rw [queueNum_rotate]; omega)
      · exact ih h _ _ (by omega)

theorem Stacked.insertLoop (h : w.Stacked) (rem i delay t : Nat) {p : EntryPtr E}
    (hp : p.Nested i) : (w.insertLoop rem i delay t p).Stacked := by
  induction rem generalizing i delay t p with
  | zero => exact h
  | succ rem ih =>
      rw [TimingWheel.insertLoop]
      split_ifs with hround
      · exact h.insertAt hp
      · have hpos : 0 < delay := by omega
        exact ih _ _ _ ⟨hpos, rfl, hp⟩
      · exact h.insertAt hp

theorem Stacked.fill (h : w.Stacked) (a : FillAct E) : (w.fill a).Stacked := by
  cases a with
  | tick =>
      let w₀ : TimingWheel E := { w with ticksCounter := w.ticksCounter + 1 }
      have h₀ : w₀.Stacked := h
      exact h₀.tickLoop _ _ _ _ (by rw [Nat.zero_add]; exact le_rfl)
  | insertTicks ticks e => exact h.insertLoop _ _ _ _ trivial

end TimingWheel

/-! ## Clearing -/

namespace Teardown

variable {E : Type} {s : Teardown E} {B k : Nat} {e : E}

/-- The queues from `k` on are cleared, the others have all their buckets. -/
structure Clearing (B k : Nat) (s : Teardown E) : Prop where
  buckets : ∀ i, (s.queue i).length = if i < k then B else 0
  nested : ∀ i, ∀ p ∈ (s.queue i).flatten, p.Nested i

/-- `e` was released, or a bucket keeps it alive. -/
def Keeps (s : Teardown E) (e : E) : Prop :=
  e ∈ s.released ∨ ∃ i, ∃ p ∈ (s.queue i).flatten, p.target = e

theorem queue_set (i : Nat) (q : List (List (EntryPtr E))) (hi : i < s.queues.length) (j : Nat) :
    ({ s with queues := s.queues.set i q } : Teardown E).queue j =
      if j = i then q else s.queue j := by
  by_cases hj : j = i
  · subst hj
    simp [queue, List.getD_eq_getElem?_getD, hi]
  · simp [queue, List.getD_eq_getElem?_getD, hj, Ne.symm hj]

theorem Clearing.lt_length (h : Clearing B k s) (hB : 0 < B) {i : Nat} (hi : i < k) :
    i < s.queues.length := by
  by_contra hge
  have hlen := h.buckets i
  rw [if_pos hi, queue, List.getD_eq_getElem?_getD, List.getElem?_eq_none (by omega)] at hlen
  exact absurd hlen (by simp; omega)

variable [DecidableEq E]

theorem mem_flatten_modify_insert {q : List (List (EntryPtr E))} {slot : Nat} {p p' : EntryPtr E}
    (hslot : slot < q.length) :
    p' ∈ (q.modify slot (List.insert p)).flatten ↔ p' = p ∨ p' ∈ q.flatten := by
  induction q generalizing slot with
  | nil => cases hslot
  | cons b q ih =>
      cases slot with
      | zero => simp [or_assoc]
      | succ slot =>
          have hrest := ih (Nat.lt_of_succ_lt_succ hslot)
          rw [List.modify_succ_cons, List.flatten_cons, List.flatten_cons, List.mem_append,
            List.mem_append, hrest, or_left_comm]

theorem length_queue_insertAt (s : Teardown E) (i slot j : Nat) (p : EntryPtr E) :
    ((s.insertAt i slot p).queue j).length = (s.queue j).length := by
  by_cases hi : i < s.queues.length
  · rw [insertAt, queue_set _ _ hi]
    split
    case isTrue hj => rw [List.length_modify, hj]
    case isFalse => rfl
  · rw [insertAt, List.set_eq_of_length_le (not_lt.mp hi)]

theorem mem_queue_insertAt {i slot j : Nat} {p p' : EntryPtr E}
    (hslot : slot < (s.queue i).length) :
    p' ∈ ((s.insertAt i slot p).queue j).flatten ↔
      (p' = p ∧ j = i) ∨ p' ∈ (s.queue j).flatten := by
  have hi : i < s.queues.length := by
    by_contra hge
    rw [queue, List.getD_eq_getElem?_getD, List.getElem?_eq_none (by omega)] at hslot
    cases hslot
  rw [insertAt, queue_set _ _ hi]
  split
  case isTrue hj => rw [mem_flatten_modify_insert hslot, hj, and_iff_left rfl]
  case isFalse hj => simp [hj]

/-- Dropping a pointer of queue `k` runs into no fault, and hands what it
keeps alive to a finer queue or to the caller. -/
theorem Clearing.drop (h : Clearing B k s) (hB : 1 < B) {p : EntryPtr E} (hp : p.Nested k) :
    ∃ s', s.drop B p = .ok s' ∧ Clearing B k s' ∧ ∀ e, s'.Keeps e ↔ p.target = e ∨ s.Keeps e := by
  cases p with
  | entry e' =>
      refine ⟨_, rfl, ⟨h.buckets, h.nested⟩, fun e => ?_⟩
      simp only [Keeps, List.mem_append, List.mem_singleton, EntryPtr.target, queue]
      rw [or_right_comm, or_comm (b := e = e'), eq_comm]
  | callbackEntry delay i t p =>
      obtain ⟨hd, rfl, hnest⟩ := hp
      have hlen : (s.queue i).length = B := by rw [h.buckets i, if_pos (Nat.lt_succ_self i)]
      have hslot : TimingWheel.callbackSlot B delay t < B := Nat.mod_lt _ (by omega)
      have hin := hslot.trans_eq hlen.symm
      refine ⟨_, by rw [Teardown.drop, if_pos hd, if_pos ⟨hlen, hslot⟩], ⟨fun j => ?_, ?_⟩, ?_⟩
      · rw [length_queue_insertAt, h.buckets j]
      · intro j p' hp'
        rcases (mem_queue_insertAt hin).mp hp' with ⟨rfl, rfl⟩ | hp'
        · exact hnest
        · exact h.nested j p' hp'
      · intro e
        simp only [Keeps, mem_queue_insertAt hin, EntryPtr.target]
        constructor
        · rintro (hrel | ⟨j, p', ⟨rfl, rfl⟩ | hp', rfl⟩)
          · exact Or.inr (Or.inl hrel)
          · exact Or.inl rfl
          · exact Or.inr (Or.inr ⟨j, p', hp', rfl⟩)
        · rintro (rfl | hrel | ⟨j, p', hp', rfl⟩)
          · exact Or.inr ⟨i, p, Or.inl ⟨rfl, rfl⟩, rfl⟩
          · exact Or.inl hrel
          · exact Or.inr ⟨j, p', Or.inr hp', rfl⟩

theorem Clearing.dropAll (h : Clearing B k s) (hB : 1 < B) {l : List (EntryPtr E)}
    (hl : ∀ p ∈ l, p.Nested k) :
    ∃ s', l.foldlM (Teardown.drop B) s = .ok s' ∧ Clearing B k s' ∧
      ∀ e, s'.Keeps e ↔ (∃ p ∈ l, p.target = e) ∨ s.Keeps e := by
  induction l generalizing s with
  | nil => exact ⟨s, rfl, h, fun e => by simp⟩
  | cons p l ih =>
      obtain ⟨hp, hl⟩ := List.forall_mem_cons.mp hl
      obtain ⟨s₁, hdrop, h₁, hkeeps₁⟩ := h.drop hB hp
      obtain ⟨s', hrest, h', hkeeps⟩ := ih h₁ hl
      refine ⟨s', by rw [List.foldlM_cons, hdrop]; exact hrest, h', fun e => ?_⟩
      rw [hkeeps, hkeeps₁, List.exists_mem_cons_iff, ← or_assoc, or_comm (b := p.target = e)]

theorem Clearing.clear (h : Clearing B (k + 1) s) (hB : 1 < B) :
    ∃ s', s.clear B k = .ok s' ∧ Clearing B k s' ∧ ∀ e, s'.Keeps e ↔ s.Keeps e := by
  have hset := queue_set k [] (h.lt_length (by omega) (Nat.lt_succ_self k))
  have h₀ : Clearing B k { s with queues := s.queues.set k [] } := by
    refine ⟨fun i => ?_, fun i p hp => ?_⟩
    · have hlen := h.buckets i
      rw [hset i]
      split
      case isTrue hi => rw [List.length_nil, if_neg (by omega)]
      case isFalse hi =>
        rw [hlen]
        exact if_congr (by omega) rfl rfl
    · rw [hset i] at hp
      split at hp
      · cases hp
      · exact h.nested i p hp
  obtain ⟨s', hdrops, h', hkeeps⟩ := h₀.dropAll hB (h.nested k)
  refine ⟨s', hdrops, h', fun e => (hkeeps e).trans ?_⟩
  simp only [Keeps, hset]
  rw [or_left_comm]
  refine or_congr_right ⟨?_, ?_⟩
  · rintro (⟨p, hp, rfl⟩ | ⟨i, p, hp, rfl⟩)
    · exact ⟨k, p, hp, rfl⟩
    · split at hp
      · cases hp
      · exact ⟨i, p, hp, rfl⟩
  · rintro ⟨i, p, hp, rfl⟩
    by_cases hi : i = k
    · exact Or.inl ⟨p, hi ▸ hp, rfl⟩
    · exact Or.inr ⟨i, p, by rwa [if_neg hi], rfl⟩

/-- By induction on the queues that are left: each `clear` finds the
queues below its own complete. -/
theorem Clearing.clearFrom (h : Clearing B k s) (hB : 1 < B) :
    ∃ s', Teardown.clearFrom B k s = .ok s' ∧ Clearing B 0 s' ∧ ∀ e, s'.Keeps e ↔ s.Keeps e := by
  induction k generalizing s with
  | zero => exact ⟨s, rfl, h, fun e => Iff.rfl⟩
  | succ k ih =>
      obtain ⟨s₁, hclear, h₁, hkeeps₁⟩ := h.clear hB
      obtain ⟨s', hrest, h', hkeeps⟩ := ih h₁
      refine ⟨s', by rw [Teardown.clearFrom, hclear]; exact hrest, h', fun e => ?_⟩
      rw [hkeeps, hkeeps₁]

omit [DecidableEq E] in
theorem Clearing.queue_eq_nil (h : Clearing B 0 s) (i : Nat) : s.queue i = [] := by
  have hlen := h.buckets i
  rw [if_neg (Nat.not_lt_zero i)] at hlen
  exact List.length_eq_zero_iff.mp hlen

omit [DecidableEq E] in
theorem Clearing.eq_nil_of_mem (h : Clearing B 0 s) : ∀ q ∈ s.queues, q = [] := by
  intro q hq
  obtain ⟨i, hi⟩ := List.mem_iff_getElem?.mp hq
  have hnil := h.queue_eq_nil i
  rwa [queue, List.getD_eq_getElem?_getD, hi, Option.getD_some] at hnil

omit [DecidableEq E] in
theorem Clearing.keeps_iff (h : Clearing B 0 s) : s.Keeps e ↔ e ∈ s.released := by
  simp [Keeps, h.queue_eq_nil]

end Teardown

namespace TimingWheel

variable {E : Type} {w : TimingWheel E}

theorem mem_flatten_iff {i : Nat} {p : EntryPtr E} :
    p ∈ (w.taskQueues.getD i []).flatten ↔ ∃ r, p ∈ w.bucket i r := by
  rw [List.mem_flatten]
  constructor
  · rintro ⟨b, hb, hp⟩
    obtain ⟨r, hr⟩ := List.mem_iff_getElem?.mp hb
    exact ⟨r, by rwa [bucket, List.getD_eq_getElem?_getD, hr]⟩
  · rintro ⟨r, hp⟩
    rw [bucket, List.getD_eq_getElem?_getD] at hp
    cases hr : (w.taskQueues.getD i [])[r]? with
    | none =>
        rw [hr] at hp
        cases hp
    | some b => exact ⟨b, List.mem_of_getElem? hr, by rwa [hr] at hp⟩

theorem Stacked.clearing (h : w.Stacked) :
    Teardown.Clearing w.bucketsNumPerQueue w.queueNum ⟨w.taskQueues, []⟩ where
  buckets i := by
    split
    case isTrue hi => exact length_getD hi
    case isFalse hi =>
      rw [Teardown.queue, List.getD_eq_getElem?_getD, List.getElem?_eq_none (not_lt.mp hi)]
      rfl
  nested i p hp := by
    obtain ⟨r, hr⟩ := mem_flatten_iff.mp hp
    exact h i r p hr

theorem keeps_iff_holds {e : E} : (⟨w.taskQueues, []⟩ : Teardown E).Keeps e ↔ w.Holds e := by
  simp only [Teardown.Keeps, Teardown.queue, mem_flatten_iff, holds_iff, List.not_mem_nil, false_or]
  constructor
  · rintro ⟨i, p, ⟨r, hp⟩, rfl⟩
    exact ⟨i, r, p, hp, rfl⟩
  · rintro ⟨i, r, p, hp, rfl⟩
    exact ⟨i, p, ⟨r, hp⟩, rfl⟩

variable [DecidableEq E]

/-- `~TimingWheel` of a wheel with any contents: no `CallbackEntry` runs
into a queue that has lost its buckets, the entries released are those
that the wheel kept alive, and no bucket is left. -/
theorem destructor_releases {Q B T : Nat} {hB : 1 < B} {acts : List (FillAct E)}
    (hrun : Run FillStep (blank E Q B T hB) acts w) :
    ∃ s, w.destructor = .ok s ∧ (∀ q ∈ s.queues, q = []) ∧ ∀ e, e ∈ s.released ↔ w.Holds e := by
  have hstacked : w.Stacked := by
    refine hrun.invariant ?_ (Stacked.blank Q B T hB)
    rintro w a _ h rfl
    exact h.fill a
  obtain ⟨s, hs, hclear, hkeeps⟩ := hstacked.clearing.clearFrom w.one_lt_buckets
  refine ⟨s, hs, hclear.eq_nil_of_mem, fun e => ?_⟩
  rw [← hclear.keeps_iff, hkeeps, keeps_iff_holds]

/-- Three queues of two buckets: entry 0 is released by the tick, entry 1 by
the destructor after two cascades, and entry 2 without any. -/
theorem destructor_releases_two :
    let w := ((blank Nat 3 2 0 (by decide)).fill (.insertTicks 1 0)).tick.fill (.insertTicks 8 1)
      |>.fill (.insertTicks 2 2)
    (∃ s, w.destructor = .ok s ∧ (∀ q ∈ s.queues, q = []) ∧ ∀ e, e ∈ s.released ↔ w.Holds e) ∧
      w.destructor.toOption.map Teardown.released = some [1, 2] := by
  have hrun : Run FillStep (blank Nat 3 2 0 (by decide))
      [.insertTicks 1 0, .tick, .insertTicks 8 1, .insertTicks 2 2] _ :=
    .cons rfl (.cons rfl (.cons rfl (.cons rfl (.nil _))))
  exact ⟨destructor_releases hrun, by decide +kernel⟩

end TimingWheel

end Netpoll
