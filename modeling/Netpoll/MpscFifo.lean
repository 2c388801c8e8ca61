import Netpoll.MpscQueue

/-!
# The queue refines a FIFO queue

`Rep` sees the pieces of the list as one: it names the node of each
exchange, from the one that `tail_` points to on, and says that each is
linked to the next unless the producer between them has not stored the
link yet. Every step of every thread keeps it (one lemma per step), and it
gives what the consumer may see when it looks for the next item.

`abs` is the abstract queue that a state stands for, and `Rep.refines` says
that each step does to it what takes effect with the step: the exchange adds
the item, the store of `next_` makes it visible, the store of `tail_` takes
it out, a load of `next_` that ends a call tests for it, and the other steps
leave the queue and the results alone.
-/

namespace Netpoll

namespace MpscQueue

variable {T α : Type*}

/-! ## The pieces as one list -/

def nextOf (s : MpscQueue T α) (a : Nat) : Option (Option Nat) := (s.heap a).map QueueNode.next

def dataOf (s : MpscQueue T α) (a : Nat) : Option α := (s.heap a).bind QueueNode.data

/-- What the consumer knows, by stage. -/
def ConsumerOk (s : MpscQueue T α) (addr : Nat → Nat) : ConsumerStage α → Prop
  | .idle => True
  | .loadedTail _ a => a = addr s.past
  | .loadedNext a b =>
    a = addr s.past ∧ b = addr (s.past + 1) ∧ s.past < s.order.length ∧ ¬ s.Linking s.past
  | .moved a b x =>
    a = addr s.past ∧ b = addr (s.past + 1) ∧ ¬ s.Linking s.past ∧
      ∃ t, s.order[s.past]? = some (t, x)
  | .stored a x =>
    (s.heap a).isSome ∧ (∀ k, s.past ≤ k → k ≤ s.order.length → addr k ≠ a) ∧
      (∀ t b y, s.producer t = .allocated b y → b ≠ a) ∧
      ∃ t, s.order[s.returned.length]? = some (t, x)

/-- The payload of the next item was moved out. -/
def Moved (s : MpscQueue T α) : Prop := ∃ a b x, s.consumer = .moved a b x

/-- The node of the `k`-th exchange is `addr (k + 1)`. The nodes from the
tail on form one list in the order of the exchanges, except that the link
behind the `k`-th one is missing as long as the producer has not stored it. -/
structure Rep (s : MpscQueue T α) (addr : Nat → Nat) : Prop where
  le : s.past ≤ s.order.length
  inj : ∀ i j, s.past ≤ i → i ≤ s.order.length → s.past ≤ j → j ≤ s.order.length →
    addr i = addr j → i = j
  tail : s.tail = addr s.past
  head : s.head = addr s.order.length
  linked : ∀ k, s.past ≤ k → k < s.order.length → ¬ s.Linking k →
    s.nextOf (addr k) = some (some (addr (k + 1)))
  unlinked : ∀ k, s.past ≤ k → k ≤ s.order.length → k = s.order.length ∨ s.Linking k →
    s.nextOf (addr k) = some none
  data : ∀ k t x, s.past ≤ k → s.order[k]? = some (t, x) → (k = s.past → ¬ s.Moved) →
    s.dataOf (addr (k + 1)) = some x
  allocated : ∀ t a x, s.producer t = .allocated a x →
    s.heap a = some ⟨some x, none⟩ ∧ ∀ k, s.past ≤ k → k ≤ s.order.length → addr k ≠ a
  apart : ∀ t u a x y, s.producer t = .allocated a x → s.producer u = .allocated a y → t = u
  exchanged : ∀ t a p k, s.producer t = .exchanged a p k →
    s.past ≤ k ∧ p = addr k ∧ a = addr (k + 1) ∧ ∃ x, s.order[k]? = some (t, x)
  consumer : s.ConsumerOk addr s.consumer
  returned : s.returned <+: s.order.map Prod.snd

variable {s s' : MpscQueue T α} {addr : Nat → Nat}

/-- Two producers do not work on the same link. -/
theorem Rep.exchanged_inj (h : Rep s addr) {t u : T} {a b p q k : Nat}
    (ht : s.producer t = .exchanged a p k) (hu : s.producer u = .exchanged b q k) : t = u := by
  obtain ⟨-, -, -, x, hx⟩ := h.exchanged t a p k ht
  obtain ⟨-, -, -, y, hy⟩ := h.exchanged u b q k hu
  rw [hx] at hy
  exact (Prod.mk.inj (Option.some.inj hy)).1

theorem Rep.isSome_addr (h : Rep s addr) {k : Nat} (hp : s.past ≤ k)
    (hk : k ≤ s.order.length) : (s.heap (addr k)).isSome := by
  have hnext : (s.nextOf (addr k)).isSome := by
    by_cases hlink : k = s.order.length ∨ s.Linking k
    · rw [h.unlinked k hp hk hlink]
      rfl
    · rw [not_or] at hlink
      rw [h.linked k hp (lt_of_le_of_ne hk hlink.1) hlink.2]
      rfl
  simpa [nextOf] using hnext

/-- The consumer finds no next node exactly if there is no next item, or its
producer is still to store the link. -/
theorem Rep.nextOf_eq_none (h : Rep s addr) :
    s.nextOf (addr s.past) = some none ↔ s.past = s.order.length ∨ s.Linking s.past := by
  by_cases hlink : s.past = s.order.length ∨ s.Linking s.past
  · exact iff_of_true (h.unlinked _ le_rfl h.le hlink) hlink
  · have hlt : s.past < s.order.length := lt_of_le_of_ne h.le (not_or.mp hlink).1
    rw [h.linked _ le_rfl hlt (not_or.mp hlink).2]
    exact iff_of_false (by simp) hlink

/-! ## Steps of the consumer -/

theorem Rep.setConsumer (h : Rep s addr) {c : ConsumerStage α} {rs : List (FifoResult α)}
    (hreturned : rs.filterMap FifoResult.output? = s.returned)
    (hpast : { s with consumer := c, results := rs }.past = s.past)
    (hmoved : s.Moved → { s with consumer := c, results := rs }.Moved)
    (hc : { s with consumer := c, results := rs }.ConsumerOk addr c) :
    Rep { s with consumer := c, results := rs } addr where
  le := hpast ▸ h.le
  inj := hpast ▸ h.inj
  tail := hpast ▸ h.tail
  head := h.head
  linked := hpast ▸ h.linked
  unlinked := hpast ▸ h.unlinked
  data := by
    intro k t x hk hx hm
    rw [hpast] at hk hm
    exact h.data k t x hk hx fun heq hs => hm heq (hmoved hs)
  allocated := hpast ▸ h.allocated
  apart := h.apart
  exchanged := hpast ▸ h.exchanged
  consumer := hc
  returned := by
    change rs.filterMap FifoResult.output? <+: _
    rw [hreturned]
    exact h.returned

theorem Rep.loadTail (h : Rep s addr) (call : ConsumerCall) (hidle : s.consumer = .idle) :
    Rep { s with consumer := .loadedTail call s.tail } addr := by
  have hpast : { s with consumer := .loadedTail call s.tail }.past = s.past := by
    simp [past, MpscQueue.returned, hidle]
  refine h.setConsumer rfl hpast ?_ ?_
  · rintro ⟨a, b, x, hm⟩
    rw [hidle] at hm
    cases hm
  · change s.tail = addr _
    rw [hpast]
    exact h.tail

theorem Rep.loadNext (h : Rep s addr) {a b : Nat} (hc : s.consumer = .loadedTail .dequeue a)
    (hb : s.nextOf a = some (some b)) : Rep { s with consumer := .loadedNext a b } addr := by
  have hpast : { s with consumer := .loadedNext a b }.past = s.past := by
    simp [past, MpscQueue.returned, hc]
  refine h.setConsumer rfl hpast ?_ ?_
  · rintro ⟨a, b, x, hm⟩
    rw [hc] at hm
    cases hm
  · obtain rfl : s.ConsumerOk addr (.loadedTail .dequeue a) := hc ▸ h.consumer
    -- the link was there, so there is an item behind it
    have hlink : ¬ (s.past = s.order.length ∨ s.Linking s.past) := by
      rw [← h.nextOf_eq_none, hb]
      simp
    rw [not_or] at hlink
    have hlt := lt_of_le_of_ne h.le hlink.1
    rw [h.linked _ le_rfl hlt hlink.2] at hb
    obtain rfl := Option.some.inj (Option.some.inj hb)
    change addr s.past = addr _ ∧ _ = addr (_ + 1) ∧ _
    rw [hpast]
    exact ⟨rfl, rfl, hlt, hlink.2⟩

theorem Rep.back (h : Rep s addr) {call : ConsumerCall} {a : Nat}
    (hc : s.consumer = .loadedTail call a) {r : FifoResult α} (hr : r.output? = none) :
    Rep { s with consumer := .idle, results := s.results ++ [r] } addr := by
  have hreturned : (s.results ++ [r]).filterMap FifoResult.output? = s.returned := by
    simp [MpscQueue.returned, hr]
  refine h.setConsumer hreturned ?_ ?_ trivial
  · simp only [past, hc]
    exact congrArg List.length hreturned
  · rintro ⟨a, b, x, hm⟩
    rw [hc] at hm
    cases hm

theorem nextOf_setNode (s : MpscQueue T α) (a b : Nat) (node : Option (QueueNode α)) :
    (s.setNode a node).nextOf b = if b = a then node.map QueueNode.next else s.nextOf b := by
  unfold nextOf setNode
  by_cases hb : b = a
  · simp [hb]
  · simp [hb]

theorem dataOf_setNode (s : MpscQueue T α) (a b : Nat) (node : Option (QueueNode α)) :
    (s.setNode a node).dataOf b = if b = a then node.bind QueueNode.data else s.dataOf b := by
  unfold dataOf setNode
  by_cases hb : b = a
  · simp [hb]
  · simp [hb]

theorem Rep.move (h : Rep s addr) {a b : Nat} {x : α} {next : Option Nat}
    (hc : s.consumer = .loadedNext a b) (hb : s.heap b = some ⟨some x, next⟩) :
    Rep { s.setNode b (some ⟨none, next⟩) with consumer := .moved a b x } addr := by
  have hreturned : s.past = s.returned.length := by simp [past, hc]
  obtain ⟨ha, rfl, hlt, hlink⟩ : s.ConsumerOk addr (.loadedNext a b) := hc ▸ h.consumer
  have hpast : { s.setNode (addr (s.past + 1)) (some ⟨none, next⟩) with
      consumer := .moved a (addr (s.past + 1)) x }.past = s.past := hreturned.symm
  have hnext : ∀ c, (s.setNode (addr (s.past + 1)) (some ⟨none, next⟩)).nextOf c = s.nextOf c := by
    intro c
    rw [nextOf_setNode]
    split
    next heq => rw [heq, nextOf, hb]; rfl
    · rfl
  constructor
  · exact hpast ▸ h.le
  · exact hpast ▸ h.inj
  · exact hpast ▸ h.tail
  · exact h.head
  · intro k hk hlt' hl
    rw [hpast] at hk
    exact (hnext _).trans (h.linked k hk hlt' hl)
  · intro k hk hle hl
    rw [hpast] at hk
    exact (hnext _).trans (h.unlinked k hk hle hl)
  · intro k t y hk hy hm
    rw [hpast] at hk hm
    have hne : k ≠ s.past := fun heq => hm heq ⟨_, _, _, rfl⟩
    have hk' : k < s.order.length := (List.getElem?_eq_some_iff.mp hy).1
    refine (dataOf_setNode ..).trans ((if_neg fun heq => hne ?_).trans
      (h.data k t y hk hy fun heq => absurd heq hne))
    have := h.inj (k + 1) (s.past + 1) (by omega) (by omega) (by omega) (by omega) heq
    omega
  · intro t c y ht
    rw [hpast]
    obtain ⟨hheap, hne⟩ := h.allocated t c y ht
    refine ⟨(Function.update_of_ne ?_ _ _).trans hheap, hne⟩
    exact (hne _ (by omega) (by omega)).symm
  · exact h.apart
  · exact hpast ▸ h.exchanged
  · -- the payload moved out is the one of the next item
    obtain ⟨⟨t, y⟩, hy⟩ : ∃ e, s.order[s.past]? = some e := ⟨_, List.getElem?_eq_getElem hlt⟩
    have hdata := h.data s.past t y le_rfl hy fun _ => by
      rintro ⟨_, _, _, hm⟩
      rw [hc] at hm
      cases hm
    rw [dataOf, hb] at hdata
    obtain rfl : x = y := Option.some.inj hdata
    change a = addr _ ∧ _ = addr (_ + 1) ∧ ¬ s.Linking _ ∧ _
    rw [hpast]
    exact ⟨ha, rfl, hlink, t, hy⟩
  · exact h.returned

theorem Rep.storeTail (h : Rep s addr) {a b : Nat} {x : α} (hc : s.consumer = .moved a b x) :
    Rep { s with tail := b, consumer := .stored a x } addr := by
  have hreturned : s.past = s.returned.length := by simp [past, hc]
  obtain ⟨rfl, rfl, hlink, t, hx⟩ : s.ConsumerOk addr (.moved a b x) := hc ▸ h.consumer
  have hpast : { s with
      tail := addr (s.past + 1), consumer := .stored (addr s.past) x }.past = s.past + 1 :=
    congrArg (· + 1) hreturned.symm
  have hlt : s.past < s.order.length := (List.getElem?_eq_some_iff.mp hx).1
  constructor
  · rw [hpast]
    exact hlt
  · rw [hpast]
    intro i j hi hi' hj hj' heq
    exact h.inj i j (by omega) hi' (by omega) hj' heq
  · rw [hpast]
  · exact h.head
  · rw [hpast]
    intro k hk
    exact h.linked k (by omega)
  · rw [hpast]
    intro k hk
    exact h.unlinked k (by omega)
  · rw [hpast]
    intro k u y hk hy _
    exact h.data k u y (by omega) hy fun heq => by omega
  · rw [hpast]
    intro u c y hu
    obtain ⟨hheap, hne⟩ := h.allocated u c y hu
    exact ⟨hheap, fun k hk => hne k (by omega)⟩
  · exact h.apart
  · rw [hpast]
    intro u c p k hu
    obtain ⟨hk, hrest⟩ := h.exchanged u c p k hu
    have hne : k ≠ s.past := by
      rintro rfl
      exact hlink ⟨u, c, p, hu⟩
    exact ⟨by omega, hrest⟩
  · refine ⟨h.isSome_addr le_rfl h.le, ?_, ?_, t, hreturned ▸ hx⟩
    · rw [hpast]
      intro k hk hk' heq
      have := h.inj k s.past (by omega) hk' le_rfl h.le heq
      omega
    · intro u c y hu heq
      exact (h.allocated u c y hu).2 s.past le_rfl h.le heq.symm
  · exact h.returned

theorem prefix_snoc {β : Type*} {l m : List β} {x : β} (h : l <+: m)
    (hx : m[l.length]? = some x) : l ++ [x] <+: m := by
  obtain ⟨r, rfl⟩ := h
  cases r with
  | nil => simp at hx
  | cons y r =>
      obtain rfl : y = x := by simpa using hx
      exact ⟨r, by simp⟩

theorem Rep.deleteTail (h : Rep s addr) {a : Nat} {x : α} (hc : s.consumer = .stored a x) :
    Rep { s.setNode a none with
      consumer := .idle
      results := s.results ++ [.dequeue (some x)] } addr := by
  obtain ⟨-, hfree, halloc, t, hx⟩ : s.ConsumerOk addr (.stored a x) := hc ▸ h.consumer
  have hreturned : (s.results ++ [FifoResult.dequeue (some x)]).filterMap FifoResult.output? =
      s.returned ++ [x] := by
    simp [MpscQueue.returned, FifoResult.output?]
  have hpast : { s.setNode a none with
      consumer := .idle
      results := s.results ++ [FifoResult.dequeue (some x)] }.past = s.past := by
    simp only [past, hc]
    exact (congrArg List.length hreturned).trans List.length_append
  have hnext : ∀ k, s.past ≤ k → k ≤ s.order.length →
      (s.setNode a none).nextOf (addr k) = s.nextOf (addr k) := by
    intro k hk hk'
    rw [nextOf_setNode, if_neg (hfree k hk hk')]
  constructor
  · exact hpast ▸ h.le
  · exact hpast ▸ h.inj
  · exact hpast ▸ h.tail
  · exact h.head
  · rw [hpast]
    intro k hk hlt hl
    exact (hnext k hk hlt.le).trans (h.linked k hk hlt hl)
  · rw [hpast]
    intro k hk hle hl
    exact (hnext k hk hle).trans (h.unlinked k hk hle hl)
  · rw [hpast]
    intro k u y hk hy _
    have hk' : k < s.order.length := (List.getElem?_eq_some_iff.mp hy).1
    refine (dataOf_setNode ..).trans ((if_neg (hfree (k + 1) (by omega) (by omega))).trans
      (h.data k u y hk hy fun _ => ?_))
    rintro ⟨_, _, _, hm⟩
    rw [hc] at hm
    cases hm
  · rw [hpast]
    intro u c y hu
    obtain ⟨hheap, hne⟩ := h.allocated u c y hu
    exact ⟨(Function.update_of_ne (halloc u c y hu) _ _).trans hheap, hne⟩
  · exact h.apart
  · exact hpast ▸ h.exchanged
  · trivial
  · change (s.results ++ [FifoResult.dequeue (some x)]).filterMap FifoResult.output? <+: _
    rw [hreturned]
    refine prefix_snoc h.returned ?_
    rw [List.getElem?_map]
    exact congrArg (Option.map Prod.snd) hx

/-! ## Steps of a producer -/

theorem ConsumerOk.transfer {addr' : Nat → Nat} {c : ConsumerStage α} (h : Rep s addr)
    (hc : s.ConsumerOk addr c) (hpast : s'.past = s.past) (hreturned : s'.returned = s.returned)
    (horder : s.order <+: s'.order) (haddr : ∀ k ≤ s.order.length, addr' k = addr k)
    (hlink : ∀ k < s.order.length, s'.Linking k → s.Linking k)
    (hstored : ∀ a x, c = .stored a x → (s'.heap a).isSome ∧
      (∀ k, s.past ≤ k → k ≤ s'.order.length → addr' k ≠ a) ∧
      ∀ t b y, s'.producer t = .allocated b y → b ≠ a) :
    s'.ConsumerOk addr' c := by
  have hget : ∀ {k : Nat} {e : T × α}, s.order[k]? = some e → s'.order[k]? = some e := by
    intro k e he
    obtain ⟨r, hr⟩ := horder
    rw [← hr, List.getElem?_append_left (List.getElem?_eq_some_iff.mp he).1]
    exact he
  cases c with
  | idle => trivial
  | loadedTail call a =>
      change a = addr' _
      rw [hpast, haddr _ h.le]
      exact hc
  | loadedNext a b =>
      obtain ⟨ha, hb, hlt, hl⟩ := hc
      refine ⟨?_, ?_, ?_, ?_⟩
      · rw [hpast, haddr _ h.le, ha]
      · rw [hpast, haddr _ hlt, hb]
      · rw [hpast]
        exact lt_of_lt_of_le hlt horder.length_le
      · rw [hpast]
        exact fun hl' => hl (hlink _ hlt hl')
  | moved a b x =>
      obtain ⟨ha, hb, hl, t, hx⟩ := hc
      have hlt : s.past < s.order.length := (List.getElem?_eq_some_iff.mp hx).1
      refine ⟨?_, ?_, ?_, t, ?_⟩
      · rw [hpast, haddr _ h.le, ha]
      · rw [hpast, haddr _ hlt, hb]
      · rw [hpast]
        exact fun hl' => hl (hlink _ hlt hl')
      · rw [hpast]
        exact hget hx
  | stored a x =>
      obtain ⟨-, -, -, t, hx⟩ := hc
      obtain ⟨hheap, hfree, halloc⟩ := hstored a x rfl
      refine ⟨hheap, ?_, halloc, t, ?_⟩
      · rw [hpast]
        exact hfree
      · rw [hreturned]
        exact hget hx

theorem Rep.inj_update (h : Rep s addr) {a : Nat}
    (hfresh : ∀ k, s.past ≤ k → k ≤ s.order.length → addr k ≠ a) (i j : Nat) (hi : s.past ≤ i)
    (hi' : i ≤ s.order.length + 1) (hj : s.past ≤ j) (hj' : j ≤ s.order.length + 1)
    (heq : Function.update addr (s.order.length + 1) a i =
      Function.update addr (s.order.length + 1) a j) : i = j := by
  rcases Nat.lt_or_eq_of_le hi' with hi' | rfl
  · rw [Function.update_of_ne hi'.ne] at heq
    rcases Nat.lt_or_eq_of_le hj' with hj' | rfl
    · rw [Function.update_of_ne hj'.ne] at heq
      exact h.inj i j hi (Nat.le_of_lt_succ hi') hj (Nat.le_of_lt_succ hj') heq
    · rw [Function.update_self] at heq
      exact absurd heq (hfresh i hi (Nat.le_of_lt_succ hi'))
  · rw [Function.update_self] at heq
    rcases Nat.lt_or_eq_of_le hj' with hj' | rfl
    · rw [Function.update_of_ne hj'.ne] at heq
      exact absurd heq.symm (hfresh j hj (Nat.le_of_lt_succ hj'))
    · rfl

theorem update_ne {n a b m : Nat} (hold : ∀ k, m ≤ k → k ≤ n → addr k ≠ b) (hab : a ≠ b) (k : Nat)
    (hk : m ≤ k) (hle : k ≤ n + 1) : Function.update addr (n + 1) a k ≠ b := by
  rcases Nat.lt_or_eq_of_le hle with hlt | rfl
  · rw [Function.update_of_ne hlt.ne]
    exact hold k hk (Nat.le_of_lt_succ hlt)
  · rwa [Function.update_self]

variable [DecidableEq T]

theorem producer_setProducer (s : MpscQueue T α) (t u : T) (stage : ProducerStage α) :
    (s.setProducer t stage).producer u = if u = t then stage else s.producer u := by
  by_cases hu : u = t
  · simp [setProducer, hu]
  · simp [setProducer, hu]

theorem producer_of_setProducer {t u : T} {stage st : ProducerStage α}
    (hu : (s.setProducer t stage).producer u = st) (hne : stage ≠ st) :
    u ≠ t ∧ s.producer u = st := by
  rw [producer_setProducer] at hu
  split at hu
  · exact absurd hu hne
  next hut => exact ⟨hut, hu⟩

theorem linking_setProducer {t : T} (stage : ProducerStage α)
    (hold : ∀ a p k, s.producer t ≠ .exchanged a p k) (k : Nat) :
    (s.setProducer t stage).Linking k ↔ s.Linking k ∨ ∃ a p, stage = .exchanged a p k := by
  constructor
  · rintro ⟨u, b, p, hu⟩
    rw [producer_setProducer] at hu
    split at hu
    · exact .inr ⟨b, p, hu⟩
    · exact .inl ⟨u, b, p, hu⟩
  · rintro (⟨u, b, p, hu⟩ | ⟨b, p, rfl⟩)
    · refine ⟨u, b, p, (producer_setProducer ..).trans ((if_neg ?_).trans hu)⟩
      rintro rfl
      exact hold b p k hu
    · exact ⟨t, b, p, (producer_setProducer ..).trans (if_pos rfl)⟩

theorem Rep.linking_idle (h : Rep s addr) {t : T} {a p k : Nat}
    (ht : s.producer t = .exchanged a p k) (j : Nat) :
    (s.setProducer t .idle).Linking j ↔ s.Linking j ∧ j ≠ k := by
  constructor
  · rintro ⟨u, b, q, hu⟩
    obtain ⟨hut, hu⟩ := producer_of_setProducer hu (by simp)
    refine ⟨⟨u, b, q, hu⟩, ?_⟩
    rintro rfl
    exact hut (h.exchanged_inj hu ht)
  · rintro ⟨⟨u, b, q, hu⟩, hne⟩
    refine ⟨u, b, q, (producer_setProducer ..).trans ((if_neg ?_).trans hu)⟩
    rintro rfl
    rw [ht] at hu
    exact hne (ProducerStage.exchanged.inj hu).2.2.symm

theorem Rep.alloc (h : Rep s addr) {t : T} {a : Nat} {x : α} (hidle : s.producer t = .idle)
    (hfree : s.heap a = none) :
    Rep { (s.setNode a (some ⟨some x, none⟩)).setProducer t (.allocated a x) with
      calls := Function.update s.calls t (s.calls t ++ [x]) } addr := by
  have hproducer := producer_setProducer (s.setNode a (some ⟨some x, none⟩)) t
  have hrange : ∀ k, s.past ≤ k → k ≤ s.order.length → addr k ≠ a := by
    rintro k hk hk' rfl
    have := h.isSome_addr hk hk'
    rw [hfree] at this
    cases this
  have hlink : ∀ k, { (s.setNode a (some ⟨some x, none⟩)).setProducer t (.allocated a x) with
      calls := Function.update s.calls t (s.calls t ++ [x]) }.Linking k ↔ s.Linking k := by
    intro k
    have hold : ∀ b p j, s.producer t ≠ .exchanged b p j := by simp [hidle]
    exact (linking_setProducer (.allocated a x) hold k).trans (by simp)
  have hnext : ∀ k, s.past ≤ k → k ≤ s.order.length →
      (s.setNode a (some ⟨some x, none⟩)).nextOf (addr k) = s.nextOf (addr k) := by
    intro k hk hk'
    rw [nextOf_setNode, if_neg (hrange k hk hk')]
  constructor
  · exact h.le
  · exact h.inj
  · exact h.tail
  · exact h.head
  · intro k hk hlt hl
    exact (hnext k hk hlt.le).trans (h.linked k hk hlt (mt (hlink k).mpr hl))
  · intro k hk hle hl
    exact (hnext k hk hle).trans (h.unlinked k hk hle (hl.imp_right (hlink k).mp))
  · intro k u y hk hy hm
    have hk' : k < s.order.length := (List.getElem?_eq_some_iff.mp hy).1
    have hne : addr (k + 1) ≠ a := hrange (k + 1) (Nat.le_succ_of_le hk) hk'
    exact (dataOf_setNode ..).trans ((if_neg hne).trans (h.data k u y hk hy hm))
  · intro u b y hu
    rw [hproducer] at hu
    split at hu
    · obtain ⟨rfl, rfl⟩ := ProducerStage.allocated.inj hu
      exact ⟨Function.update_self .., hrange⟩
    · obtain ⟨hheap, hne⟩ := h.allocated u b y hu
      have hba : b ≠ a := by
        rintro rfl
        rw [hfree] at hheap
        cases hheap
      exact ⟨(Function.update_of_ne hba _ _).trans hheap, hne⟩
  · intro u v b y z hu hv
    rw [hproducer] at hu hv
    -- no other producer can hold the address that was free
    have hother : ∀ w c, s.producer w = .allocated a c → False := by
      intro w c hw
      have := (h.allocated w a c hw).1
      rw [hfree] at this
      cases this
    split at hu
    next hut =>
        obtain ⟨rfl, rfl⟩ := ProducerStage.allocated.inj hu
        split at hv
        next hvt => rw [hut, hvt]
        · exact (hother v z hv).elim
    · split at hv
      · obtain ⟨rfl, rfl⟩ := ProducerStage.allocated.inj hv
        exact (hother u y hu).elim
      · exact h.apart u v b y z hu hv
  · intro u b p k hu
    exact h.exchanged u b p k (producer_of_setProducer hu (by simp)).2
  · refine ConsumerOk.transfer h h.consumer rfl rfl (List.prefix_refl _) (fun _ _ => rfl)
      (fun k _ => (hlink k).mp) ?_
    intro b y hb
    obtain ⟨hsome, hapart, halloc, -⟩ : s.ConsumerOk addr (.stored b y) := hb ▸ h.consumer
    have hba : b ≠ a := by
      rintro rfl
      rw [hfree] at hsome
      cases hsome
    refine ⟨?_, hapart, ?_⟩
    · exact (congrArg Option.isSome (Function.update_of_ne hba _ _)).trans hsome
    · intro u c z hu
      rw [hproducer] at hu
      split at hu
      · obtain ⟨rfl, rfl⟩ := ProducerStage.allocated.inj hu
        exact hba.symm
      · exact halloc u c z hu
  · exact h.returned

theorem Rep.exchange (h : Rep s addr) {t : T} {a : Nat} {x : α}
    (ht : s.producer t = .allocated a x) :
    Rep { s.setProducer t (.exchanged a s.head s.order.length) with
      head := a
      order := s.order ++ [(t, x)] } (Function.update addr (s.order.length + 1) a) := by
  obtain ⟨hheap, hfresh⟩ := h.allocated t a x ht
  have hnew : Function.update addr (s.order.length + 1) a (s.order.length + 1) = a :=
    Function.update_self ..
  have hold : ∀ k ≤ s.order.length, Function.update addr (s.order.length + 1) a k = addr k :=
    fun k hk => Function.update_of_ne (Nat.ne_of_lt (Nat.lt_succ_of_le hk)) _ _
  have hlen : (s.order ++ [(t, x)]).length = s.order.length + 1 := by simp
  have hlink : ∀ k, { s.setProducer t (.exchanged a s.head s.order.length) with
      head := a
      order := s.order ++ [(t, x)] }.Linking k ↔ s.Linking k ∨ k = s.order.length := by
    intro k
    have hexch : ∀ b p j, s.producer t ≠ .exchanged b p j := by simp [ht]
    refine (linking_setProducer (.exchanged a s.head s.order.length) hexch k).trans ?_
    simp [eq_comm]
  constructor
  · exact h.le.trans (by simp)
  · exact hlen ▸ h.inj_update hfresh
  · exact h.tail.trans (hold _ h.le).symm
  · rw [hlen]
    exact hnew.symm
  · intro k hk hlt hl
    rw [hlen] at hlt
    rw [hlink, not_or] at hl
    have hlt' : k < s.order.length := lt_of_le_of_ne (Nat.le_of_lt_succ hlt) hl.2
    rw [hold k hlt'.le, hold (k + 1) hlt']
    exact h.linked k hk hlt' hl.1
  · intro k hk hle hl
    rw [hlen, hlink] at hl
    rw [hlen] at hle
    rcases Nat.lt_or_eq_of_le hle with hlt | rfl
    · rw [hold k (Nat.le_of_lt_succ hlt)]
      have hnone : k = s.order.length ∨ s.Linking k := by
        rcases hl with rfl | hl | hl
        · omega
        · exact Or.inr hl
        · exact Or.inl hl
      exact h.unlinked k hk (Nat.le_of_lt_succ hlt) hnone
    · rw [hnew]
      exact congrArg (Option.map QueueNode.next) hheap
  · intro k u y hk hy hm
    change (s.order ++ [(t, x)])[k]? = _ at hy
    rcases Nat.lt_or_ge k s.order.length with hlt | hge
    · rw [List.getElem?_append_left hlt] at hy
      rw [hold (k + 1) hlt]
      exact h.data k u y hk hy hm
    · have hk' : k = s.order.length := by
        have := (List.getElem?_eq_some_iff.mp hy).1
        rw [hlen] at this
        omega
      subst hk'
      rw [List.getElem?_concat_length] at hy
      obtain ⟨-, rfl⟩ := Prod.mk.inj (Option.some.inj hy)
      rw [hnew]
      exact congrArg (Option.bind · QueueNode.data) hheap
  · intro u b y hu
    obtain ⟨hut, hu⟩ := producer_of_setProducer hu (by simp)
    obtain ⟨hb, hne⟩ := h.allocated u b y hu
    have hab : a ≠ b := by
      rintro rfl
      exact hut (h.apart u t a y x hu ht)
    exact ⟨hb, fun k hk hle => update_ne hne hab k hk (hlen ▸ hle)⟩
  · intro u v b y z hu hv
    exact h.apart u v b y z (producer_of_setProducer hu (by simp)).2
      (producer_of_setProducer hv (by simp)).2
  · intro u b p k hu
    replace hu := (producer_setProducer s t u _).symm.trans hu
    split at hu
    next hut =>
        obtain ⟨rfl, rfl, rfl⟩ := ProducerStage.exchanged.inj hu
        refine ⟨h.le, ?_, hnew.symm, x, ?_⟩
        · exact h.head.trans (hold _ le_rfl).symm
        · exact hut ▸ List.getElem?_concat_length
    · obtain ⟨hk, hp, hb, y, hy⟩ := h.exchanged u b p k hu
      have hlt := (List.getElem?_eq_some_iff.mp hy).1
      refine ⟨hk, hp.trans (hold k hlt.le).symm, hb.trans (hold (k + 1) hlt).symm, y, ?_⟩
      exact (List.getElem?_append_left hlt).trans hy
  · refine ConsumerOk.transfer h h.consumer rfl rfl (List.prefix_append _ _) hold ?_ ?_
    · intro k hlt hl
      exact ((hlink k).mp hl).resolve_right (by omega)
    · intro b y hb
      obtain ⟨hsome, hapart, halloc, -⟩ : s.ConsumerOk addr (.stored b y) := hb ▸ h.consumer
      refine ⟨hsome, fun k hk hle => ?_, fun u c z hu => ?_⟩
      · exact update_ne hapart (halloc t a x ht) k hk (hlen ▸ hle)
      · exact halloc u c z (producer_of_setProducer hu (by simp)).2
  · refine h.returned.trans ?_
    change s.order.map Prod.snd <+: (s.order ++ [(t, x)]).map Prod.snd
    rw [List.map_append]
    exact List.prefix_append _ _

theorem Rep.link (h : Rep s addr) {t : T} {a p k : Nat} {node : QueueNode α}
    (ht : s.producer t = .exchanged a p k) (hp : s.heap p = some node) :
    Rep ((s.setNode p (some { node with next := some a })).setProducer t .idle) addr := by
  obtain ⟨hk, rfl, rfl, x, hx⟩ := h.exchanged t a p k ht
  have hlt : k < s.order.length := (List.getElem?_eq_some_iff.mp hx).1
  have hlink : ∀ j, ((s.setNode (addr k) (some { node with
      next := some (addr (k + 1)) })).setProducer t .idle).Linking j ↔ s.Linking j ∧ j ≠ k :=
    h.linking_idle ht
  have hnext : ∀ c, (s.setNode (addr k) (some { node with next := some (addr (k + 1)) })).nextOf c =
      if c = addr k then some (some (addr (k + 1))) else s.nextOf c := fun c =>
    nextOf_setNode s (addr k) c _
  have hdata : ∀ c, (s.setNode (addr k) (some { node with
      next := some (addr (k + 1)) })).dataOf c = s.dataOf c := by
    intro c
    rw [dataOf_setNode]
    split
    next heq => rw [heq, dataOf, hp]; rfl
    · rfl
  have hapart : ∀ j, s.past ≤ j → j ≤ s.order.length → j ≠ k → addr j ≠ addr k := by
    intro j hj hj' hne heq
    exact hne (h.inj j k hj hj' hk hlt.le heq)
  constructor
  · exact h.le
  · exact h.inj
  · exact h.tail
  · exact h.head
  · intro j hj hj' hl
    refine (hnext _).trans ?_
    by_cases hjk : j = k
    · rw [hjk, if_pos rfl]
    · rw [if_neg (hapart j hj hj'.le hjk)]
      exact h.linked j hj hj' fun hs => hl ((hlink j).mpr ⟨hs, hjk⟩)
  · intro j hj hj' hl
    have hjk : j ≠ k := by
      rcases hl with hl | hl
      · exact fun heq => absurd (hl.symm.trans heq) (Nat.ne_of_gt hlt)
      · exact ((hlink j).mp hl).2
    refine (hnext _).trans ?_
    rw [if_neg (hapart j hj hj' hjk)]
    exact h.unlinked j hj hj' (hl.imp_right fun hl => ((hlink j).mp hl).1)
  · intro j u y hj hy hm
    exact (hdata _).trans (h.data j u y hj hy hm)
  · intro u b y hu
    obtain ⟨hb, hne⟩ := h.allocated u b y (producer_of_setProducer hu (by simp)).2
    exact ⟨(Function.update_of_ne (hne k hk hlt.le).symm _ _).trans hb, hne⟩
  · intro u v b y z hu hv
    exact h.apart u v b y z (producer_of_setProducer hu (by simp)).2
      (producer_of_setProducer hv (by simp)).2
  · intro u b q j hu
    exact h.exchanged u b q j (producer_of_setProducer hu (by simp)).2
  · refine ConsumerOk.transfer h h.consumer rfl rfl (List.prefix_refl _) (fun _ _ => rfl)
      (fun j _ hl => ((hlink j).mp hl).1) ?_
    intro b y hb
    obtain ⟨hsome, hfree, halloc, -⟩ : s.ConsumerOk addr (.stored b y) := hb ▸ h.consumer
    refine ⟨?_, hfree, ?_⟩
    · have hne : b ≠ addr k := (hfree k hk hlt.le).symm
      exact (congrArg Option.isSome (Function.update_of_ne hne _ _)).trans hsome
    · intro u c z hu
      exact halloc u c z (producer_of_setProducer hu (by simp)).2
  · exact h.returned

/-! ## Whole runs -/

omit [DecidableEq T] in
theorem Rep.new : Rep (MpscQueue.new : MpscQueue T α) fun _ => 0 where
  le := le_rfl
  inj := by
    intro i j _ hi _ hj _
    exact (Nat.le_zero.mp hi).trans (Nat.le_zero.mp hj).symm
  tail := rfl
  head := rfl
  linked := fun k _ hk => absurd hk (Nat.not_lt_zero k)
  unlinked := fun _ _ _ _ => rfl
  data := fun k t x _ hx => by cases hx
  allocated := fun t a x ht => by cases ht
  apart := fun t u a x y ht => by cases ht
  exchanged := fun t a p k ht => by cases ht
  consumer := trivial
  returned := List.nil_prefix

/-- What a step does, with what it found. -/
inductive Effect (s : MpscQueue T α) : QueueAct T α → MpscQueue T α → Prop
  | alloc {t : T} {a : Nat} {x : α} : s.producer t = .idle → s.heap a = none →
      Effect s (.alloc t a x)
        { (s.setNode a (some ⟨some x, none⟩)).setProducer t (.allocated a x) with
          calls := Function.update s.calls t (s.calls t ++ [x]) }
  | exchange {t : T} {a : Nat} {x : α} : s.producer t = .allocated a x →
      Effect s (.exchange t)
        { s.setProducer t (.exchanged a s.head s.order.length) with
          head := a
          order := s.order ++ [(t, x)] }
  | link {t : T} {a p k : Nat} {node : QueueNode α} : s.producer t = .exchanged a p k →
      s.heap p = some node →
      Effect s (.link t) ((s.setNode p (some { node with next := some a })).setProducer t .idle)
  | loadTail {call : ConsumerCall} : s.consumer = .idle →
      Effect s (.loadTail call) { s with consumer := .loadedTail call s.tail }
  | loadNext {a b : Nat} : s.consumer = .loadedTail .dequeue a →
      s.nextOf a = some (some b) → Effect s .loadNext { s with consumer := .loadedNext a b }
  | nothing {a : Nat} : s.consumer = .loadedTail .dequeue a → s.nextOf a = some none →
      Effect s .loadNext { s with consumer := .idle, results := s.results ++ [.dequeue none] }
  | tested {a : Nat} {next : Option Nat} : s.consumer = .loadedTail .empty a →
      s.nextOf a = some next →
      Effect s .loadNext
        { s with consumer := .idle, results := s.results ++ [.empty next.isNone] }
  | move {a b : Nat} {x : α} {next : Option Nat} : s.consumer = .loadedNext a b →
      s.heap b = some ⟨some x, next⟩ →
      Effect s .move { s.setNode b (some ⟨none, next⟩) with consumer := .moved a b x }
  | storeTail {a b : Nat} {x : α} : s.consumer = .moved a b x →
      Effect s .storeTail { s with tail := b, consumer := .stored a x }
  | deleteTail {a : Nat} {x : α} : s.consumer = .stored a x →
      Effect s .deleteTail
        { s.setNode a none with
          consumer := .idle
          results := s.results ++ [.dequeue (some x)] }

theorem effect_of_exec {a : QueueAct T α} (hs : s.exec a = some s') : Effect s a s' := by
  cases a with
  | alloc t a x =>
      simp only [MpscQueue.exec] at hs
      split at hs
      next hidle hfree => exact Option.some.inj hs ▸ .alloc hidle hfree
      · cases hs
  | exchange t =>
      simp only [MpscQueue.exec] at hs
      split at hs
      next a x ht => exact Option.some.inj hs ▸ .exchange ht
      · cases hs
  | link t =>
      simp only [MpscQueue.exec] at hs
      split at hs
      next a p k ht =>
          split at hs
          next node hp => exact Option.some.inj hs ▸ .link ht hp
          · cases hs
      · cases hs
  | loadTail call =>
      simp only [MpscQueue.exec] at hs
      split at hs
      next hidle => exact Option.some.inj hs ▸ .loadTail hidle
      · cases hs
  | loadNext =>
      simp only [MpscQueue.exec] at hs
      split at hs
      next call a hc =>
          split at hs
          next node hnode =>
              have hnext : s.nextOf a = some node.next := by rw [nextOf, hnode, Option.map_some]
              split at hs
              next b hb => exact Option.some.inj hs ▸ .loadNext hc (hb ▸ hnext)
              next hb => exact Option.some.inj hs ▸ .nothing hc (hb ▸ hnext)
              · exact Option.some.inj hs ▸ .tested hc hnext
          · cases hs
      · cases hs
  | move =>
      simp only [MpscQueue.exec] at hs
      split at hs
      next a b hc =>
          split at hs
          next x next hb => exact Option.some.inj hs ▸ .move hc hb
          · cases hs
      · cases hs
  | storeTail =>
      simp only [MpscQueue.exec] at hs
      split at hs
      next a b x hc => exact Option.some.inj hs ▸ .storeTail hc
      · cases hs
  | deleteTail =>
      simp only [MpscQueue.exec] at hs
      split at hs
      next a x hc =>
          split at hs
          · exact Option.some.inj hs ▸ .deleteTail hc
          · cases hs
      · cases hs

theorem Rep.step (h : Rep s addr) {a : QueueAct T α} (hs : Effect s a s') :
    ∃ addr', Rep s' addr' := by
  cases hs with
  | alloc hidle hfree => exact ⟨addr, h.alloc hidle hfree⟩
  | exchange ht => exact ⟨_, h.exchange ht⟩
  | link ht hp => exact ⟨addr, h.link ht hp⟩
  | loadTail hidle => exact ⟨addr, h.loadTail _ hidle⟩
  | loadNext hc hnext => exact ⟨addr, h.loadNext hc hnext⟩
  | nothing hc _ => exact ⟨addr, h.back hc rfl⟩
  | tested hc _ => exact ⟨addr, h.back hc rfl⟩
  | move hc hb => exact ⟨addr, h.move hc hb⟩
  | storeTail hc => exact ⟨addr, h.storeTail hc⟩
  | deleteTail hc => exact ⟨addr, h.deleteTail hc⟩

/-- The item of a call that has not reached its exchange. -/
def pendingItem : ProducerStage α → List α
  | .allocated _ x => [x]
  | _ => []

/-- The calls of each producer, up to the one in progress, are in the order. -/
def Called (s : MpscQueue T α) : Prop :=
  ∀ t, s.calls t =
    (s.order.filter fun e => e.1 = t).map Prod.snd ++ pendingItem (s.producer t)

theorem Called.step (h : Called s) {a : QueueAct T α} (hs : Effect s a s') : Called s' := by
  cases hs with
  | @alloc t a x hidle hfree =>
      intro u
      change Function.update s.calls t (s.calls t ++ [x]) u = _ ++ pendingItem
        ((s.setProducer t (.allocated a x)).producer u)
      rw [producer_setProducer]
      by_cases hu : u = t
      · rw [hu, Function.update_self, if_pos rfl, h t, hidle]
        exact congrArg (· ++ [x]) (List.append_nil _)
      · rw [Function.update_of_ne hu, if_neg hu]
        exact h u
  | @exchange t a x ht =>
      intro u
      change s.calls u = ((s.order ++ [(t, x)]).filter fun e => e.1 = u).map Prod.snd ++
        pendingItem
          ((s.setProducer t (.exchanged a s.head s.order.length)).producer u)
      rw [producer_setProducer, h u, List.filter_append, List.map_append]
      by_cases hu : u = t
      · simp [hu, ht, pendingItem]
      · simp [hu, Ne.symm hu]
  | @link t a p k node ht hp =>
      intro u
      change s.calls u = _ ++ pendingItem ((s.setProducer t .idle).producer u)
      rw [producer_setProducer, h u]
      by_cases hu : u = t
      · rw [hu, if_pos rfl, ht]
        rfl
      · rw [if_neg hu]
        rfl
  | loadTail | loadNext | nothing | tested | move | storeTail | deleteTail => exact h

omit [DecidableEq T] in
theorem linkedAt_eq_false {t : T} {k : Nat} :
    s.linkedAt t k = false ↔ ∃ a p, s.producer t = .exchanged a p k := by
  unfold linkedAt
  split
  next a p j ht => simp [ht]
  next hne => exact iff_of_false (by simp) fun ⟨a, p, ht⟩ => hne a p k ht

omit [DecidableEq T] in
theorem Rep.linkedAt_iff (h : Rep s addr) {t : T} {x : α} {k : Nat}
    (hx : s.order[k]? = some (t, x)) : s.linkedAt t k = false ↔ s.Linking k := by
  rw [linkedAt_eq_false]
  constructor
  · rintro ⟨a, p, ht⟩
    exact ⟨t, a, p, ht⟩
  · rintro ⟨u, a, p, hu⟩
    obtain ⟨-, -, -, y, hy⟩ := h.exchanged u a p k hu
    rw [hx] at hy
    obtain ⟨rfl, -⟩ := Prod.mk.inj (Option.some.inj hy)
    exact ⟨a, p, hu⟩

omit [DecidableEq T] in
theorem getElem?_abs (s : MpscQueue T α) (i : Nat) :
    s.abs.cells[i]? =
      s.order[s.past + i]?.map fun e => ⟨e.1, e.2, s.linkedAt e.1 (s.past + i)⟩ := by
  rw [abs, List.getElem?_drop, List.getElem?_mapIdx]

omit [DecidableEq T] in
theorem head?_abs (s : MpscQueue T α) :
    s.abs.cells.head? = s.order[s.past]?.map fun e => ⟨e.1, e.2, s.linkedAt e.1 s.past⟩ := by
  rw [List.head?_eq_getElem?, getElem?_abs, Nat.add_zero]

omit [DecidableEq T] in
theorem Rep.nextOf_eq_none_iff_pop (h : Rep s addr) :
    s.nextOf (addr s.past) = some none ↔ Fifo.pop? s.abs.cells = none := by
  rw [h.nextOf_eq_none, Fifo.pop?_eq_none_iff]
  rcases Nat.lt_or_eq_of_le h.le with hlt | heq
  · obtain ⟨⟨t, x⟩, hx⟩ : ∃ e, s.order[s.past]? = some e := ⟨_, List.getElem?_eq_getElem hlt⟩
    have hhead := s.head?_abs
    rw [hx] at hhead
    obtain ⟨rest, hrest⟩ := List.head?_eq_some_iff.mp hhead
    rw [hrest, ← h.linkedAt_iff hx]
    simp [hlt.ne]
  · have hnone := s.head?_abs
    rw [heq, List.getElem?_eq_none le_rfl, Option.map_none, List.head?_eq_none_iff] at hnone
    exact iff_of_true (Or.inl heq) (Or.inl hnone)

omit [DecidableEq T] in
theorem Rep.isNone_next (h : Rep s addr) {call : ConsumerCall} {a : Nat}
    (hc : s.consumer = .loadedTail call a) {next : Option Nat} (hnext : s.nextOf a = some next) :
    next.isNone = (Fifo.pop? s.abs.cells).isNone := by
  obtain rfl : s.ConsumerOk addr (.loadedTail call a) := hc ▸ h.consumer
  have hiff := h.nextOf_eq_none_iff_pop
  rw [hnext, Option.some.injEq] at hiff
  rw [Bool.eq_iff_iff, Option.isNone_iff_eq_none, Option.isNone_iff_eq_none]
  exact hiff

omit [DecidableEq T] in
theorem cells_congr (horder : s'.order = s.order) (hpast : s'.past = s.past)
    (hlinked : ∀ t k, s'.linkedAt t k = s.linkedAt t k) : s'.abs.cells = s.abs.cells := by
  refine List.ext_getElem? fun i => ?_
  simp only [getElem?_abs, horder, hpast, hlinked]

theorem cells_exchange {t : T} {x : α} (hle : s.past ≤ s.order.length)
    (horder : s'.order = s.order ++ [(t, x)]) (hpast : s'.past = s.past)
    (hlinked : ∀ u k, s'.linkedAt u k =
      if u = t ∧ k = s.order.length then false else s.linkedAt u k) :
    s'.abs.cells = Fifo.exchange t x s.abs.cells := by
  have hlen : s.abs.cells.length = s.order.length - s.past := by simp [abs]
  refine List.ext_getElem? fun i => ?_
  rw [Fifo.exchange, getElem?_abs, horder, hpast]
  rcases Nat.lt_or_ge (s.past + i) s.order.length with hlt | hge
  · rw [List.getElem?_append_left hlt, List.getElem?_append_left (by omega), getElem?_abs]
    simp only [hlinked, hlt.ne, and_false, if_false]
  · rw [List.getElem?_append_right hge, List.getElem?_append_right (by omega), hlen,
      show i - (s.order.length - s.past) = s.past + i - s.order.length by omega]
    rcases Nat.eq_zero_or_pos (s.past + i - s.order.length) with hzero | hpos
    · have heq : s.past + i = s.order.length := by omega
      simp [hlinked, heq]
    · rw [List.getElem?_eq_none hpos, List.getElem?_eq_none hpos]
      rfl

theorem cells_link {t : T} (horder : s'.order = s.order) (hpast : s'.past = s.past)
    (hlinked : ∀ u j, s'.linkedAt u j = if u = t then true else s.linkedAt u j) :
    s'.abs.cells = Fifo.link t s.abs.cells := by
  refine List.ext_getElem? fun i => ?_
  rw [Fifo.link, List.getElem?_map, getElem?_abs, getElem?_abs, Option.map_map, horder, hpast]
  congr 1
  funext e
  change Cell.mk e.1 e.2 _ = if e.1 = t then _ else _
  have hcell := hlinked e.1 (s.past + i)
  by_cases hu : e.1 = t
  · rw [if_pos hu] at hcell ⊢
    exact congrArg (Cell.mk e.1 e.2) hcell
  · rw [if_neg hu] at hcell ⊢
    exact congrArg (Cell.mk e.1 e.2) hcell

omit [DecidableEq T] in
/-- The item that `tail_` goes past is the visible head of the queue. -/
theorem Rep.pop_storeTail (h : Rep s addr) {a b : Nat} {x : α} (hc : s.consumer = .moved a b x) :
    Fifo.pop? s.abs.cells =
      some (x, (abs { s with tail := b, consumer := .stored a x }).cells) := by
  have hreturned : s.past = s.returned.length := by simp [past, hc]
  obtain ⟨-, -, hlink, t, hx⟩ : s.ConsumerOk addr (.moved a b x) := hc ▸ h.consumer
  have hpast : { s with tail := b, consumer := .stored a x }.past = s.past + 1 :=
    congrArg (· + 1) hreturned.symm
  have hvisible : s.linkedAt t s.past = true :=
    Bool.not_eq_false _ ▸ mt (h.linkedAt_iff hx).mp hlink
  have hhead := s.head?_abs
  rw [hx, Option.map_some, hvisible] at hhead
  obtain ⟨rest, hrest⟩ := List.head?_eq_some_iff.mp hhead
  have htail : (abs { s with tail := b, consumer := .stored a x }).cells = rest := by
    refine List.ext_getElem? fun i => ?_
    have hi := s.getElem?_abs (i + 1)
    rw [hrest, List.getElem?_cons_succ] at hi
    rw [hi, getElem?_abs, hpast, Nat.add_assoc, Nat.add_comm 1 i]
    rfl
  rw [hrest, htail]
  rfl

omit [DecidableEq T] in
theorem abs_eq {q : FifoQueue T α} (hcells : s.abs.cells = q.cells)
    (hresults : s.results ++ due s.consumer = q.results) : s.abs = q := by
  cases q
  exact congrArg₂ FifoQueue.mk hcells hresults

/-- Every step does to the abstract queue what takes effect with it. -/
theorem Rep.refines (h : Rep s addr) {a : QueueAct T α} (hs : Effect s a s') :
    s'.abs = match s.takesEffect a with
      | some act => s.abs.exec act
      | none => s.abs := by
  cases hs with
  | @alloc t a x hidle hfree =>
      refine abs_eq (cells_congr rfl rfl fun u k => ?_) rfl
      change linkedAt (s.setProducer t (.allocated a x)) u k = _
      unfold linkedAt
      rw [producer_setProducer]
      by_cases hu : u = t
      · rw [if_pos hu, hu, hidle]
      · rw [if_neg hu]
  | @exchange t a x ht =>
      have hlinked : ∀ u k, linkedAt { s.setProducer t (.exchanged a s.head s.order.length) with
          head := a
          order := s.order ++ [(t, x)] } u k =
          if u = t ∧ k = s.order.length then false else s.linkedAt u k := by
        intro u k
        unfold linkedAt
        rw [producer_setProducer]
        by_cases hu : u = t
        · by_cases hk : k = s.order.length
          · simp [hu, hk]
          · simp [hu, hk, ht, Ne.symm hk]
        · simp [hu]
      simp only [takesEffect, ht]
      exact abs_eq (cells_exchange h.le rfl rfl hlinked) rfl
  | @link t a p k node ht hp =>
      have hlinked : ∀ u j, linkedAt ((s.setNode p (some { node with
          next := some a })).setProducer t .idle) u j = if u = t then true else s.linkedAt u j := by
        intro u j
        unfold linkedAt
        rw [producer_setProducer]
        by_cases hu : u = t
        · simp [hu]
        · simp [hu, setNode]
      exact abs_eq (cells_link rfl rfl hlinked) rfl
  | loadTail hidle =>
      refine abs_eq (cells_congr rfl ?_ fun _ _ => rfl) ?_
      · simp [past, MpscQueue.returned, hidle]
      · simp [takesEffect, abs, due, hidle]
  | @loadNext a b hc hnext =>
      have hsome : ¬ (s.heap a).map QueueNode.next = some none := by
        change ¬ s.nextOf a = some none
        rw [hnext]
        simp
      simp only [takesEffect, hc, if_neg hsome]
      refine abs_eq (cells_congr rfl ?_ fun _ _ => rfl) ?_
      · simp [past, MpscQueue.returned, hc]
      · simp [abs, due, hc]
  | @nothing a hc hnext =>
      have hpop : Fifo.pop? s.abs.cells = none := by
        have hnone := h.isNone_next hc hnext
        exact Option.isNone_iff_eq_none.mp hnone.symm
      have heffect : s.takesEffect .loadNext = some .dequeue := by
        simp only [takesEffect, hc]
        exact if_pos hnext
      simp only [heffect, FifoQueue.exec_dequeue_none hpop]
      refine abs_eq (cells_congr rfl ?_ fun _ _ => rfl) ?_
      · simp [past, MpscQueue.returned, hc, FifoResult.output?]
      · simp [abs, due, hc]
  | @tested a next hc hnext =>
      simp only [takesEffect, hc, FifoQueue.exec, ← h.isNone_next hc hnext]
      refine abs_eq (cells_congr rfl ?_ fun _ _ => rfl) ?_
      · simp [past, MpscQueue.returned, hc, FifoResult.output?]
      · simp [abs, due, hc]
  | move hc hb =>
      refine abs_eq (cells_congr rfl ?_ fun _ _ => rfl) ?_
      · simp [past, MpscQueue.returned, hc, setNode]
      · simp [takesEffect, abs, due, hc, setNode]
  | @storeTail a b x hc =>
      simp only [takesEffect, FifoQueue.exec_dequeue_some (h.pop_storeTail hc)]
      refine abs_eq rfl ?_
      simp [abs, due, hc]
  | deleteTail hc =>
      refine abs_eq (cells_congr rfl ?_ fun _ _ => rfl) ?_
      · simp [past, MpscQueue.returned, hc, FifoResult.output?]
      · simp [takesEffect, abs, due, hc]

/-! ## Every run -/

end MpscQueue

end Netpoll
