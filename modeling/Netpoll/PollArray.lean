import Netpoll.Channel
import Netpoll.Runs
import Netpoll.Slots

/-!
# The array of `PollPoller`

`PollPoller` (`net/inner/poller/poll_poller.cc`) keeps an array of `pollfd`
entries for `poll(2)` and a map from descriptors to channels; a channel
remembers its place in the array in `m_index`. Removal swaps the last entry
into the gap, and finds the channel of that entry through its descriptor,
which is stored as `-fd - 1` when the entry is to be ignored.

The channels are objects of their own: two of them may have one descriptor,
a removed one keeps its stale index, and its mask may change between two
calls. The assertions of the source are part of the model: one that fails is
a fault, and so is the use of a missing pointer of the map.
-/

namespace Netpoll

/-- `struct pollfd` -/
structure PollEntry where
  fd : Int
  events : BitVec 16
  revents : BitVec 16
  deriving DecidableEq

namespace PollEntry

/-- The entry is for the descriptor `k`, watched or ignored. -/
def IsFor (pfd : PollEntry) (k : Int) : Prop := pfd.fd = k ∨ pfd.fd = -k - 1

instance (pfd : PollEntry) (k : Int) : Decidable (pfd.IsFor k) :=
  inferInstanceAs (Decidable (_ ∨ _))

/-- `pfd.revents > 0`, of a `short`. -/
def ready (pfd : PollEntry) : Bool := 0 < pfd.revents.toInt

theorem IsFor.unique {pfd : PollEntry} {k k' : Int} (h : pfd.IsFor k) (h' : pfd.IsFor k')
    (hk : 0 ≤ k) (hk' : 0 ≤ k') : k = k' := by
  rcases h with h | h <;> rcases h' with h' | h' <;> omega

end PollEntry

/-- A `PollPoller` and the channels that are used with it. -/
structure PollArray (Ch : Type) where
  events : Ch → BitVec 32
  revents : Ch → BitVec 32
  index : Ch → Int
  pollfds : List PollEntry
  channels : Int → Option Ch
  /-- History: the mask of each channel at its last `updateChannel`. -/
  updated : Ch → BitVec 32

inductive PollArrayAct (Ch : Type)
  /-- The mask of a channel is changed. -/
  | setEvents (c : Ch) (events : BitVec 32)
  | updateChannel (c : Ch)
  | removeChannel (c : Ch)
  /-- `poll()`, with what the kernel reports for each place. -/
  | poll (revents : Nat → BitVec 16)

namespace PollArray

variable {Ch : Type} [DecidableEq Ch] (fd : Ch → Int)

/-- New channels, with the index -1, and an empty array. -/
def new : PollArray Ch where
  events _ := 0
  revents _ := 0
  index _ := -1
  pollfds := []
  channels _ := none
  updated _ := 0

def setIndex (p : PollArray Ch) (c : Ch) (idx : Int) : PollArray Ch :=
  { p with index := Function.update p.index c idx }

def updateChannel (p : PollArray Ch) (c : Ch) : Except Fault (PollArray Ch) :=
  if fd c < 0 then .error .assertion
  else if p.index c < 0 then
    if (p.channels (fd c)).isSome then .error .assertion
    else
      let pfd : PollEntry := ⟨fd c, (p.events c).setWidth 16, 0⟩
      let pollfds := p.pollfds ++ [pfd]
      .ok { p.setIndex c ((pollfds.length : Int) - 1) with
        pollfds
        channels := Function.update p.channels pfd.fd (some c)
        updated := Function.update p.updated c (p.events c) }
  else if p.channels (fd c) = some c then
    match p.pollfds[(p.index c).toNat]? with
    | none => .error .assertion
    | some pfd =>
      if pfd.IsFor (fd c) then
        let pfd : PollEntry :=
          ⟨if p.events c = Channel.kNoneEvent then -fd c - 1 else fd c,
            (p.events c).setWidth 16, 0⟩
        .ok { p with
          pollfds := p.pollfds.set (p.index c).toNat pfd
          updated := Function.update p.updated c (p.events c) }
      else .error .assertion
  else .error .assertion

/-- The descriptor of the last entry, whose sign is undone. -/
def fdAtEnd (back : PollEntry) : Int := if back.fd < 0 then -back.fd - 1 else back.fd

/-- The index of the removed channel stays as it is. -/
def removeChannel (p : PollArray Ch) (c : Ch) : Except Fault (PollArray Ch) :=
  if p.channels (fd c) = some c ∧ p.events c = Channel.kNoneEvent ∧ 0 ≤ p.index c then
    let idx := (p.index c).toNat
    match p.pollfds[idx]? with
    | none => .error .assertion
    | some pfd =>
      if pfd.fd = -fd c - 1 ∧ pfd.events.signExtend 32 = p.events c then
        let channels := Function.update p.channels (fd c) none
        let last := p.pollfds.length - 1
        if idx = last then .ok { p with channels, pollfds := p.pollfds.dropLast }
        else
          match p.pollfds[last]? with
          | none => .error .outOfBounds
          | some back =>
            match channels (fdAtEnd back) with
            | none => .error .nullPointer
            | some b =>
              .ok { p.setIndex b idx with
                channels
                pollfds := (iterSwap p.pollfds idx last).dropLast }
      else .error .assertion
  else .error .assertion

/-- The loop of `fillActiveChannels` over the entries that are left, with the
number of those it has processed. -/
def fillLoop (channels : Int → Option Ch) (numEvents : Nat) :
    List PollEntry → (Ch → BitVec 32) → List Ch → Nat →
      Except Fault ((Ch → BitVec 32) × List Ch × Nat)
  | [], revents, active, processed => .ok (revents, active, processed)
  | pfd :: pfds, revents, active, processed =>
    if pfd.ready then
      match channels pfd.fd with
      | none => .error .assertion
      | some c =>
        if fd c = pfd.fd then
          let revents := Function.update revents c (pfd.revents.signExtend 32)
          let active := active ++ [c]
          let processed := processed + 1
          if processed = numEvents then .ok (revents, active, processed)
          else fillLoop channels numEvents pfds revents active processed
        else .error .assertion
    else fillLoop channels numEvents pfds revents active processed

def fillActiveChannels (p : PollArray Ch) (numEvents : Nat) (activeChannels : List Ch) :
    Except Fault (PollArray Ch × List Ch) :=
  match fillLoop fd p.channels numEvents p.pollfds p.revents activeChannels 0 with
  | .error f => .error f
  | .ok (revents, active, processed) =>
    if processed = numEvents then .ok ({ p with revents }, active) else .error .assertion

/-- `poll(2)` stores what it reports in the entries, nothing for those that
are to be ignored. -/
def answer (p : PollArray Ch) (revents : Nat → BitVec 16) : PollArray Ch :=
  { p with pollfds := p.pollfds.mapIdx fun i pfd =>
      { pfd with revents := if pfd.fd < 0 then 0 else revents i } }

/-- The number of entries that it reports. -/
def numEvents (p : PollArray Ch) : Nat := p.pollfds.countP PollEntry.ready

def poll (p : PollArray Ch) (revents : Nat → BitVec 16) (activeChannels : List Ch) :
    Except Fault (PollArray Ch × List Ch) :=
  let p := p.answer revents
  if 0 < p.numEvents then p.fillActiveChannels fd p.numEvents activeChannels
  else .ok (p, activeChannels)

def exec (p : PollArray Ch) : PollArrayAct Ch → Except Fault (PollArray Ch)
  | .setEvents c events => .ok { p with events := Function.update p.events c events }
  | .updateChannel c => p.updateChannel fd c
  | .removeChannel c => p.removeChannel fd c
  | .poll revents => (p.poll fd revents []).map Prod.fst

end PollArray

/-- A call that meets the assertions. -/
def PollArrayStep {Ch : Type} [DecidableEq Ch] (fd : Ch → Int) (p : PollArray Ch)
    (a : PollArrayAct Ch) (p' : PollArray Ch) : Prop :=
  p.exec fd a = .ok p'

namespace PollArray

variable {Ch : Type} [DecidableEq Ch] {fd : Ch → Int} {p p' : PollArray Ch} {c : Ch}

/-! ## The channels in the array -/

/-- The place of a registered channel. -/
def slot (fd : Ch → Int) (channels : Int → Option Ch) (index : Ch → Int) (c : Ch) : Option Nat :=
  if channels (fd c) = some c then some (index c).toNat else none

/-- The entry is the one that an update of the channel with this mask makes. -/
def Entry (fd : Ch → Int) (updated : Ch → BitVec 32) (c : Ch) (pfd : PollEntry) : Prop :=
  pfd.IsFor (fd c) ∧ pfd.events = (updated c).setWidth 16

omit [DecidableEq Ch] in
theorem Entry.fd_eq {updated : Ch → BitVec 32} {pfd : PollEntry} (h : Entry fd updated c pfd)
    (hc : 0 ≤ fd c) (hpfd : 0 ≤ pfd.fd) : pfd.fd = fd c := by
  rcases h.1 with hfd | hfd <;> omega

omit [DecidableEq Ch] in
theorem Entry.fdAtEnd_eq {updated : Ch → BitVec 32} {pfd : PollEntry} (h : Entry fd updated c pfd)
    (hc : 0 ≤ fd c) : fdAtEnd pfd = fd c := by
  unfold fdAtEnd
  rcases h.1 with hfd | hfd <;> split <;> omega

section Slot

variable {channels : Int → Option Ch} {index : Ch → Int} {idx : Nat}

theorem slot_of_registered (h : channels (fd c) = some c) :
    slot fd channels index c = some (index c).toNat :=
  if_pos h

theorem slot_eq_some : slot fd channels index c = some idx ↔
    channels (fd c) = some c ∧ (index c).toNat = idx := by
  rw [slot, Option.ite_none_right_eq_some, Option.some.injEq]

theorem slot_eq_none (h : channels (fd c) = none) : slot fd channels index c = none := by
  rw [slot, h, if_neg (fun heq => nomatch heq)]

theorem slot_setIndex (h : channels (fd c) = some c) :
    slot fd channels (Function.update index c idx) =
      Function.update (slot fd channels index) c (some idx) := by
  funext d
  by_cases hd : d = c
  · subst hd
    rw [Function.update_self, slot_of_registered h, Function.update_self, Int.toNat_natCast]
  · rw [Function.update_of_ne hd, slot, slot, Function.update_of_ne hd]

theorem slot_register (h : channels (fd c) = none) :
    slot fd (Function.update channels (fd c) (some c)) (Function.update index c idx) =
      Function.update (slot fd channels index) c (some idx) := by
  funext d
  by_cases hd : d = c
  · subst hd
    rw [Function.update_self, slot_of_registered (Function.update_self ..), Function.update_self,
      Int.toNat_natCast]
  · rw [Function.update_of_ne hd]
    by_cases hfd : fd d = fd c
    · rw [slot, slot_eq_none (by rw [hfd, h]), hfd, Function.update_self, if_neg]
      exact fun heq => hd (Option.some.inj heq).symm
    · rw [slot, slot, Function.update_of_ne hfd, Function.update_of_ne hd]

theorem slot_erase (h : channels (fd c) = some c) :
    slot fd (Function.update channels (fd c) none) index =
      Function.update (slot fd channels index) c none := by
  funext d
  by_cases hd : d = c
  · subst hd
    rw [Function.update_self, slot_eq_none (Function.update_self ..)]
  · rw [Function.update_of_ne hd]
    by_cases hfd : fd d = fd c
    · rw [slot_eq_none (by rw [hfd, Function.update_self]), slot, hfd, h, if_neg]
      exact fun heq => hd (Option.some.inj heq).symm
    · rw [slot, slot, Function.update_of_ne hfd]

end Slot

omit [DecidableEq Ch] in
theorem channels_of_erase {channels : Int → Option Ch} {k : Int} {d : Ch}
    (hd : Function.update channels (fd c) none k = some d) : channels k = some d := by
  have hk : k ≠ fd c := by
    rintro rfl
    rw [Function.update_self] at hd
    cases hd
  rwa [Function.update_of_ne hk] at hd

/-- The map has the channels under their descriptors, and the registered
channels are the owners of the entries. -/
structure Rep (fd : Ch → Int) (p : PollArray Ch) : Prop where
  key : ∀ {k c}, p.channels k = some c → fd c = k ∧ 0 ≤ k ∧ 0 ≤ p.index c
  slots : Slots (slot fd p.channels p.index) (Entry fd p.updated) p.pollfds

namespace Rep

theorem new : Rep fd (PollArray.new : PollArray Ch) where
  key h := nomatch h
  slots := Slots.nil

theorem entry_of_ne {updated : Ch → BitVec 32} {events : BitVec 32} (d : Ch) (hd : d ≠ c)
    (pfd : PollEntry) (h : Entry fd updated d pfd) :
    Entry fd (Function.update updated c events) d pfd := by
  rwa [Entry, Function.update_of_ne hd]

theorem entry_self {updated : Ch → BitVec 32} {events : BitVec 32} {k : Int}
    (hk : k = fd c ∨ k = -fd c - 1) :
    Entry fd (Function.update updated c events) c ⟨k, events.setWidth 16, 0⟩ :=
  ⟨hk, by rw [Function.update_self]⟩

theorem register (h : Rep fd p) (hfd : 0 ≤ fd c) (hfree : p.channels (fd c) = none) :
    Rep fd { p.setIndex c p.pollfds.length with
      pollfds := p.pollfds ++ [⟨fd c, (p.events c).setWidth 16, 0⟩]
      channels := Function.update p.channels (fd c) (some c)
      updated := Function.update p.updated c (p.events c) } where
  key {k d} hd := by
    change Function.update p.channels (fd c) (some c) k = some d at hd
    change fd d = k ∧ 0 ≤ k ∧ 0 ≤ Function.update p.index c (p.pollfds.length : Int) d
    by_cases hk : k = fd c
    · subst hk
      rw [Function.update_self, Option.some.injEq] at hd
      subst hd
      rw [Function.update_self]
      exact ⟨rfl, hfd, Int.natCast_nonneg _⟩
    · rw [Function.update_of_ne hk] at hd
      have hdc : d ≠ c := fun hdc => hk (hdc ▸ (h.key hd).1).symm
      rw [Function.update_of_ne hdc]
      exact h.key hd
  slots := by
    change Slots (slot fd (Function.update p.channels (fd c) (some c))
      (Function.update p.index c (p.pollfds.length : Int))) _ _
    rw [slot_register hfree]
    exact h.slots.push (slot_eq_none hfree) (entry_self (Or.inl rfl)) entry_of_ne

theorem overwrite (h : Rep fd p) (hreg : p.channels (fd c) = some c) {k : Int}
    (hk : k = fd c ∨ k = -fd c - 1) :
    Rep fd { p with
      pollfds := p.pollfds.set (p.index c).toNat ⟨k, (p.events c).setWidth 16, 0⟩
      updated := Function.update p.updated c (p.events c) } where
  key := h.key
  slots := h.slots.set (slot_of_registered hreg) (entry_self hk) entry_of_ne

/-- The last entry is that of the channel that is removed. -/
theorem pop (h : Rep fd p) (hreg : p.channels (fd c) = some c)
    (hlast : (p.index c).toNat = p.pollfds.length - 1) :
    Rep fd { p with
      channels := Function.update p.channels (fd c) none
      pollfds := p.pollfds.dropLast } where
  key hd := h.key (channels_of_erase hd)
  slots := by
    change Slots (slot fd (Function.update p.channels (fd c) none) p.index) _ _
    rw [slot_erase hreg]
    exact h.slots.pop (hlast ▸ slot_of_registered hreg)

/-- Another channel has the last entry, which moves to the place of the one
that is removed. -/
theorem swap (h : Rep fd p) (hreg : p.channels (fd c) = some c)
    (hlast : (p.index c).toNat ≠ p.pollfds.length - 1) :
    ∃ back b, p.pollfds[p.pollfds.length - 1]? = some back ∧
      Function.update p.channels (fd c) none (fdAtEnd back) = some b ∧
      Rep fd { p.setIndex b (p.index c).toNat with
        channels := Function.update p.channels (fd c) none
        pollfds := (iterSwap p.pollfds (p.index c).toNat (p.pollfds.length - 1)).dropLast } := by
  have hc : slot fd p.channels p.index c = some (p.index c).toNat := slot_of_registered hreg
  have hlt := h.slots.lt_length hc
  obtain ⟨back, hback⟩ : ∃ back, p.pollfds[p.pollfds.length - 1]? = some back :=
    ⟨_, List.getElem?_eq_getElem (by omega)⟩
  obtain ⟨b, hb, hentry⟩ := h.slots.exists_owner hback
  obtain ⟨hbreg, hbidx⟩ := slot_eq_some.mp hb
  have hfd : fd b ≠ fd c := by
    intro hfd
    rw [hfd, hreg, Option.some.injEq] at hbreg
    exact hlast (hbreg ▸ hbidx)
  have hkept : Function.update p.channels (fd c) none (fd b) = some b := by
    rwa [Function.update_of_ne hfd]
  refine ⟨back, b, hback, by rw [hentry.fdAtEnd_eq (h.key hbreg).2.1, hkept],
    fun {k d} hd => ?_, ?_⟩
  · obtain ⟨hdfd, hk, hidx⟩ := h.key (channels_of_erase hd)
    refine ⟨hdfd, hk, ?_⟩
    change 0 ≤ Function.update p.index b ((p.index c).toNat : Int) d
    by_cases hdb : d = b
    · rw [hdb, Function.update_self]
      exact Int.natCast_nonneg _
    · rwa [Function.update_of_ne hdb]
  · change Slots (slot fd (Function.update p.channels (fd c) none)
      (Function.update p.index b ((p.index c).toNat : Int))) _ _
    rw [slot_setIndex hkept, slot_erase hreg, dropLast_iterSwap (by omega) hback]
    exact h.slots.moveLast hc hlast hb hback

theorem updateChannel (h : Rep fd p) (c : Ch) :
    Post (· = .assertion) (Rep fd) (p.updateChannel fd c) := by
  unfold PollArray.updateChannel
  split
  · exact rfl
  next hfd =>
    split
    · split
      · exact rfl
      next hfree =>
        have hend : ∀ pfd : PollEntry, ((p.pollfds ++ [pfd]).length : Int) - 1 =
            p.pollfds.length := by
          intro pfd
          rw [List.length_append, List.length_singleton]
          omega
        simp only [hend]
        exact h.register (by omega) (Option.not_isSome_iff_eq_none.mp hfree)
    · split
      next hreg =>
        split
        · exact rfl
        · split
          · refine h.overwrite hreg ?_
            split
            · exact Or.inr rfl
            · exact Or.inl rfl
          · exact rfl
      · exact rfl

theorem removeChannel (h : Rep fd p) (c : Ch) :
    Post (· = .assertion) (Rep fd) (p.removeChannel fd c) := by
  unfold PollArray.removeChannel
  split
  next hpre =>
    obtain ⟨hreg, -, -⟩ := hpre
    dsimp only
    split
    · exact rfl
    · split
      · split
        next hlast => exact h.pop hreg hlast
        next hlast =>
          obtain ⟨back, b, hback, hb, hrep⟩ := h.swap hreg hlast
          simp only [hback, hb]
          exact hrep
      · exact rfl
  · exact rfl

theorem updateChannel_registered (h : Rep fd p) (hreg : p.channels (fd c) = some c) :
    ∃ p', p.updateChannel fd c = .ok p' := by
  obtain ⟨pfd, hpfd, hentry⟩ := h.slots.entry (slot_of_registered hreg)
  obtain ⟨-, hfd, hidx⟩ := h.key hreg
  unfold PollArray.updateChannel
  simp only [not_lt.mpr hfd, not_lt.mpr hidx, hreg, hpfd, hentry.1, if_true, if_false]
  exact ⟨_, rfl⟩

theorem answer (h : Rep fd p) (revents : Nat → BitVec 16) : Rep fd (p.answer revents) where
  key := h.key
  slots := h.slots.mapIdx fun _ _ _ he => he

end Rep

/-! ## Delivery -/

/-- The channels whose entries are ready, each with what is reported for it. -/
def readyChannels (channels : Int → Option Ch) (l : List PollEntry) : List (Ch × BitVec 16) :=
  l.filterMap fun pfd => if pfd.ready then (channels pfd.fd).map (·, pfd.revents) else none

def setReventsAll (revents : Ch → BitVec 32) (l : List (Ch × BitVec 16)) : Ch → BitVec 32 :=
  l.foldl (fun revents x => Function.update revents x.1 (x.2.signExtend 32)) revents

theorem setReventsAll_of_notMem {l : List (Ch × BitVec 16)} (hc : c ∉ l.map Prod.fst)
    (revents : Ch → BitVec 32) : setReventsAll revents l c = revents c := by
  induction l generalizing revents with
  | nil => rfl
  | cons x l ih =>
      rw [List.map_cons, List.mem_cons, not_or] at hc
      change setReventsAll (Function.update revents x.1 _) l c = _
      rw [ih hc.2, Function.update_of_ne hc.1]

theorem setReventsAll_of_mem {l : List (Ch × BitVec 16)} (hl : (l.map Prod.fst).Nodup)
    {r : BitVec 16} (hc : (c, r) ∈ l) (revents : Ch → BitVec 32) :
    setReventsAll revents l c = r.signExtend 32 := by
  induction l generalizing revents with
  | nil => cases hc
  | cons x l ih =>
      rw [List.map_cons, List.nodup_cons] at hl
      change setReventsAll (Function.update revents x.1 _) l c = _
      rcases List.mem_cons.mp hc with hx | hmem
      · subst hx
        rw [setReventsAll_of_notMem hl.1, Function.update_self]
      · exact ih hl.2 hmem _

omit [DecidableEq Ch] in
theorem readyChannels_of_count {channels : Int → Option Ch} {l : List PollEntry}
    (h : l.countP PollEntry.ready = 0) : readyChannels channels l = [] := by
  refine List.filterMap_eq_nil_iff.mpr fun pfd hpfd => ?_
  exact if_neg (List.countP_eq_zero.mp h pfd hpfd)

/-- The loop reaches the last of the reported entries and stops behind it. -/
theorem fillLoop_eq {channels : Int → Option Ch} {n : Nat} {l : List PollEntry}
    (hfound : ∀ pfd ∈ l, pfd.ready = true → ∃ c, channels pfd.fd = some c ∧ fd c = pfd.fd)
    {processed : Nat} (hcount : processed + l.countP PollEntry.ready = n)
    (revents : Ch → BitVec 32) (active : List Ch) :
    fillLoop fd channels n l revents active processed =
      .ok (setReventsAll revents (readyChannels channels l),
        active ++ (readyChannels channels l).map Prod.fst, n) := by
  induction l generalizing revents active processed with
  | nil =>
      rw [List.countP_nil] at hcount
      simp only [fillLoop, readyChannels, List.filterMap_nil, setReventsAll, List.foldl_nil,
        List.map_nil, List.append_nil, ← hcount, Nat.add_zero]
  | cons pfd l ih =>
      have hrest : ∀ pfd' ∈ l, pfd'.ready = true →
          ∃ c, channels pfd'.fd = some c ∧ fd c = pfd'.fd :=
        fun pfd' hmem => hfound pfd' (List.mem_cons_of_mem _ hmem)
      by_cases hready : pfd.ready = true
      · obtain ⟨c, hc, hfd⟩ := hfound pfd List.mem_cons_self hready
        rw [List.countP_cons_of_pos hready] at hcount
        have hcons : readyChannels channels (pfd :: l) =
            (c, pfd.revents) :: readyChannels channels l := by
          rw [readyChannels, List.filterMap_cons_some (b := (c, pfd.revents))]
          · rfl
          · rw [if_pos hready, hc, Option.map_some]
        simp only [fillLoop, hready, hc, hfd, if_true, hcons, List.map_cons]
        split
        next hlast =>
          rw [readyChannels_of_count (by omega), hlast]
          rfl
        next =>
          rw [ih hrest (by omega), List.append_assoc]
          rfl
      · rw [List.countP_cons_of_neg hready] at hcount
        have hcons : readyChannels channels (pfd :: l) = readyChannels channels l := by
          rw [readyChannels, List.filterMap_cons_none]
          · rfl
          · exact if_neg hready
        simp only [fillLoop, hready, hcons, if_false, Bool.false_eq_true]
        exact ih hrest hcount revents active

/-- `poll(2)` has reported `r` for the entry of the registered channel. -/
def Reported (fd : Ch → Int) (p : PollArray Ch) (c : Ch) (r : BitVec 16) : Prop :=
  p.channels (fd c) = some c ∧
    ∃ (i : Nat) (pfd : PollEntry), p.index c = i ∧ p.pollfds[i]? = some pfd ∧ pfd.ready = true ∧
      pfd.revents = r

/-- Exactly the reported channels are delivered, each once, with what is
reported for it; the other ones are left alone. -/
structure Delivered (fd : Ch → Int) (p p' : PollArray Ch) (ready : List Ch) : Prop where
  frame : p' = { p with revents := p'.revents }
  nodup : ready.Nodup
  reported : ∀ c, c ∈ ready ↔ ∃ r, p.Reported fd c r
  revents : ∀ c r, p.Reported fd c r → p'.revents c = r.signExtend 32
  others : ∀ c, c ∉ ready → p'.revents c = p.revents c

namespace Rep

theorem found (h : Rep fd p) {i : Nat} {pfd : PollEntry} (hpfd : p.pollfds[i]? = some pfd)
    (hpos : 0 ≤ pfd.fd) :
    ∃ c, p.channels pfd.fd = some c ∧ fd c = pfd.fd ∧ p.index c = (i : Int) := by
  obtain ⟨c, hc, hentry⟩ := h.slots.exists_owner hpfd
  obtain ⟨hreg, hidx⟩ := slot_eq_some.mp hc
  obtain ⟨-, hfd, hnonneg⟩ := h.key hreg
  rw [hentry.fd_eq hfd hpos]
  exact ⟨c, hreg, rfl, by omega⟩

variable (hpos : ∀ pfd ∈ p.pollfds, pfd.ready = true → 0 ≤ pfd.fd)
include hpos

theorem mem_readyChannels (h : Rep fd p) {r : BitVec 16} :
    (c, r) ∈ readyChannels p.channels p.pollfds ↔ p.Reported fd c r := by
  rw [readyChannels, List.mem_filterMap]
  constructor
  · rintro ⟨pfd, hmem, hpfd⟩
    rw [Option.ite_none_right_eq_some, Option.map_eq_some_iff] at hpfd
    obtain ⟨hready, d, hd, heq⟩ := hpfd
    obtain ⟨rfl, rfl⟩ := Prod.mk.inj heq
    obtain ⟨i, hi⟩ := List.mem_iff_getElem?.mp hmem
    obtain ⟨c, hc, hfd, hidx⟩ := h.found hi (hpos pfd hmem hready)
    obtain rfl := Option.some.inj (hd.symm.trans hc)
    exact ⟨hfd ▸ hc, i, pfd, hidx, hi, hready, rfl⟩
  · rintro ⟨hreg, i, pfd, hidx, hi, hready, rfl⟩
    have hmem := List.mem_of_getElem? hi
    have hslot : slot fd p.channels p.index c = some i :=
      slot_eq_some.mpr ⟨hreg, by omega⟩
    have hfd := (h.slots.entry_of hslot hi).fd_eq (h.key hreg).2.1 (hpos pfd hmem hready)
    exact ⟨pfd, hmem, by rw [if_pos hready, hfd, hreg, Option.map_some]⟩

theorem nodup_readyChannels (h : Rep fd p) :
    ((readyChannels p.channels p.pollfds).map Prod.fst).Nodup := by
  -- the channel that is delivered for a place has that place as its index
  have hplace : ∀ {i : Nat} {pfd : PollEntry} {x : Ch × BitVec 16}, p.pollfds[i]? = some pfd →
      (if pfd.ready then (p.channels pfd.fd).map (·, pfd.revents) else none) = some x →
        p.index x.1 = (i : Int) := by
    intro i pfd x hi hx
    rw [Option.ite_none_right_eq_some, Option.map_eq_some_iff] at hx
    obtain ⟨hready, d, hd, rfl⟩ := hx
    obtain ⟨c, hc, -, hidx⟩ := h.found hi (hpos pfd (List.mem_of_getElem? hi) hready)
    obtain rfl := Option.some.inj (hd.symm.trans hc)
    exact hidx
  rw [List.Nodup, List.pairwise_map, readyChannels, List.pairwise_filterMap,
    List.pairwise_iff_getElem]
  intro i j hi hj hij x hx y hy hxy
  have hxi := hplace (List.getElem?_eq_getElem hi) hx
  have hyj := hplace (List.getElem?_eq_getElem hj) hy
  rw [hxy] at hxi
  omega

theorem fill (h : Rep fd p) (active : List Ch) :
    ∃ p' ready, p.fillActiveChannels fd p.numEvents active = .ok (p', active ++ ready) ∧
      p.Delivered fd p' ready := by
  have hfound : ∀ pfd ∈ p.pollfds, pfd.ready = true →
      ∃ c, p.channels pfd.fd = some c ∧ fd c = pfd.fd := by
    intro pfd hmem hready
    obtain ⟨i, hi⟩ := List.mem_iff_getElem?.mp hmem
    obtain ⟨c, hc, hfd, -⟩ := h.found hi (hpos pfd hmem hready)
    exact ⟨c, hc, hfd⟩
  have hloop := fillLoop_eq hfound (Nat.zero_add p.numEvents) p.revents active
  have hnodup := h.nodup_readyChannels hpos
  refine ⟨{ p with revents := setReventsAll p.revents (readyChannels p.channels p.pollfds) },
    (readyChannels p.channels p.pollfds).map Prod.fst, ?_, rfl, hnodup, fun c => ?_,
    fun c r hr => ?_, fun c hc => setReventsAll_of_notMem hc _⟩
  · simp only [fillActiveChannels, hloop, if_true]
  · rw [List.mem_map]
    constructor
    · rintro ⟨⟨c, r⟩, hmem, rfl⟩
      exact ⟨r, (h.mem_readyChannels hpos).mp hmem⟩
    · rintro ⟨r, hr⟩
      exact ⟨(c, r), (h.mem_readyChannels hpos).mpr hr, rfl⟩
  · exact setReventsAll_of_mem hnodup ((h.mem_readyChannels hpos).mpr hr) _

end Rep

/-! ## Whole runs -/

omit [DecidableEq Ch] in
theorem answer_ready (p : PollArray Ch) (revents : Nat → BitVec 16) :
    ∀ pfd ∈ (p.answer revents).pollfds, pfd.ready = true → 0 ≤ pfd.fd := by
  intro pfd hmem hready
  obtain ⟨i, hi, rfl⟩ := List.mem_mapIdx.mp hmem
  by_contra hneg
  have hzero : (p.pollfds[i]).fd < 0 := not_le.mp hneg
  simp only [PollEntry.ready, if_pos hzero] at hready
  cases hready

namespace Rep

theorem poll (h : Rep fd p) (revents : Nat → BitVec 16) (active : List Ch) :
    Post (· = .assertion) (fun x => Rep fd x.1) (p.poll fd revents active) := by
  have hq := h.answer revents
  unfold PollArray.poll
  dsimp only
  split
  · obtain ⟨p', ready, hfill, hdel⟩ := hq.fill (p.answer_ready revents) active
    rw [hfill, post_ok, hdel.frame]
    exact ⟨hq.key, hq.slots⟩
  · exact hq

/-- No call does anything worse than failing an assertion. -/
theorem exec (h : Rep fd p) (a : PollArrayAct Ch) :
    Post (· = .assertion) (Rep fd) (p.exec fd a) := by
  cases a with
  | setEvents c events => exact ⟨h.key, h.slots⟩
  | updateChannel c => exact h.updateChannel c
  | removeChannel c => exact h.removeChannel c
  | poll revents =>
      have hpoll := h.poll revents []
      change Post _ _ ((p.poll fd revents []).map Prod.fst)
      cases hres : p.poll fd revents [] with
      | ok x => exact hpoll.of_ok hres
      | error f => exact hpoll.of_error hres

end Rep

/-- The mask is the value of a `short`. -/
def FitsShort (m : BitVec 32) : Prop := -2 ^ 15 ≤ m.toInt ∧ m.toInt < 2 ^ 15

theorem FitsShort.toInt_setWidth {m : BitVec 32} (h : FitsShort m) :
    (m.setWidth 16).toInt = m.toInt := by
  obtain ⟨hlow, hhigh⟩ := h
  have hm : m.toInt = Int.bmod m.toNat (2 ^ 32) := BitVec.toInt_eq_toNat_bmod m
  have hdvd : 2 ^ 16 ∣ 2 ^ 32 := ⟨2 ^ 16, rfl⟩
  rw [BitVec.toInt_setWidth, ← Int.bmod_bmod_of_dvd hdvd, ← hm]
  exact Int.bmod_eq_of_le (by omega) (by omega)

/-- Each registered descriptor has one entry, at the index of its channel and
with the mask of its last update, and each entry one channel. -/
structure Corresponds (fd : Ch → Int) (p : PollArray Ch) : Prop where
  entry : ∀ k c, p.channels k = some c → fd c = k ∧
    ∃ (i : Nat) (pfd : PollEntry), p.index c = i ∧ p.pollfds[i]? = some pfd ∧ pfd.IsFor k ∧
      pfd.events = (p.updated c).setWidth 16 ∧
      (FitsShort (p.updated c) → pfd.events.toInt = (p.updated c).toInt)
  unique : ∀ k c, p.channels k = some c → ∀ (i : Nat) (pfd : PollEntry),
    p.pollfds[i]? = some pfd → pfd.IsFor k → p.index c = i
  onto : ∀ (i : Nat) (pfd : PollEntry), p.pollfds[i]? = some pfd →
    ∃! c, p.channels (fd c) = some c ∧ p.index c = i

theorem Rep.corresponds (h : Rep fd p) : Corresponds fd p where
  entry k c hk := by
    obtain ⟨rfl, -, hidx⟩ := h.key hk
    obtain ⟨pfd, hpfd, hfor, hevents⟩ := h.slots.entry (slot_of_registered hk)
    refine ⟨rfl, _, pfd, (Int.toNat_of_nonneg hidx).symm, hpfd, hfor, hevents, fun hfits => ?_⟩
    rw [hevents, hfits.toInt_setWidth]
  unique k c hk i pfd hi hfor := by
    obtain ⟨rfl, hpos, -⟩ := h.key hk
    obtain ⟨d, hd, hentry⟩ := h.slots.exists_owner hi
    obtain ⟨hreg, hidx⟩ := slot_eq_some.mp hd
    obtain ⟨-, hdpos, hnonneg⟩ := h.key hreg
    have hfd := hfor.unique hentry.1 hpos hdpos
    rw [← hfd, hk, Option.some.injEq] at hreg
    subst hreg
    omega
  onto i pfd hi := by
    obtain ⟨c, hc, -⟩ := h.slots.exists_owner hi
    obtain ⟨hreg, hidx⟩ := slot_eq_some.mp hc
    obtain ⟨-, -, hnonneg⟩ := h.key hreg
    refine ⟨c, ⟨hreg, by omega⟩, fun d hd => ?_⟩
    exact h.slots.inj (slot_eq_some.mpr ⟨hd.1, by omega⟩) hc

end PollArray

open PollArray in
/-- **The array of the poller.** In every run of calls that meet the
assertions the registered channels and the places of the array correspond to
each other, each entry has the mask of the last update of its channel, and
what `poll(2)` reports is delivered to exactly the channels it is for. No
call uses a missing pointer, and the update of a registered channel fails no
assertion. -/
theorem pollfds_correspond {Ch : Type} [DecidableEq Ch] (fd : Ch → Int)
    (acts : List (PollArrayAct Ch)) :
    Throughout (PollArrayStep fd)
      (fun p => Corresponds fd p ∧
        (∀ a f, p.exec fd a = .error f → f = .assertion) ∧
        (∀ c, p.channels (fd c) = some c → ∃ p', p.updateChannel fd c = .ok p') ∧
        ∀ revents active, ∃ p' ready,
          (p.answer revents).fillActiveChannels fd (p.answer revents).numEvents active =
              .ok (p', active ++ ready) ∧
            (p.answer revents).Delivered fd p' ready) .new acts := by
  intro pre p _ hrun
  have h : Rep fd p := hrun.invariant (fun _ a _ h hs => (h.exec a).of_ok hs) Rep.new
  refine ⟨h.corresponds, fun a f hf => (h.exec a).of_error hf,
    fun c hreg => h.updateChannel_registered hreg, fun revents active => ?_⟩
  exact (h.answer revents).fill (p.answer_ready revents) active

/-- Three channels are registered, and the first is disabled and removed. -/
def removeFirst : List (PollArrayAct (Fin 3)) :=
  [.setEvents 0 Channel.kReadEvent, .updateChannel 0, .setEvents 1 Channel.kReadEvent,
    .updateChannel 1, .setEvents 2 Channel.kWriteEvent, .updateChannel 2, .setEvents 0 0,
    .updateChannel 0, .removeChannel 0]

/-- The last channel has moved to the first place. -/
theorem pollfds_correspond_after_remove :
    ∃ p, Run (PollArrayStep fun c : Fin 3 => (c : Int) + 5) .new removeFirst p ∧
      p.pollfds = [⟨7, 4, 0⟩, ⟨6, 3, 0⟩] ∧ p.index 2 = 0 ∧
      PollArray.Corresponds (fun c : Fin 3 => (c : Int) + 5) p := by
  have hrun : ∃ p, Run (PollArrayStep fun c : Fin 3 => (c : Int) + 5) .new removeFirst p ∧
      p.pollfds = [⟨7, 4, 0⟩, ⟨6, 3, 0⟩] ∧ p.index 2 = 0 :=
    ⟨_, Run.of_foldlM_ok (f := PollArray.exec fun c : Fin 3 => (c : Int) + 5) rfl, rfl, rfl⟩
  obtain ⟨p, hp, hpollfds, hindex⟩ := hrun
  have hall := pollfds_correspond _ removeFirst removeFirst p List.prefix_rfl hp
  exact ⟨p, hp, hpollfds, hindex, hall.1⟩

end Netpoll
