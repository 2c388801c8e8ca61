import Mathlib.Logic.Function.Basic
import Netpoll.Channel
import Netpoll.Runs
import Netpoll.Slots

/-!
# The three pollers

`EpollPoller`, `KQueue` and `PollPoller` (`net/inner/poller/`) tell the
kernel which descriptors to watch. Each keeps its own notion of a
channel's state in the channel's `m_index`: new, added or deleted for the
first two, the position in the `pollfd` array for the third.

`Table` is what the channels ask for: their masks, and which of them are
registered. The three pollers are run side by side on the same operations,
and each is compared with the table: `EpollPoller.ofTable` and
`KQueue.ofTable` are the states they are to be in, `PollPoller.Rep` ties
the array to the table. The assertions of the source are part of the model:
one that fails is a fault, after which a poller does nothing any more.
-/

namespace Netpoll

/-- The masks that the operations of a channel make. -/
structure Interest where
  read : Bool
  write : Bool
  deriving DecidableEq, Repr

namespace Interest

/-- `kNoneEvent` -/
def none : Interest := ⟨false, false⟩

def mask (i : Interest) : BitVec 32 :=
  (if i.read then Channel.kReadEvent else 0#32) ||| (if i.write then Channel.kWriteEvent else 0#32)

end Interest

/-- The operations of `Channel` that end in `update()`. -/
inductive ChannelOp where
  | enableReading | disableReading | enableWriting | disableWriting | disableAll
  | updateEvents (events : Interest)
  deriving DecidableEq, Repr

def ChannelOp.apply (i : Interest) : ChannelOp → Interest
  | .enableReading => { i with read := true }
  | .disableReading => { i with read := false }
  | .enableWriting => { i with write := true }
  | .disableWriting => { i with write := false }
  | .disableAll => .none
  | .updateEvents events => events

/-- On the bits of the mask the operations are those of `Channel`. -/
theorem ChannelOp.mask_apply (i : Interest) (revents : BitVec 32) :
    (enableReading.apply i).mask = (Channel.mk i.mask revents).enableReading.events ∧
      (enableWriting.apply i).mask = (Channel.mk i.mask revents).enableWriting.events ∧
      (disableReading.apply i).mask = (Channel.mk i.mask revents).disableReading.events ∧
      (disableWriting.apply i).mask = (Channel.mk i.mask revents).disableWriting.events ∧
      (disableAll.apply i).mask = (Channel.mk i.mask revents).disableAll.events := by
  obtain ⟨r, w⟩ := i
  simp only [Channel.enableReading, Channel.enableWriting, Channel.disableReading,
    Channel.disableWriting, Channel.disableAll]
  cases r <;> cases w <;> decide

theorem Interest.mask_tests (i : Interest) (revents : BitVec 32) :
    (Channel.mk i.mask revents).isNoneEvent = decide (i = .none) ∧
      (Channel.mk i.mask revents).isReading = i.read ∧
      (Channel.mk i.mask revents).isWriting = i.write := by
  obtain ⟨r, w⟩ := i
  simp only [Channel.isNoneEvent, Channel.isReading, Channel.isWriting]
  cases r <;> cases w <;> decide

/-! ## What the channels ask for -/

/-- The channels, by their descriptors. -/
structure Table where
  events : Nat → Interest
  /-- Updated, and not removed since. -/
  registered : Nat → Bool
  /-- Removed at some time. -/
  removed : Nat → Bool

namespace Table

def new : Table := ⟨fun _ => .none, fun _ => false, fun _ => false⟩

def update (t : Table) (fd : Nat) (events : Interest) : Table :=
  { t with
    events := Function.update t.events fd events
    registered := Function.update t.registered fd true }

def remove (t : Table) (fd : Nat) : Table :=
  { t with
    registered := Function.update t.registered fd false
    removed := Function.update t.removed fd true }

/-- The interest that the kernel is to have in a descriptor. -/
def wanted (t : Table) (fd : Nat) : Option Interest :=
  if t.events fd = .none then none else some (t.events fd)

end Table

/-! ## `EpollPoller` -/

/-- `kNew`, `kAdded` and `kDeleted`. -/
inductive PollIndex where
  | new | added | deleted
  deriving DecidableEq, Repr

inductive EpollOp where
  | add | mod | del
  deriving DecidableEq, Repr

/-- The interest list of an epoll instance; an operation that fails changes
nothing. -/
def epollCtl (op : EpollOp) (fd : Nat) (events : Interest) (list : Nat → Option Interest) :
    Nat → Option Interest :=
  match op, list fd with
  | .add, none => Function.update list fd (some events)
  | .mod, some _ => Function.update list fd (some events)
  | .del, some _ => Function.update list fd none
  | _, _ => list

structure EpollPoller where
  index : Nat → PollIndex
  /-- The keys of `m_channels`. -/
  channels : Nat → Bool
  interest : Nat → Option Interest

namespace EpollPoller

def new : EpollPoller := ⟨fun _ => .new, fun _ => false, fun _ => none⟩

def update (p : EpollPoller) (op : EpollOp) (fd : Nat) (events : Interest) : EpollPoller :=
  { p with interest := epollCtl op fd events p.interest }

def setIndex (p : EpollPoller) (fd : Nat) (index : PollIndex) : EpollPoller :=
  { p with index := Function.update p.index fd index }

def updateChannel (p : EpollPoller) (fd : Nat) (events : Interest) : Except Fault EpollPoller :=
  match p.index fd with
  | .new =>
      if p.channels fd then .error .assertion
      else
        let p := { p with channels := Function.update p.channels fd true }
        .ok ((p.setIndex fd .added).update .add fd events)
  | .deleted =>
      if p.channels fd then .ok ((p.setIndex fd .added).update .add fd events)
      else .error .assertion
  | .added =>
      if p.channels fd then
        if events = .none then .ok ((p.update .del fd events).setIndex fd .deleted)
        else .ok (p.update .mod fd events)
      else .error .assertion

def removeChannel (p : EpollPoller) (fd : Nat) (events : Interest) : Except Fault EpollPoller :=
  if p.channels fd ∧ events = .none then
    let p := { p with channels := Function.update p.channels fd false }
    match p.index fd with
    | .new => .error .assertion
    | .added => .ok ((p.update .del fd events).setIndex fd .new)
    | .deleted => .ok (p.setIndex fd .new)
  else .error .assertion

end EpollPoller

/-! ## `KQueue` -/

structure KQueue where
  index : Nat → PollIndex
  /-- `channels_`, with the mask of the last update. -/
  channels : Nat → Option Interest
  /-- The filters for reading and writing that the kernel has. -/
  filters : Nat → Interest

/-- One of the two `EV_ADD`s or `EV_DELETE`s of `update`, if any. -/
def kevent (events oldEvents filter : Bool) : Bool :=
  if events && !oldEvents then true
  else if !events && oldEvents then false
  else filter

namespace KQueue

def new : KQueue := ⟨fun _ => .new, fun _ => none, fun _ => .none⟩

def update (p : KQueue) (fd : Nat) (events : Interest) : KQueue :=
  let oldEvents := (p.channels fd).getD .none
  { p with
    channels := Function.update p.channels fd (some events)
    filters := Function.update p.filters fd
      ⟨kevent events.read oldEvents.read (p.filters fd).read,
        kevent events.write oldEvents.write (p.filters fd).write⟩ }

def setIndex (p : KQueue) (fd : Nat) (index : PollIndex) : KQueue :=
  { p with index := Function.update p.index fd index }

def updateChannel (p : KQueue) (fd : Nat) (events : Interest) : Except Fault KQueue :=
  match p.index fd with
  | .new =>
      if (p.channels fd).isSome then .error .assertion
      else .ok ((p.update fd events).setIndex fd .added)
  | .deleted =>
      if (p.channels fd).isSome then .ok ((p.update fd events).setIndex fd .added)
      else .error .assertion
  | .added =>
      if (p.channels fd).isSome then
        if events = .none then .ok ((p.update fd events).setIndex fd .deleted)
        else .ok (p.update fd events)
      else .error .assertion

def removeChannel (p : KQueue) (fd : Nat) (events : Interest) : Except Fault KQueue :=
  if (p.channels fd).isSome ∧ events = .none then
    let erase (p : KQueue) : KQueue :=
      { p with channels := Function.update p.channels fd none }.setIndex fd .new
    match p.index fd with
    | .new => .error .assertion
    | .added => .ok (erase (p.update fd events))
    | .deleted => .ok (erase p)
  else .error .assertion

/-- A descriptor without filters is not watched. -/
def interest (p : KQueue) (fd : Nat) : Option Interest :=
  if p.filters fd = .none then none else some (p.filters fd)

end KQueue

/-! ## `PollPoller` -/

structure PollFd where
  fd : Int
  events : Interest
  deriving DecidableEq, Repr

/-- How an ignored descriptor is written into the array. -/
def ignoredFd (fd : Nat) : Int := -(fd : Int) - 1

structure PollPoller where
  /-- `none` is an index below 0. -/
  index : Nat → Option Nat
  /-- The keys of `channels_`. -/
  channels : Nat → Bool
  pollfds : List PollFd

namespace PollPoller

def new : PollPoller := ⟨fun _ => none, fun _ => false, []⟩

def setIndex (p : PollPoller) (fd idx : Nat) : PollPoller :=
  { p with index := Function.update p.index fd (some idx) }

def updateChannel (p : PollPoller) (fd : Nat) (events : Interest) : Except Fault PollPoller :=
  match p.index fd with
  | none =>
      if p.channels fd then .error .assertion
      else
        .ok { p.setIndex fd p.pollfds.length with
          channels := Function.update p.channels fd true
          pollfds := p.pollfds ++ [⟨fd, events⟩] }
  | some idx =>
      if p.channels fd then
        match p.pollfds[idx]? with
        | none => .error .assertion
        | some pfd =>
            if pfd.fd = fd ∨ pfd.fd = ignoredFd fd then
              let pfd : PollFd := ⟨if events = .none then ignoredFd fd else fd, events⟩
              .ok { p with pollfds := p.pollfds.set idx pfd }
            else .error .assertion
      else .error .assertion

/-- The channel of the last entry of the array. -/
def channelAtEnd (back : PollFd) : Nat :=
  (if back.fd < 0 then -back.fd - 1 else back.fd).toNat

/-- The index of the removed channel stays as it is. -/
def removeChannel (p : PollPoller) (fd : Nat) (events : Interest) : Except Fault PollPoller :=
  if p.channels fd ∧ events = .none then
    match p.index fd with
    | none => .error .assertion
    | some idx =>
        match p.pollfds[idx]?, p.pollfds.getLast? with
        | some pfd, some back =>
            if pfd.fd = ignoredFd fd ∧ pfd.events = events then
              let p := { p with channels := Function.update p.channels fd false }
              if idx = p.pollfds.length - 1 then .ok { p with pollfds := p.pollfds.dropLast }
              else if p.channels (channelAtEnd back) then
                .ok { p.setIndex (channelAtEnd back) idx with
                  pollfds := (p.pollfds.set idx back).dropLast }
              else .error .nullPointer
            else .error .assertion
        | _, _ => .error .assertion
  else .error .assertion

/-- `poll` watches the entries whose descriptor is not negative. -/
def interest (p : PollPoller) (fd : Nat) : Option Interest :=
  (p.pollfds.find? fun pfd => pfd.fd == (fd : Int)).map PollFd.events

end PollPoller

/-! ## Side by side -/

structure Pollers where
  table : Table
  epoll : Except Fault EpollPoller
  kqueue : Except Fault KQueue
  poll : Except Fault PollPoller

inductive PollAct where
  | update (fd : Nat) (op : ChannelOp)
  | remove (fd : Nat)
  deriving DecidableEq, Repr

namespace Pollers

def new : Pollers := ⟨.new, .ok .new, .ok .new, .ok .new⟩

/-- A channel is removed only when it has no enabled event. -/
def exec (s : Pollers) : PollAct → Option Pollers
  | .update fd op =>
      let events := op.apply (s.table.events fd)
      some
        { table := s.table.update fd events
          epoll := s.epoll.bind fun p => p.updateChannel fd events
          kqueue := s.kqueue.bind fun p => p.updateChannel fd events
          poll := s.poll.bind fun p => p.updateChannel fd events }
  | .remove fd =>
      let events := s.table.events fd
      if events = .none then
        some
          { table := s.table.remove fd
            epoll := s.epoll.bind fun p => p.removeChannel fd events
            kqueue := s.kqueue.bind fun p => p.removeChannel fd events
            poll := s.poll.bind fun p => p.removeChannel fd events }
      else none

/-- Under each poller the kernel watches exactly the channels with a
non-empty mask, each with that mask. -/
structure Agree (s : Pollers) : Prop where
  epoll : ∃ p, s.epoll = .ok p ∧ ∀ fd, p.interest fd = s.table.wanted fd
  kqueue : ∃ p, s.kqueue = .ok p ∧ ∀ fd, p.interest fd = s.table.wanted fd
  poll : ∃ p, s.poll = .ok p ∧ ∀ fd, p.interest fd = s.table.wanted fd

/-- Only a registered channel is removed, a removed one is not used again,
and an empty mask is only set in place of another one. -/
def Proper (s : Pollers) : PollAct → Prop
  | .update fd op => s.table.removed fd = false ∧
      (s.table.events fd ≠ .none ∨ op.apply (s.table.events fd) ≠ .none)
  | .remove fd => s.table.registered fd = true

end Pollers

def PollStep (s : Pollers) (a : PollAct) (s' : Pollers) : Prop := s.exec a = some s'

/-! ## Tables -/

namespace Table

/-- What the masks say about the history, while removed channels stay so. -/
structure Sound (t : Table) : Prop where
  registered : ∀ fd, t.events fd ≠ .none → t.registered fd = true
  removed : ∀ fd, t.removed fd = true → t.registered fd = false

theorem Sound.events_eq {t : Table} (ht : t.Sound) {fd : Nat} (h : t.registered fd = false) :
    t.events fd = .none := by
  by_contra hne
  rw [ht.registered fd hne] at h
  cases h

theorem registered_update_self {t : Table} {fd : Nat} (h : t.registered fd = true) :
    Function.update t.registered fd true = t.registered :=
  Function.update_eq_self_iff.mpr h.symm

theorem registered_remove {t : Table} {fd d : Nat} :
    (t.remove fd).registered d = true ↔ d ≠ fd ∧ t.registered d = true := by
  by_cases hd : d = fd
  · subst hd
    simp only [Table.remove, Function.update_self, Bool.false_eq_true, ne_eq, not_true_eq_false,
      false_and]
  · simp only [Table.remove, Function.update_of_ne hd, ne_eq, hd, not_false_eq_true, true_and]

theorem sound_new : Table.new.Sound :=
  ⟨fun _ h => absurd rfl h, fun _ h => by cases h⟩

theorem Sound.update {t : Table} (ht : t.Sound) {fd : Nat} (h : t.removed fd = false)
    (events : Interest) : (t.update fd events).Sound := by
  refine ⟨fun d hd => ?_, fun d hd => ?_⟩
  · by_cases hfd : d = fd
    · rw [hfd]
      exact Function.update_self ..
    · simp only [Table.update, Function.update_of_ne hfd] at hd ⊢
      exact ht.registered d hd
  · have hfd : d ≠ fd := by
      rintro rfl
      simp only [Table.update, h, Bool.false_eq_true] at hd
    simp only [Table.update, Function.update_of_ne hfd]
    exact ht.removed d hd

theorem Sound.remove {t : Table} (ht : t.Sound) {fd : Nat} (h : t.events fd = .none) :
    (t.remove fd).Sound := by
  refine ⟨fun d hd => ?_, fun d hd => ?_⟩
  · have hfd : d ≠ fd := by
      rintro rfl
      exact hd h
    exact registered_remove.mpr ⟨hfd, ht.registered d hd⟩
  · by_cases hfd : d = fd
    · rw [hfd]
      exact Function.update_self ..
    · simp only [Table.remove, Function.update_of_ne hfd] at hd ⊢
      exact ht.removed d hd

/-- The state of a channel as `EpollPoller` and `KQueue` keep it. -/
def index (t : Table) (fd : Nat) : PollIndex :=
  if t.registered fd then if t.events fd = .none then .deleted else .added else .new

/-- `channels_` of `KQueue`: the masks of the registered channels. -/
def mapped (t : Table) (fd : Nat) : Option Interest :=
  if t.registered fd then some (t.events fd) else none

/-- The entry of a registered channel in the array of `PollPoller`. -/
def pollFd (t : Table) (fd : Nat) : PollFd :=
  ⟨if t.events fd = .none then ignoredFd fd else fd, t.events fd⟩

section pointwise

variable (t : Table) (fd : Nat) (events : Interest)

theorem index_update : (t.update fd events).index =
    Function.update t.index fd (if events = .none then .deleted else .added) := by
  funext d
  by_cases hd : d = fd
  · subst hd
    simp only [index, update, Function.update_self, if_true]
  · simp only [index, update, Function.update_of_ne hd]

theorem wanted_update : (t.update fd events).wanted =
    Function.update t.wanted fd (if events = .none then none else some events) := by
  funext d
  by_cases hd : d = fd
  · subst hd
    simp only [wanted, update, Function.update_self]
  · simp only [wanted, update, Function.update_of_ne hd]

theorem index_remove : (t.remove fd).index = Function.update t.index fd .new := by
  funext d
  by_cases hd : d = fd
  · subst hd
    simp only [index, remove, Function.update_self, Bool.false_eq_true, if_false]
  · simp only [index, remove, Function.update_of_ne hd]
    rfl

theorem mapped_update :
    (t.update fd events).mapped = Function.update t.mapped fd (some events) := by
  funext d
  by_cases hd : d = fd
  · subst hd
    simp only [mapped, update, Function.update_self, if_true]
  · simp only [mapped, update, Function.update_of_ne hd]

theorem mapped_remove : (t.remove fd).mapped = Function.update t.mapped fd none := by
  funext d
  by_cases hd : d = fd
  · subst hd
    simp only [mapped, remove, Function.update_self, Bool.false_eq_true, if_false]
  · simp only [mapped, remove, Function.update_of_ne hd]

end pointwise

theorem Sound.getD_mapped {t : Table} (ht : t.Sound) (fd : Nat) :
    (t.mapped fd).getD .none = t.events fd := by
  cases hreg : t.registered fd with
  | false => simp only [mapped, hreg, Bool.false_eq_true, if_false, ht.events_eq hreg,
      Option.getD_none]
  | true => simp only [mapped, hreg, if_true, Option.getD_some]

end Table

/-! ## `EpollPoller` follows the table -/

theorem epollCtl_add {fd : Nat} {list : Nat → Option Interest} (h : list fd = none)
    (events : Interest) : epollCtl .add fd events list = Function.update list fd (some events) := by
  simp only [epollCtl, h]

theorem epollCtl_mod {fd : Nat} {list : Nat → Option Interest} {old : Interest}
    (h : list fd = some old) (events : Interest) :
    epollCtl .mod fd events list = Function.update list fd (some events) := by
  simp only [epollCtl, h]

theorem epollCtl_del {fd : Nat} {list : Nat → Option Interest} {old : Interest}
    (h : list fd = some old) (events : Interest) :
    epollCtl .del fd events list = Function.update list fd none := by
  simp only [epollCtl, h]

namespace EpollPoller

def ofTable (t : Table) : EpollPoller := ⟨t.index, t.registered, t.wanted⟩

/-- A channel without events is handed to the kernel, whatever its new mask is. -/
theorem updateChannel_of_none {t : Table} {fd : Nat} (h : t.events fd = .none)
    (events : Interest) :
    (ofTable t).updateChannel fd events =
      .ok ⟨Function.update t.index fd .added, Function.update t.registered fd true,
        Function.update t.wanted fd (some events)⟩ := by
  have hwanted : t.wanted fd = none := if_pos h
  have hadd := epollCtl_add hwanted events
  cases hreg : t.registered fd with
  | false =>
      have hindex : t.index fd = .new := by
        simp only [Table.index, hreg, Bool.false_eq_true, if_false]
      simp only [updateChannel, ofTable, setIndex, update, hindex, hreg, hadd, Bool.false_eq_true,
        if_false]
  | true =>
      have hindex : t.index fd = .deleted := by simp only [Table.index, hreg, h, if_true]
      simp only [updateChannel, ofTable, setIndex, update, hindex, hreg, hadd,
        Table.registered_update_self hreg, if_true]

theorem updateChannel_ofTable {t : Table} (ht : t.Sound) {fd : Nat} {events : Interest}
    (h : t.events fd ≠ .none ∨ events ≠ .none) :
    (ofTable t).updateChannel fd events = .ok (ofTable (t.update fd events)) := by
  rw [ofTable.eq_def (t.update fd events), Table.index_update, Table.wanted_update]
  by_cases hnone : t.events fd = .none
  · have hevents := h.resolve_left (not_not_intro hnone)
    rw [updateChannel_of_none hnone, if_neg hevents, if_neg hevents]
    rfl
  · have hreg := ht.registered fd hnone
    have hindex : t.index fd = .added := by simp only [Table.index, hreg, hnone, if_true, if_false]
    have hwanted : t.wanted fd = some (t.events fd) := if_neg hnone
    have hset := Table.registered_update_self hreg
    by_cases hevents : events = .none
    · simp only [updateChannel, ofTable, setIndex, update, hindex, hreg, hset, hevents,
        epollCtl_del hwanted, Table.update, if_true]
    · have hsetIndex : Function.update t.index fd .added = t.index :=
        Function.update_eq_self_iff.mpr hindex.symm
      simp only [updateChannel, ofTable, update, hindex, hreg, hset, hevents, hsetIndex,
        epollCtl_mod hwanted, Table.update, if_true, if_false]

theorem removeChannel_ofTable {t : Table} {fd : Nat} (hreg : t.registered fd = true)
    (h : t.events fd = .none) :
    (ofTable t).removeChannel fd (t.events fd) = .ok (ofTable (t.remove fd)) := by
  have hindex : t.index fd = .deleted := by simp only [Table.index, hreg, h, if_true]
  rw [ofTable, ofTable, Table.index_remove]
  simp only [removeChannel, hreg, h, hindex, setIndex, and_self, if_true]
  rfl

end EpollPoller

/-! ## `KQueue` follows the table -/

theorem kevent_self (events old : Bool) : kevent events old old = events := by
  cases events <;> cases old <;> rfl

namespace KQueue

def ofTable (t : Table) : KQueue := ⟨t.index, t.mapped, t.events⟩

theorem update_ofTable {t : Table} (ht : t.Sound) (fd : Nat) (events : Interest) :
    (ofTable t).update fd events = { ofTable (t.update fd events) with index := t.index } := by
  simp only [update, ofTable, Table.mapped_update, ht.getD_mapped, kevent_self]
  rfl

theorem updateChannel_ofTable {t : Table} (ht : t.Sound) {fd : Nat} {events : Interest}
    (h : t.events fd ≠ .none ∨ events ≠ .none) :
    (ofTable t).updateChannel fd events = .ok (ofTable (t.update fd events)) := by
  have hgoal : ofTable (t.update fd events) = ((ofTable t).update fd events).setIndex fd
      (if events = .none then .deleted else .added) := by
    rw [update_ofTable ht, setIndex, ← Table.index_update]
    rfl
  rw [hgoal]
  cases hreg : t.registered fd with
  | false =>
      have hnone := ht.events_eq hreg
      have hevents := h.resolve_left (not_not_intro hnone)
      simp only [updateChannel, ofTable, Table.index, Table.mapped, hreg, hevents,
        Bool.false_eq_true, if_false, Option.isSome_none]
  | true =>
      by_cases hnone : t.events fd = .none
      · have hevents := h.resolve_left (not_not_intro hnone)
        simp only [updateChannel, ofTable, Table.index, Table.mapped, hreg, hnone, hevents, if_true,
          if_false, Option.isSome_some]
      · by_cases hevents : events = .none
        · simp only [updateChannel, ofTable, Table.index, Table.mapped, hreg, hnone, hevents,
            if_true, if_false, Option.isSome_some]
        · have hindex : t.index fd = .added := by
            simp only [Table.index, hreg, hnone, if_true, if_false]
          have hsame : ((ofTable t).update fd events).setIndex fd .added =
              (ofTable t).update fd events := by
            rw [setIndex, Function.update_eq_self_iff.mpr]
            exact hindex.symm
          rw [if_neg hevents, hsame]
          simp only [updateChannel, ofTable, hindex, Table.mapped, hreg, hevents,
            if_true, if_false, Option.isSome_some]

theorem removeChannel_ofTable {t : Table} {fd : Nat} (hreg : t.registered fd = true)
    (h : t.events fd = .none) :
    (ofTable t).removeChannel fd (t.events fd) = .ok (ofTable (t.remove fd)) := by
  have hindex : t.index fd = .deleted := by simp only [Table.index, hreg, h, if_true]
  have hmapped : t.mapped fd = some .none := by simp only [Table.mapped, hreg, h, if_true]
  rw [ofTable, ofTable, Table.index_remove, Table.mapped_remove]
  simp only [removeChannel, hmapped, h, hindex, setIndex, Option.isSome_some, and_self, if_true]
  rfl

end KQueue

/-! ## `PollPoller` follows the table -/

namespace Table

theorem channelAtEnd_pollFd (t : Table) (fd : Nat) :
    PollPoller.channelAtEnd (t.pollFd fd) = fd := by
  by_cases h : t.events fd = .none
  · have hneg : ignoredFd fd < 0 := by unfold ignoredFd; omega
    have hback : -ignoredFd fd - 1 = fd := by unfold ignoredFd; omega
    simp only [PollPoller.channelAtEnd, pollFd, h, hneg, hback, if_true, Int.toNat_natCast]
  · have hpos : ¬ (fd : Int) < 0 := by omega
    simp only [PollPoller.channelAtEnd, pollFd, h, hpos, if_false, Int.toNat_natCast]

theorem pollFd_injective (t : Table) : Function.Injective t.pollFd := fun d fd h => by
  rw [← t.channelAtEnd_pollFd d, h, t.channelAtEnd_pollFd]

theorem pollFd_fd_eq {t : Table} {d fd : Nat} (h : (t.pollFd d).fd = fd) :
    d = fd ∧ t.events fd ≠ .none := by
  by_cases hd : t.events d = .none
  · simp only [pollFd, hd, if_true, ignoredFd] at h
    omega
  · simp only [pollFd, hd, if_false, Nat.cast_inj] at h
    exact ⟨h, h ▸ hd⟩

theorem pollFd_update_of_ne {fd d : Nat} (hd : d ≠ fd) (t : Table) (events : Interest) :
    (t.update fd events).pollFd d = t.pollFd d := by
  simp only [pollFd, update, Function.update_of_ne hd]

theorem pollFd_update_self (t : Table) (fd : Nat) (events : Interest) :
    (t.update fd events).pollFd fd = ⟨if events = .none then ignoredFd fd else fd, events⟩ := by
  simp only [pollFd, update, Function.update_self]

end Table

namespace PollPoller

/-- The registered channels and the entries of the array are in bijection,
through the index. -/
structure Rep (t : Table) (p : PollPoller) : Prop where
  channels : p.channels = t.registered
  fresh : ∀ fd, p.index fd = none ↔ t.registered fd = false ∧ t.removed fd = false
  entry : ∀ fd i, t.registered fd = true → p.index fd = some i →
    p.pollfds[i]? = some (t.pollFd fd)
  owner : ∀ i pfd, p.pollfds[i]? = some pfd → ∃ fd, t.registered fd = true ∧ p.index fd = some i

/-- The place of a registered channel. -/
def slot (registered : Nat → Bool) (index : Nat → Option Nat) (fd : Nat) : Option Nat :=
  if registered fd then index fd else none

section Slot

variable {registered : Nat → Bool} {index : Nat → Option Nat} {fd i : Nat}

theorem slot_eq_some :
    slot registered index fd = some i ↔ registered fd = true ∧ index fd = some i := by
  rw [slot, Option.ite_none_right_eq_some]

theorem slot_eq_none (h : registered fd = false) : slot registered index fd = none := by
  rw [slot, h, if_neg Bool.false_ne_true]

theorem slot_setIndex (h : registered fd = true) :
    slot registered (Function.update index fd (some i)) =
      Function.update (slot registered index) fd (some i) := by
  funext d
  by_cases hd : d = fd
  · subst hd
    rw [Function.update_self, slot, if_pos h, Function.update_self]
  · rw [Function.update_of_ne hd, slot, slot, Function.update_of_ne hd]

theorem slot_register :
    slot (Function.update registered fd true) (Function.update index fd (some i)) =
      Function.update (slot registered index) fd (some i) := by
  rw [slot_setIndex (Function.update_self ..)]
  funext d
  by_cases hd : d = fd
  · rw [hd, Function.update_self, Function.update_self]
  · rw [Function.update_of_ne hd, Function.update_of_ne hd, slot, slot, Function.update_of_ne hd]

theorem slot_erase :
    slot (Function.update registered fd false) index =
      Function.update (slot registered index) fd none := by
  funext d
  by_cases hd : d = fd
  · subst hd
    rw [Function.update_self, slot_eq_none (Function.update_self ..)]
  · rw [Function.update_of_ne hd, slot, slot, Function.update_of_ne hd]

end Slot

namespace Rep

variable {t : Table} {p : PollPoller}

theorem new : Rep .new .new :=
  ⟨rfl, fun _ => ⟨fun _ => ⟨rfl, rfl⟩, fun _ => rfl⟩, (fun _ _ h => by cases h),
    (fun _ _ h => by cases h)⟩

theorem exists_index (hp : Rep t p) {fd : Nat} (h : t.registered fd = true) :
    ∃ i, p.index fd = some i ∧ p.pollfds[i]? = some (t.pollFd fd) := by
  cases hi : p.index fd with
  | none =>
      rw [((hp.fresh fd).mp hi).1] at h
      cases h
  | some i => exact ⟨i, rfl, hp.entry fd i h hi⟩

theorem exists_owner (hp : Rep t p) {i : Nat} {pfd : PollFd} (h : p.pollfds[i]? = some pfd) :
    ∃ fd, t.registered fd = true ∧ p.index fd = some i ∧ pfd = t.pollFd fd := by
  obtain ⟨fd, hreg, hi⟩ := hp.owner i pfd h
  refine ⟨fd, hreg, hi, Option.some.inj ?_⟩
  rw [← h, hp.entry fd i hreg hi]

theorem slots (hp : Rep t p) :
    Slots (slot t.registered p.index) (fun fd pfd => pfd = t.pollFd fd) p.pollfds where
  entry hi := by
    obtain ⟨hreg, hi⟩ := slot_eq_some.mp hi
    exact ⟨_, hp.entry _ _ hreg hi, rfl⟩
  owner i hi := by
    obtain ⟨fd, hreg, hfd⟩ := hp.owner i _ (List.getElem?_eq_getElem hi)
    exact ⟨fd, slot_eq_some.mpr ⟨hreg, hfd⟩⟩
  inj hi hj := by
    obtain ⟨hireg, hi⟩ := slot_eq_some.mp hi
    obtain ⟨hjreg, hj⟩ := slot_eq_some.mp hj
    have heq := (hp.entry _ _ hireg hi).symm.trans (hp.entry _ _ hjreg hj)
    exact t.pollFd_injective (Option.some.inj heq)

theorem of_slots (hchannels : p.channels = t.registered)
    (hfresh : ∀ fd, p.index fd = none ↔ t.registered fd = false ∧ t.removed fd = false)
    (h : Slots (slot t.registered p.index) (fun fd pfd => pfd = t.pollFd fd) p.pollfds) :
    Rep t p where
  channels := hchannels
  fresh := hfresh
  entry fd i hreg hi := by
    obtain ⟨pfd, hpfd, rfl⟩ := h.entry (slot_eq_some.mpr ⟨hreg, hi⟩)
    exact hpfd
  owner i pfd hi := by
    obtain ⟨fd, hfd, -⟩ := h.exists_owner hi
    exact ⟨fd, slot_eq_some.mp hfd⟩

theorem interest_eq (hp : Rep t p) (ht : t.Sound) (fd : Nat) : p.interest fd = t.wanted fd := by
  have hfound : ∀ pfd ∈ p.pollfds, (pfd.fd == (fd : Int)) = true →
      pfd.events = t.events fd ∧ t.events fd ≠ .none := by
    intro pfd hmem hfd
    obtain ⟨i, hi⟩ := List.mem_iff_getElem?.mp hmem
    obtain ⟨d, -, -, rfl⟩ := hp.exists_owner hi
    obtain ⟨rfl, hne⟩ := Table.pollFd_fd_eq (eq_of_beq hfd)
    exact ⟨rfl, hne⟩
  unfold interest Table.wanted
  cases hfind : p.pollfds.find? fun pfd => pfd.fd == (fd : Int) with
  | some pfd =>
      have hfd := List.find?_some hfind
      obtain ⟨hevents, hne⟩ := hfound pfd (List.mem_of_find?_eq_some hfind) hfd
      rw [if_neg hne, Option.map_some, hevents]
  | none =>
      rw [if_pos, Option.map_none]
      by_contra hne
      obtain ⟨i, -, hi⟩ := hp.exists_index (ht.registered fd hne)
      refine List.find?_eq_none.mp hfind _ (List.mem_of_getElem? hi) ?_
      simp only [Table.pollFd, hne, if_false, BEq.rfl]

theorem push (hp : Rep t p) {fd : Nat} {events : Interest} (hreg : t.registered fd = false)
    (hevents : events ≠ .none) :
    Rep (t.update fd events)
      { p.setIndex fd p.pollfds.length with
        channels := Function.update p.channels fd true
        pollfds := p.pollfds ++ [⟨fd, events⟩] } := by
  refine of_slots (by rw [hp.channels]; rfl) (fun d => ?_) ?_
  · by_cases hd : d = fd
    · subst hd
      simp only [setIndex, Table.update, Function.update_self, reduceCtorEq, false_and]
    · simp only [setIndex, Table.update, Function.update_of_ne hd]
      exact hp.fresh d
  · change Slots (slot (Function.update t.registered fd true)
      (Function.update p.index fd (some p.pollfds.length))) _ _
    rw [slot_register]
    refine hp.slots.push (slot_eq_none hreg) ?_ fun d hd pfd hpfd => ?_
    · rw [Table.pollFd_update_self, if_neg hevents]
    · rw [Table.pollFd_update_of_ne hd, hpfd]

theorem set (hp : Rep t p) {fd idx : Nat} (hreg : t.registered fd = true)
    (hidx : p.index fd = some idx) (events : Interest) :
    Rep (t.update fd events) { p with
      pollfds := p.pollfds.set idx ⟨if events = .none then ignoredFd fd else fd, events⟩ } := by
  have hsame : (t.update fd events).registered = t.registered := Table.registered_update_self hreg
  refine of_slots (by rw [hsame, hp.channels]) (fun d => ?_) ?_
  · rw [hsame]
    exact hp.fresh d
  · rw [hsame]
    refine hp.slots.set (slot_eq_some.mpr ⟨hreg, hidx⟩) ?_ fun d hd pfd hpfd => ?_
    · rw [Table.pollFd_update_self]
    · rw [Table.pollFd_update_of_ne hd, hpfd]

theorem update (hp : Rep t p) (ht : t.Sound) {fd : Nat} {events : Interest}
    (hremoved : t.removed fd = false) (h : t.events fd ≠ .none ∨ events ≠ .none) :
    ∃ p', p.updateChannel fd events = .ok p' ∧ Rep (t.update fd events) p' := by
  cases hreg : t.registered fd with
  | false =>
      have hevents := h.resolve_left (not_not_intro (ht.events_eq hreg))
      have hindex := (hp.fresh fd).mpr ⟨hreg, hremoved⟩
      refine ⟨_, ?_, hp.push hreg hevents⟩
      simp only [updateChannel, hindex, hp.channels, hreg, Bool.false_eq_true, if_false]
  | true =>
      obtain ⟨idx, hindex, hentry⟩ := hp.exists_index hreg
      have hfd : (t.pollFd fd).fd = fd ∨ (t.pollFd fd).fd = ignoredFd fd := by
        unfold Table.pollFd
        split
        · exact .inr rfl
        · exact .inl rfl
      refine ⟨_, ?_, hp.set hreg hindex events⟩
      simp only [updateChannel, hindex, hp.channels, hreg, hentry, hfd, if_true]

theorem fresh_remove (hp : Rep t p) {fd idx : Nat} (hidx : p.index fd = some idx) (d : Nat) :
    p.index d = none ↔ (t.remove fd).registered d = false ∧ (t.remove fd).removed d = false := by
  by_cases hne : d = fd
  · subst hne
    simp only [hidx, Table.remove, Function.update_self, reduceCtorEq, and_false]
  · simp only [Table.remove, Function.update_of_ne hne]
    exact hp.fresh d

theorem pop (hp : Rep t p) {fd idx : Nat} (hreg : t.registered fd = true)
    (hidx : p.index fd = some idx) (hlast : idx = p.pollfds.length - 1) :
    Rep (t.remove fd) { p with
      channels := Function.update p.channels fd false
      pollfds := p.pollfds.dropLast } := by
  refine of_slots (by rw [hp.channels]; rfl) (hp.fresh_remove hidx) ?_
  change Slots (slot (Function.update t.registered fd false) p.index) _ _
  rw [slot_erase]
  exact hp.slots.pop (slot_eq_some.mpr ⟨hreg, hlast ▸ hidx⟩)

theorem swap (hp : Rep t p) {fd idx b : Nat} (hreg : t.registered fd = true)
    (hidx : p.index fd = some idx) (hlast : idx ≠ p.pollfds.length - 1)
    (hb : t.registered b = true) (hbidx : p.index b = some (p.pollfds.length - 1)) :
    Rep (t.remove fd) { p.setIndex b idx with
      channels := Function.update p.channels fd false
      pollfds := (p.pollfds.set idx (t.pollFd b)).dropLast } := by
  have hbfd : b ≠ fd := by
    rintro rfl
    exact hlast (Option.some.inj (hidx.symm.trans hbidx))
  have hbreg : (t.remove fd).registered b = true := Table.registered_remove.mpr ⟨hbfd, hb⟩
  refine of_slots (by rw [hp.channels]; rfl) (fun d => ?_) ?_
  · by_cases hdb : d = b
    · subst hdb
      simp only [setIndex, Function.update_self, hbreg, reduceCtorEq, false_and]
    · simp only [setIndex, Function.update_of_ne hdb]
      exact hp.fresh_remove hidx d
  · change Slots (slot (Function.update t.registered fd false)
      (Function.update p.index b (some idx))) _ _
    rw [slot_setIndex (show Function.update t.registered fd false b = true from hbreg), slot_erase]
    exact hp.slots.moveLast (slot_eq_some.mpr ⟨hreg, hidx⟩) hlast
      (slot_eq_some.mpr ⟨hb, hbidx⟩) (hp.entry b _ hb hbidx)

theorem remove (hp : Rep t p) {fd : Nat} (hreg : t.registered fd = true)
    (h : t.events fd = .none) :
    ∃ p', p.removeChannel fd (t.events fd) = .ok p' ∧ Rep (t.remove fd) p' := by
  obtain ⟨idx, hindex, hentry⟩ := hp.exists_index hreg
  have hlt := (List.getElem?_eq_some_iff.mp hentry).1
  obtain ⟨back, hback⟩ : ∃ back, p.pollfds[p.pollfds.length - 1]? = some back :=
    ⟨_, List.getElem?_eq_getElem (by omega)⟩
  obtain ⟨b, hb, hbidx, rfl⟩ := hp.exists_owner hback
  have hfd : t.pollFd fd = ⟨ignoredFd fd, .none⟩ := by rw [Table.pollFd, if_pos h, h]
  rw [← List.getLast?_eq_getElem?] at hback
  by_cases hlast : idx = p.pollfds.length - 1
  · refine ⟨_, ?_, hp.pop hreg hindex hlast⟩
    simp only [removeChannel, hp.channels, hreg, h, hindex, hentry, hfd, hback, and_self, if_true,
      if_pos hlast]
  · have hbfd : b ≠ fd := by
      rintro rfl
      exact hlast (Option.some.inj (hindex.symm.trans hbidx))
    refine ⟨_, ?_, hp.swap hreg hindex hlast hb hbidx⟩
    simp only [removeChannel, hp.channels, hreg, h, hindex, hentry, hfd, hback, hlast,
      t.channelAtEnd_pollFd, Function.update_of_ne hbfd, hb, and_self, if_true, if_false]
    rfl

end Rep

end PollPoller

/-! ## The three together -/

namespace Pollers

structure Inv (s : Pollers) : Prop where
  sound : s.table.Sound
  epoll : s.epoll = .ok (.ofTable s.table)
  kqueue : s.kqueue = .ok (.ofTable s.table)
  poll : ∃ p, s.poll = .ok p ∧ PollPoller.Rep s.table p

theorem Inv.new : Inv .new := ⟨Table.sound_new, rfl, rfl, _, rfl, PollPoller.Rep.new⟩

theorem Inv.agree {s : Pollers} (h : Inv s) : Agree s := by
  obtain ⟨p, hp, hrep⟩ := h.poll
  exact ⟨⟨_, h.epoll, fun _ => rfl⟩, ⟨_, h.kqueue, fun _ => rfl⟩,
    ⟨p, hp, hrep.interest_eq h.sound⟩⟩

theorem Inv.step {s s' : Pollers} {a : PollAct} (h : Inv s) (ha : s.Proper a)
    (hstep : PollStep s a s') : Inv s' := by
  obtain ⟨p, hp, hrep⟩ := h.poll
  cases a with
  | update fd op =>
      cases hstep
      obtain ⟨hremoved, hevents⟩ := ha
      obtain ⟨p', hp', hrep'⟩ := hrep.update h.sound hremoved hevents
      refine ⟨h.sound.update hremoved _, ?_, ?_, p', ?_, hrep'⟩
      · rw [h.epoll]
        exact EpollPoller.updateChannel_ofTable h.sound hevents
      · rw [h.kqueue]
        exact KQueue.updateChannel_ofTable h.sound hevents
      · rw [hp]
        exact hp'
  | remove fd =>
      simp only [PollStep, exec, Option.ite_none_right_eq_some, Option.some.injEq] at hstep
      obtain ⟨hnone, rfl⟩ := hstep
      obtain ⟨p', hp', hrep'⟩ := hrep.remove ha hnone
      refine ⟨h.sound.remove hnone, ?_, ?_, p', ?_, hrep'⟩
      · rw [h.epoll]
        exact EpollPoller.removeChannel_ofTable ha hnone
      · rw [h.kqueue]
        exact KQueue.removeChannel_ofTable ha hnone
      · rw [hp]
        exact hp'

/-- A removed channel still has its index in the array, so that `PollPoller`
looks for it in `channels_`. -/
theorem Inv.breaks_removed {s : Pollers} (h : Inv s) {fd : Nat}
    (hremoved : s.table.removed fd = true) (events : Interest) :
    s.poll.bind (fun p => p.updateChannel fd events) = .error .assertion := by
  obtain ⟨p, hp, hrep⟩ := h.poll
  have hreg := h.sound.removed fd hremoved
  cases hindex : p.index fd with
  | none =>
      rw [((hrep.fresh fd).mp hindex).2] at hremoved
      cases hremoved
  | some idx =>
      rw [hp]
      simp only [Except.bind, PollPoller.updateChannel, hindex, hrep.channels, hreg,
        Bool.false_eq_true, if_false]

theorem Inv.breaks {s s' : Pollers} {a : PollAct} (h : Inv s) (ha : ¬ s.Proper a)
    (hstep : PollStep s a s') : ¬ Agree s' := by
  rintro ⟨⟨e, he, hinterest⟩, -, ⟨p, hp, -⟩⟩
  cases a with
  | update fd op =>
      cases hstep
      cases hremoved : s.table.removed fd with
      | true =>
          have hfault := h.breaks_removed hremoved (op.apply (s.table.events fd))
          rw [hfault] at hp
          cases hp
      | false =>
          -- `EPOLL_CTL_ADD` with an empty mask
          simp only [Proper, hremoved, true_and, not_or, not_not] at ha
          obtain ⟨hnone, hevents⟩ := ha
          rw [h.epoll] at he
          cases (EpollPoller.updateChannel_of_none hnone _).symm.trans he
          have hfd := hinterest fd
          simp only [Table.wanted_update, Function.update_self, hevents, if_true,
            reduceCtorEq] at hfd
  | remove fd =>
      simp only [PollStep, exec, Option.ite_none_right_eq_some, Option.some.injEq] at hstep
      obtain ⟨hnone, rfl⟩ := hstep
      have hreg : s.table.registered fd = false := Bool.eq_false_iff.mpr ha
      rw [h.epoll] at he
      simp only [Except.bind, EpollPoller.removeChannel, EpollPoller.ofTable, hreg,
        Bool.false_eq_true, false_and, if_false, reduceCtorEq] at he

/-- The pollers agree with the masks after every operation exactly when each
operation is proper. -/
theorem agree_iff_proper (acts : List PollAct) :
    Throughout PollStep Agree .new acts ↔ EveryStep PollStep Proper .new acts :=
  throughout_iff_everyStep (I := Inv) Inv.new (fun _ _ _ h ha hstep => h.step ha hstep)
    (fun _ h => h.agree) (fun _ _ _ h ha hstep => h.breaks ha hstep)

/-- The kernel's interest in a descriptor under each poller, where no
assertion has failed. -/
def interests (s : Pollers) (fd : Nat) : List (Option (Option Interest)) :=
  [s.epoll.toOption.map (·.interest fd), s.kqueue.toOption.map (·.interest fd),
    s.poll.toOption.map (·.interest fd)]

/-- A channel that is enabled again after its removal. -/
def reused : List PollAct :=
  [.update 5 .enableReading, .update 5 .disableAll, .remove 5, .update 5 .enableReading]

/-- `PollPoller` fails an assertion on `reused`. A first update with an empty
mask makes `EpollPoller` and `PollPoller` watch the descriptor, and
`KQueue` not. -/
theorem not_agree_reused :
    ((reused.foldlM exec .new).map (·.interests 5)) =
        some [some (some ⟨true, false⟩), some (some ⟨true, false⟩), none] ∧
      (([.update 5 .disableAll].foldlM exec .new).map (·.interests 5)) =
        some [some (some .none), some none, some (some .none)] ∧
      ¬ Throughout PollStep Agree .new reused ∧
      ¬ Throughout PollStep Agree .new [.update 5 .disableAll] := by
  refine ⟨by decide, by decide, fun h => ?_, fun h => ?_⟩
  · obtain ⟨p, hp, -⟩ := (h _ _ (List.prefix_refl _) (.of_foldlM rfl)).poll
    cases hp
  · obtain ⟨p, hp, hinterest⟩ := (h _ _ (List.prefix_refl _) (.of_foldlM rfl)).epoll
    cases hp
    exact absurd (hinterest 5) (by decide)

end Pollers

end Netpoll
