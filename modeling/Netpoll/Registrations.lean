import Netpoll.Pollers

/-!
# Kernel registrations

`EpollPoller` and `KQueue` (`net/inner/poller/`) with arbitrary masks, and
with every call to the kernel on record. Both decide from their own state
which call to issue: `EpollPoller` from the `m_index` of the channel,
`KQueue` from the mask that it recorded for the descriptor at the last
update. The calls are valid as long as that state mirrors the kernel's:
`m_index` is `kAdded` exactly for the descriptors in the epoll set, and the
recorded mask asks for exactly the installed filters.

The channels have distinct descriptors and are named by them. A mask only
changes in an operation of `Channel` that ends in `update()`.
-/

namespace Netpoll

variable {D : Type} [DecidableEq D]

inductive RegAct (D : Type)
  /-- The mask of the channel is set to `events` and the poller updated. -/
  | update (fd : D) (events : BitVec 32)
  | remove (fd : D)

/-! ## `EpollPoller` -/

/-- A call to `epoll_ctl`. -/
structure EpollCall (D : Type) where
  op : EpollOp
  fd : D
  /-- The descriptor was in the epoll set. -/
  present : Bool

def EpollCall.Valid (call : EpollCall D) : Prop :=
  match call.op with
  | .add => call.present = false
  | .mod | .del => call.present = true

structure EpollRegs (D : Type) where
  events : D → BitVec 32
  index : D → PollIndex
  /-- The keys of `m_channels`. -/
  channels : D → Bool
  /-- The epoll set. -/
  interest : D → Option (BitVec 32)
  calls : List (EpollCall D)

namespace EpollRegs

def new : EpollRegs D where
  events _ := 0
  index _ := .new
  channels _ := false
  interest _ := none
  calls := []

/-- What an operation leaves of a descriptor; one that is not valid changes
nothing. -/
def ctl (op : EpollOp) (events : BitVec 32) : Option (BitVec 32) → Option (BitVec 32)
  | none => if op = .add then some events else none
  | some old =>
    match op with
    | .add => some old
    | .mod => some events
    | .del => none

def update (p : EpollRegs D) (op : EpollOp) (fd : D) : EpollRegs D :=
  { p with
    interest := Function.update p.interest fd (ctl op (p.events fd) (p.interest fd))
    calls := p.calls ++ [⟨op, fd, (p.interest fd).isSome⟩] }

def setEvents (p : EpollRegs D) (fd : D) (events : BitVec 32) : EpollRegs D :=
  { p with events := Function.update p.events fd events }

def setIndex (p : EpollRegs D) (fd : D) (index : PollIndex) : EpollRegs D :=
  { p with index := Function.update p.index fd index }

def updateChannel (p : EpollRegs D) (fd : D) : Except Fault (EpollRegs D) :=
  match p.index fd with
  | .new =>
    if p.channels fd then .error .assertion
    else
      let p := { p with channels := Function.update p.channels fd true }
      .ok ((p.setIndex fd .added).update .add fd)
  | .deleted =>
    if p.channels fd then .ok ((p.setIndex fd .added).update .add fd) else .error .assertion
  | .added =>
    if p.channels fd then
      if p.events fd = Channel.kNoneEvent then .ok ((p.update .del fd).setIndex fd .deleted)
      else .ok (p.update .mod fd)
    else .error .assertion

def removeChannel (p : EpollRegs D) (fd : D) : Except Fault (EpollRegs D) :=
  if p.channels fd ∧ p.events fd = Channel.kNoneEvent then
    let p := { p with channels := Function.update p.channels fd false }
    match p.index fd with
    | .new => .error .assertion
    | .added => .ok ((p.update .del fd).setIndex fd .new)
    | .deleted => .ok (p.setIndex fd .new)
  else .error .assertion

def exec (p : EpollRegs D) : RegAct D → Except Fault (EpollRegs D)
  | .update fd events => (p.setEvents fd events).updateChannel fd
  | .remove fd => p.removeChannel fd

end EpollRegs

def EpollStep (p : EpollRegs D) (a : RegAct D) (p' : EpollRegs D) : Prop := p.exec a = .ok p'

/-! ## `KQueue` -/

inductive KFilter where
  | read | write
  deriving DecidableEq

/-- The bits of a mask that ask for the filter. -/
def KFilter.bits : KFilter → BitVec 32
  | .read => Channel.kReadEvent
  | .write => Channel.kWriteEvent

inductive KeventOp where
  | add | delete
  deriving DecidableEq

/-- A change that is passed to `kevent`. -/
structure KeventCall (D : Type) where
  op : KeventOp
  fd : D
  filter : KFilter
  /-- The filter was installed. -/
  installed : Bool

def KeventCall.Valid (call : KeventCall D) : Prop :=
  match call.op with
  | .add => call.installed = false
  | .delete => call.installed = true

structure KQueueRegs (D : Type) where
  events : D → BitVec 32
  index : D → PollIndex
  /-- `channels_`, with the recorded masks. -/
  channels : D → Option (BitVec 32)
  /-- The filters that the kernel has. -/
  filters : D → KFilter → Bool
  calls : List (KeventCall D)

inductive KQueueAct (D : Type)
  | reg (a : RegAct D)
  /-- `resetAfterFork()`, with the order in which the map is walked. -/
  | resetAfterFork (order : List D)

namespace KQueueRegs

def new : KQueueRegs D where
  events _ := 0
  index _ := .new
  channels _ := none
  filters _ _ := false
  calls := []

/-- The recorded mask, 0 if there is none. -/
def oldEvents (p : KQueueRegs D) (fd : D) : BitVec 32 := (p.channels fd).getD 0

/-- The change for one filter that is put into `ev`, if any. -/
def change (events oldEvents : BitVec 32) (filter : KFilter) : Option (KFilter × KeventOp) :=
  if hasAny events filter.bits && !hasAny oldEvents filter.bits then some (filter, .add)
  else if !hasAny events filter.bits && hasAny oldEvents filter.bits then some (filter, .delete)
  else none

/-- The kernel makes the changes in order, up to one that fails. -/
def kevent (fd : D) : List (KFilter × KeventOp) → KQueueRegs D → KQueueRegs D
  | [], p => p
  | (filter, op) :: changes, p =>
    let installed := p.filters fd filter
    let p := { p with calls := p.calls ++ [⟨op, fd, filter, installed⟩] }
    if op = .delete ∧ installed = false then p
    else
      kevent fd changes { p with
        filters := Function.update p.filters fd
          (Function.update (p.filters fd) filter (decide (op = .add))) }

def record (p : KQueueRegs D) (fd : D) (events : BitVec 32) : KQueueRegs D :=
  { p with channels := Function.update p.channels fd (some events) }

def update (p : KQueueRegs D) (fd : D) : KQueueRegs D :=
  let events := p.events fd
  let oldEvents := p.oldEvents fd
  let ev := (change events oldEvents .read).toList ++ (change events oldEvents .write).toList
  kevent fd ev (p.record fd events)

def setEvents (p : KQueueRegs D) (fd : D) (events : BitVec 32) : KQueueRegs D :=
  { p with events := Function.update p.events fd events }

def setIndex (p : KQueueRegs D) (fd : D) (index : PollIndex) : KQueueRegs D :=
  { p with index := Function.update p.index fd index }

def updateChannel (p : KQueueRegs D) (fd : D) : Except Fault (KQueueRegs D) :=
  match p.index fd with
  | .new =>
    if (p.channels fd).isSome then .error .assertion
    else .ok ((p.update fd).setIndex fd .added)
  | .deleted =>
    if (p.channels fd).isSome then .ok ((p.update fd).setIndex fd .added)
    else .error .assertion
  | .added =>
    if (p.channels fd).isSome then
      if p.events fd = Channel.kNoneEvent then .ok ((p.update fd).setIndex fd .deleted)
      else .ok (p.update fd)
    else .error .assertion

/-- The end of `removeChannel`. -/
def erase (p : KQueueRegs D) (fd : D) : KQueueRegs D :=
  { p with channels := Function.update p.channels fd none }.setIndex fd .new

def removeChannel (p : KQueueRegs D) (fd : D) : Except Fault (KQueueRegs D) :=
  if (p.channels fd).isSome ∧ p.events fd = Channel.kNoneEvent then
    match p.index fd with
    | .new => .error .assertion
    | .added => .ok ((p.update fd).erase fd)
    | .deleted => .ok (p.erase fd)
  else .error .assertion

/-- The body of the loop of `resetAfterFork`. -/
def resetChannel (p : KQueueRegs D) (fd : D) : KQueueRegs D :=
  let p := p.record fd 0
  if hasAny (p.events fd) Channel.kReadEvent || hasAny (p.events fd) Channel.kWriteEvent then
    p.update fd
  else p

/-- The new queue of the child has no filters. -/
def resetAfterFork (p : KQueueRegs D) (order : List D) : KQueueRegs D :=
  order.foldl resetChannel { p with filters := fun _ _ => false }

/-- The map is walked from one end to the other. -/
structure Walk (p : KQueueRegs D) (order : List D) : Prop where
  nodup : order.Nodup
  mem : ∀ fd, fd ∈ order ↔ (p.channels fd).isSome = true

end KQueueRegs

def KQueueStep (p : KQueueRegs D) : KQueueAct D → KQueueRegs D → Prop
  | .reg (.update fd events), p' => (p.setEvents fd events).updateChannel fd = .ok p'
  | .reg (.remove fd), p' => p.removeChannel fd = .ok p'
  | .resetAfterFork order, p' => p.Walk order ∧ p' = p.resetAfterFork order

/-! ## `EpollPoller` mirrors the epoll set -/

namespace EpollRegs

variable {p p' : EpollRegs D} {fd : D} {index : PollIndex}

/-- The descriptors with the index `kAdded` are those in the epoll set, and no
call was made that is not valid. -/
structure Mirrors (p : EpollRegs D) : Prop where
  added : ∀ fd, p.index fd = .added ↔ (p.interest fd).isSome = true
  valid : ∀ call ∈ p.calls, call.Valid

namespace Mirrors

omit [DecidableEq D] in
theorem new : Mirrors (EpollRegs.new : EpollRegs D) where
  added fd := by simp [EpollRegs.new]
  valid call h := nomatch h

theorem call (h : Mirrors p) {op : EpollOp}
    (hvalid : EpollCall.Valid ⟨op, fd, (p.interest fd).isSome⟩)
    (hfd : index = .added ↔ (ctl op (p.events fd) (p.interest fd)).isSome = true) :
    Mirrors ((p.update op fd).setIndex fd index) where
  added d := by
    change Function.update p.index fd index d = .added ↔
      (Function.update p.interest fd (ctl op (p.events fd) (p.interest fd)) d).isSome = true
    by_cases hd : d = fd
    · subst hd
      rw [Function.update_self, Function.update_self]
      exact hfd
    · rw [Function.update_of_ne hd, Function.update_of_ne hd]
      exact h.added d
  valid call hcall := by
    rcases List.mem_append.mp hcall with hold | hnew
    · exact h.valid call hold
    · exact List.mem_singleton.mp hnew ▸ hvalid

theorem add (h : Mirrors p) (hidx : p.index fd ≠ .added) :
    Mirrors ((p.update .add fd).setIndex fd .added) := by
  have habsent : p.interest fd = none := by
    rw [← Option.not_isSome_iff_eq_none]
    exact fun hsome => hidx ((h.added fd).mpr hsome)
  refine h.call ?_ ?_
  · rw [habsent]
    exact rfl
  · rw [habsent]
    simp [ctl]

omit [DecidableEq D] in
theorem present (h : Mirrors p) (hidx : p.index fd = .added) :
    ∃ old, p.interest fd = some old :=
  Option.isSome_iff_exists.mp ((h.added fd).mp hidx)

theorem mod (h : Mirrors p) (hidx : p.index fd = .added) : Mirrors (p.update .mod fd) := by
  obtain ⟨old, hold⟩ := h.present hidx
  have hsame : p.update .mod fd = (p.update .mod fd).setIndex fd .added := by
    rw [setIndex, ← hidx]
    exact congrArg (fun index => { p.update .mod fd with index }) (Function.update_eq_self ..).symm
  rw [hsame]
  refine h.call ?_ ?_
  · rw [hold]
    exact rfl
  · rw [hold]
    simp [ctl]

theorem del (h : Mirrors p) (hidx : p.index fd = .added) (hindex : index ≠ .added) :
    Mirrors ((p.update .del fd).setIndex fd index) := by
  obtain ⟨old, hold⟩ := h.present hidx
  refine h.call ?_ ?_
  · rw [hold]
    exact rfl
  · rw [hold]
    simp [ctl, hindex]

theorem setIndex (h : Mirrors p) (hidx : p.index fd ≠ .added) (hindex : index ≠ .added) :
    Mirrors (p.setIndex fd index) where
  added d := by
    change Function.update p.index fd index d = .added ↔ _
    by_cases hd : d = fd
    · subst hd
      rw [Function.update_self, iff_false_left hindex]
      exact fun hsome => hidx ((h.added d).mpr hsome)
    · rw [Function.update_of_ne hd]
      exact h.added d
  valid := h.valid

theorem updateChannel (h : Mirrors p) (hs : p.updateChannel fd = .ok p') : Mirrors p' := by
  unfold EpollRegs.updateChannel at hs
  cases hidx : p.index fd with
  | new =>
      simp only [hidx] at hs
      split at hs
      · cases hs
      · obtain rfl := Except.ok.inj hs
        have hkept : Mirrors { p with channels := Function.update p.channels fd true } :=
          ⟨h.added, h.valid⟩
        exact hkept.add (fun hadded => nomatch hidx.symm.trans hadded)
  | deleted =>
      simp only [hidx] at hs
      split at hs
      · obtain rfl := Except.ok.inj hs
        exact h.add (fun hadded => nomatch hidx.symm.trans hadded)
      · cases hs
  | added =>
      simp only [hidx] at hs
      split at hs
      · split at hs
        · exact Except.ok.inj hs ▸ h.del hidx (fun heq => nomatch heq)
        · exact Except.ok.inj hs ▸ h.mod hidx
      · cases hs

theorem removeChannel (h : Mirrors p) (hs : p.removeChannel fd = .ok p') :
    Mirrors p' ∧ p'.interest fd = none := by
  have hgone : Mirrors p' ∧ p'.index fd = .new := by
    unfold EpollRegs.removeChannel at hs
    split at hs
    · have hkept : Mirrors { p with channels := Function.update p.channels fd false } :=
        ⟨h.added, h.valid⟩
      cases hidx : p.index fd with
      | new =>
          simp only [hidx] at hs
          cases hs
      | added =>
          simp only [hidx] at hs
          obtain rfl := Except.ok.inj hs
          exact ⟨hkept.del hidx (fun heq => nomatch heq), Function.update_self ..⟩
      | deleted =>
          simp only [hidx] at hs
          obtain rfl := Except.ok.inj hs
          exact ⟨hkept.setIndex (fun hadded => nomatch hidx.symm.trans hadded)
            (fun heq => nomatch heq), Function.update_self ..⟩
    · cases hs
  refine ⟨hgone.1, ?_⟩
  rw [← Option.not_isSome_iff_eq_none, ← hgone.1.added fd, hgone.2]
  exact fun heq => nomatch heq

theorem step {a : RegAct D} (h : Mirrors p) (hs : EpollStep p a p') : Mirrors p' := by
  cases a with
  | update fd events =>
      have hkept : Mirrors (p.setEvents fd events) := ⟨h.added, h.valid⟩
      exact hkept.updateChannel hs
  | remove fd => exact (h.removeChannel hs).1

end Mirrors

end EpollRegs

/-! ## `KQueue` mirrors the filters -/

namespace KQueueRegs

variable {p p' : KQueueRegs D} {fd : D}

/-- The recorded mask asks for the installed filters. -/
def Recorded (p : KQueueRegs D) (fd : D) : Prop :=
  ∀ filter, p.filters fd filter = hasAny (p.oldEvents fd) filter.bits

/-- Two masks ask for the same filters. -/
def SameFilters (m m' : BitVec 32) : Prop :=
  ∀ filter : KFilter, hasAny m filter.bits = hasAny m' filter.bits

theorem hasAny_zero (bits : BitVec 32) : hasAny 0 bits = false := by
  simp [hasAny]

/-- The filter of a descriptor is set, with the calls that were made for it. -/
def withFilter (p : KQueueRegs D) (fd : D) (filter : KFilter) (b : Bool)
    (calls : List (KeventCall D)) : KQueueRegs D :=
  { p with
    filters := Function.update p.filters fd (Function.update (p.filters fd) filter b)
    calls := p.calls ++ calls }

theorem withFilter_self {filter : KFilter} {b : Bool} (h : p.filters fd filter = b) :
    p.withFilter fd filter b [] = p := by
  subst h
  rw [withFilter, Function.update_eq_self, Function.update_eq_self, List.append_nil]

/-- The change for a filter that is installed exactly if the recorded mask
asks for it is valid, and installs what the new mask asks for. -/
theorem kevent_change (events : BitVec 32) {oldEvents : BitVec 32} {filter : KFilter}
    (h : p.filters fd filter = hasAny oldEvents filter.bits)
    (rest : List (KFilter × KeventOp)) :
    ∃ calls, kevent fd ((change events oldEvents filter).toList ++ rest) p =
        kevent fd rest (p.withFilter fd filter (hasAny events filter.bits) calls) ∧
      ∀ call ∈ calls, call.Valid := by
  cases hnew : hasAny events filter.bits <;> cases hold : hasAny oldEvents filter.bits <;>
    rw [hold] at h
  · refine ⟨[], ?_, fun call hcall => nomatch hcall⟩
    rw [withFilter_self h, change, hnew, hold]
    rfl
  · refine ⟨[⟨.delete, fd, filter, true⟩], ?_, fun call hcall => ?_⟩
    · rw [change, hnew, hold]
      change kevent fd ((filter, KeventOp.delete) :: rest) p = _
      rw [kevent, h]
      rfl
    · rw [List.mem_singleton.mp hcall]
      exact rfl
  · refine ⟨[⟨.add, fd, filter, false⟩], ?_, fun call hcall => ?_⟩
    · rw [change, hnew, hold]
      change kevent fd ((filter, KeventOp.add) :: rest) p = _
      rw [kevent, h]
      rfl
    · rw [List.mem_singleton.mp hcall]
      exact rfl
  · refine ⟨[], ?_, fun call hcall => nomatch hcall⟩
    rw [withFilter_self h, change, hnew, hold]
    rfl

/-- The descriptor is recorded with a mask and has its filters. -/
def recordedAs (p : KQueueRegs D) (fd : D) (m : BitVec 32) (calls : List (KeventCall D)) :
    KQueueRegs D :=
  { p with
    channels := Function.update p.channels fd (some m)
    filters := Function.update p.filters fd fun filter => hasAny m filter.bits
    calls := p.calls ++ calls }

theorem withFilter_both {m : BitVec 32} {calls calls' : List (KeventCall D)} :
    ((p.record fd m).withFilter fd .read (hasAny m KFilter.read.bits) calls).withFilter fd .write
        (hasAny m KFilter.write.bits) calls' =
      p.recordedAs fd m (calls ++ calls') := by
  have hboth : Function.update (Function.update (p.filters fd) .read
      (hasAny m KFilter.read.bits)) .write (hasAny m KFilter.write.bits) =
        fun filter => hasAny m filter.bits := by
    funext filter
    cases filter <;> rfl
  simp only [withFilter, record, recordedAs, Function.update_self, Function.update_idem, hboth,
    List.append_assoc]

/-- `update` makes valid calls only, and installs what the mask asks for. -/
theorem update_eq (h : p.Recorded fd) :
    ∃ calls, p.update fd = p.recordedAs fd (p.events fd) calls ∧ ∀ call ∈ calls, call.Valid := by
  have hread : (p.record fd (p.events fd)).filters fd .read =
      hasAny (p.oldEvents fd) KFilter.read.bits := h .read
  obtain ⟨calls, heq, hvalid⟩ := kevent_change (p.events fd) hread
    (change (p.events fd) (p.oldEvents fd) .write).toList
  have hwrite : ((p.record fd (p.events fd)).withFilter fd .read
      (hasAny (p.events fd) KFilter.read.bits) calls).filters fd .write =
        hasAny (p.oldEvents fd) KFilter.write.bits := by
    simp only [withFilter, Function.update_self]
    exact h .write
  obtain ⟨calls', heq', hvalid'⟩ := kevent_change (p.events fd) hwrite []
  refine ⟨calls ++ calls', ?_, fun call hcall => ?_⟩
  · rw [List.append_nil] at heq'
    rw [update, heq, heq', withFilter_both, kevent]
  · exact (List.mem_append.mp hcall).elim (hvalid call) (hvalid' call)

theorem recorded_recordedAs {m : BitVec 32} {calls : List (KeventCall D)} :
    (p.recordedAs fd m calls).Recorded fd := by
  intro filter
  simp only [recordedAs, oldEvents, Function.update_self, Option.getD_some]

theorem recorded_recordedAs_of_ne {m : BitVec 32} {calls : List (KeventCall D)} {d : D}
    (hd : d ≠ fd) (h : p.Recorded d) : (p.recordedAs fd m calls).Recorded d := by
  intro filter
  simp only [recordedAs, oldEvents, Function.update_of_ne hd]
  exact h filter

theorem kevent_index (ev : List (KFilter × KeventOp)) (p : KQueueRegs D) :
    (kevent fd ev p).index = p.index := by
  induction ev generalizing p with
  | nil => rfl
  | cons change ev ih =>
      rw [kevent]
      dsimp only
      split
      · rfl
      · exact ih _

theorem update_index (p : KQueueRegs D) (fd : D) : (p.update fd).index = p.index :=
  kevent_index _ _

theorem updateChannel_eq (hs : p.updateChannel fd = .ok p') :
    ∃ index, p' = (p.update fd).setIndex fd index ∧
      (index = .deleted → p.events fd = Channel.kNoneEvent) := by
  unfold updateChannel at hs
  cases hidx : p.index fd with
  | new | deleted =>
      simp only [hidx] at hs
      split at hs
      all_goals cases hs
      exact ⟨.added, rfl, fun h => nomatch h⟩
  | added =>
      simp only [hidx] at hs
      split at hs
      · split at hs
        next hnone => exact ⟨.deleted, (Except.ok.inj hs).symm, fun _ => hnone⟩
        next =>
          refine ⟨.added, ?_, fun h => nomatch h⟩
          have hindex : Function.update (p.update fd).index fd .added = (p.update fd).index := by
            rw [update_index, ← hidx, Function.update_eq_self]
          rw [← Except.ok.inj hs, setIndex, hindex]
      · cases hs

/-- The recorded masks ask for the installed filters and for those that the
channels ask for, and no call was made that is not valid. -/
structure Mirrors (p : KQueueRegs D) : Prop where
  recorded : ∀ fd, p.Recorded fd
  current : ∀ {fd m}, p.channels fd = some m → SameFilters m (p.events fd)
  valid : ∀ call ∈ p.calls, call.Valid

/-- The masks of the channels with the index `kDeleted` are empty. -/
def DeletedEmpty (p : KQueueRegs D) : Prop :=
  ∀ fd, p.index fd = .deleted → p.events fd = Channel.kNoneEvent

namespace Mirrors

omit [DecidableEq D] in
theorem new : Mirrors (KQueueRegs.new : KQueueRegs D) where
  recorded _ _ := (hasAny_zero _).symm
  current h := nomatch h
  valid _ h := nomatch h

theorem recordedAs (h : Mirrors p) {m events : BitVec 32} (hm : SameFilters m events)
    {calls : List (KeventCall D)} (hcalls : ∀ call ∈ calls, call.Valid) :
    Mirrors ((p.setEvents fd events).recordedAs fd m calls) where
  recorded d := by
    by_cases hd : d = fd
    · exact hd ▸ recorded_recordedAs
    · exact recorded_recordedAs_of_ne hd (h.recorded d)
  current {d m'} hd := by
    change Function.update p.channels fd (some m) d = some m' at hd
    change SameFilters m' (Function.update p.events fd events d)
    by_cases hdfd : d = fd
    · subst hdfd
      rw [Function.update_self, Option.some.injEq] at hd
      rw [Function.update_self]
      exact hd ▸ hm
    · rw [Function.update_of_ne hdfd] at hd ⊢
      exact h.current hd
  valid call hcall := (List.mem_append.mp hcall).elim (h.valid call) (hcalls call)

theorem update (h : Mirrors p) (fd : D) (events : BitVec 32) :
    ∃ calls, (p.setEvents fd events).update fd =
        (p.setEvents fd events).recordedAs fd events calls ∧
      Mirrors ((p.setEvents fd events).recordedAs fd events calls) := by
  have hrec : (p.setEvents fd events).Recorded fd := h.recorded fd
  have hevents : (p.setEvents fd events).events fd = events := Function.update_self ..
  obtain ⟨calls, heq, hvalid⟩ := update_eq hrec
  rw [hevents] at heq
  exact ⟨calls, heq, h.recordedAs (fun _ => rfl) hvalid⟩

theorem erase (h : Mirrors p) (hnone : ∀ filter, p.filters fd filter = false) :
    Mirrors (p.erase fd) where
  recorded d := by
    by_cases hd : d = fd
    · subst hd
      intro filter
      simp only [KQueueRegs.erase, KQueueRegs.setIndex, oldEvents, Function.update_self,
        Option.getD_none, hasAny_zero]
      exact hnone filter
    · intro filter
      simp only [KQueueRegs.erase, KQueueRegs.setIndex, oldEvents, Function.update_of_ne hd]
      exact h.recorded d filter
  current {d m} hd := by
    change Function.update p.channels fd none d = some m at hd
    have hdfd : d ≠ fd := by
      rintro rfl
      rw [Function.update_self] at hd
      cases hd
    rw [Function.update_of_ne hdfd] at hd
    exact h.current hd
  valid := h.valid

theorem setIndex (h : Mirrors p) (index : PollIndex) : Mirrors (p.setIndex fd index) :=
  ⟨h.recorded, h.current, h.valid⟩

theorem updateChannel (h : Mirrors p) (hdel : p.DeletedEmpty) {events : BitVec 32}
    (hs : (p.setEvents fd events).updateChannel fd = .ok p') :
    Mirrors p' ∧ p'.DeletedEmpty := by
  obtain ⟨calls, heq, hkept⟩ := h.update fd events
  obtain ⟨index, rfl, hindex⟩ := updateChannel_eq hs
  rw [heq]
  refine ⟨hkept.setIndex index, fun d hd => ?_⟩
  change Function.update p.index fd index d = .deleted at hd
  change Function.update p.events fd events d = Channel.kNoneEvent
  by_cases hdfd : d = fd
  · subst hdfd
    rw [Function.update_self] at hd ⊢
    exact Function.update_self d events p.events ▸ hindex hd
  · rw [Function.update_of_ne hdfd] at hd ⊢
    exact hdel d hd

theorem removeChannel (h : Mirrors p) (hdel : p.DeletedEmpty)
    (hs : p.removeChannel fd = .ok p') :
    Mirrors p' ∧ p'.DeletedEmpty ∧ ∀ filter, p'.filters fd filter = false := by
  unfold KQueueRegs.removeChannel at hs
  split at hs
  next hpre =>
    obtain ⟨hreg, hnone⟩ := hpre
    have hdel' : ∀ d, Function.update p.index fd .new d = .deleted →
        p.events d = Channel.kNoneEvent := by
      intro d hd
      by_cases hdfd : d = fd
      · subst hdfd
        rw [Function.update_self] at hd
        cases hd
      · rw [Function.update_of_ne hdfd] at hd
        exact hdel d hd
    cases hidx : p.index fd with
    | new =>
        simp only [hidx] at hs
        cases hs
    | added =>
        simp only [hidx] at hs
        obtain rfl := Except.ok.inj hs
        have hsame : p.setEvents fd (p.events fd) = p :=
          congrArg (fun events => { p with events }) (Function.update_eq_self ..)
        obtain ⟨calls, heq, hkept⟩ := h.update fd (p.events fd)
        rw [hsame] at heq hkept
        rw [heq]
        have hfilters : ∀ filter, (p.recordedAs fd (p.events fd) calls).filters fd filter =
            false := by
          intro filter
          simp only [KQueueRegs.recordedAs, Function.update_self, hnone]
          exact hasAny_zero _
        exact ⟨hkept.erase hfilters, hdel', hfilters⟩
    | deleted =>
        simp only [hidx] at hs
        obtain rfl := Except.ok.inj hs
        obtain ⟨m, hm⟩ := Option.isSome_iff_exists.mp hreg
        have hfilters : ∀ filter, p.filters fd filter = false := by
          intro filter
          rw [h.recorded fd filter, oldEvents, hm, Option.getD_some, h.current hm filter, hnone]
          exact hasAny_zero _
        exact ⟨h.erase hfilters, hdel', hfilters⟩
  next => cases hs

end Mirrors

/-! ## After a fork -/

theorem resetChannel_eq (h : ∀ filter, p.filters fd filter = false) :
    ∃ m calls, p.resetChannel fd = p.recordedAs fd m calls ∧ SameFilters m (p.events fd) ∧
      ∀ call ∈ calls, call.Valid := by
  have hrec : (p.record fd 0).Recorded fd := by
    intro filter
    simp only [record, oldEvents, Function.update_self, Option.getD_some, hasAny_zero]
    exact h filter
  unfold resetChannel
  dsimp only
  split
  next =>
    obtain ⟨calls, heq, hvalid⟩ := update_eq hrec
    refine ⟨p.events fd, calls, ?_, fun _ => rfl, hvalid⟩
    rw [heq]
    simp only [recordedAs, record, Function.update_idem]
  next hidle =>
    refine ⟨0, [], ?_, fun filter => ?_, fun call hcall => nomatch hcall⟩
    · have hfilters : Function.update p.filters fd (fun filter => hasAny 0 filter.bits) =
          p.filters := by
        have hfd : (fun filter : KFilter => hasAny 0 filter.bits) = p.filters fd := by
          funext filter
          rw [hasAny_zero, h filter]
        rw [hfd, Function.update_eq_self]
      simp only [record, recordedAs, hfilters, List.append_nil]
    · rw [Bool.or_eq_true, not_or, Bool.not_eq_true, Bool.not_eq_true] at hidle
      rw [hasAny_zero]
      cases filter with
      | read => exact hidle.1.symm
      | write => exact hidle.2.symm

/-- What the loop has done when it has come to the descriptors `order`: the
other ones are recorded with the filters that they have now, these have none. -/
structure Resetting (p : KQueueRegs D) (order : List D) : Prop where
  recorded : ∀ fd, fd ∉ order → p.Recorded fd
  current : ∀ {fd m}, fd ∉ order → p.channels fd = some m → SameFilters m (p.events fd)
  none : ∀ fd, fd ∈ order → ∀ filter, p.filters fd filter = false
  valid : ∀ call ∈ p.calls, call.Valid

theorem Resetting.step {order : List D} (h : p.Resetting (fd :: order)) (hfd : fd ∉ order) :
    (p.resetChannel fd).Resetting order ∧ (p.resetChannel fd).index = p.index ∧
      (p.resetChannel fd).events = p.events := by
  obtain ⟨m, calls, heq, hm, hvalid⟩ := resetChannel_eq (h.none fd List.mem_cons_self)
  rw [heq]
  refine ⟨⟨fun d hd => ?_, fun {d m'} hd hm' => ?_, fun d hd filter => ?_, fun call hcall => ?_⟩,
    rfl, rfl⟩
  · by_cases hdfd : d = fd
    · exact hdfd ▸ recorded_recordedAs
    · exact recorded_recordedAs_of_ne hdfd (h.recorded d (by simp [hdfd, hd]))
  · change Function.update p.channels fd (some m) d = some m' at hm'
    by_cases hdfd : d = fd
    · subst hdfd
      rw [Function.update_self, Option.some.injEq] at hm'
      exact hm' ▸ hm
    · rw [Function.update_of_ne hdfd] at hm'
      exact h.current (by simp [hdfd, hd]) hm'
  · have hdfd : d ≠ fd := fun heq => hfd (heq ▸ hd)
    change Function.update p.filters fd _ d filter = false
    rw [Function.update_of_ne hdfd]
    exact h.none d (List.mem_cons_of_mem _ hd) filter
  · exact (List.mem_append.mp hcall).elim (h.valid call) (hvalid call)

theorem Resetting.run {order : List D} (h : p.Resetting order) (hnodup : order.Nodup) :
    (order.foldl resetChannel p).Mirrors ∧ (order.foldl resetChannel p).index = p.index ∧
      (order.foldl resetChannel p).events = p.events := by
  induction order generalizing p with
  | nil =>
      refine ⟨⟨fun d => h.recorded d List.not_mem_nil, h.current List.not_mem_nil, h.valid⟩, rfl,
        rfl⟩
  | cons fd order ih =>
      rw [List.nodup_cons] at hnodup
      obtain ⟨hstep, hindex, hevents⟩ := h.step hnodup.1
      obtain ⟨hrun, hindex', hevents'⟩ := ih hstep hnodup.2
      rw [List.foldl_cons]
      exact ⟨hrun, hindex'.trans hindex, hevents'.trans hevents⟩

theorem Mirrors.resetAfterFork (h : Mirrors p) (hdel : p.DeletedEmpty) {order : List D}
    (hwalk : p.Walk order) :
    (p.resetAfterFork order).Mirrors ∧ (p.resetAfterFork order).DeletedEmpty := by
  have hstart : Resetting { p with filters := fun _ _ => false } order := by
    have hnone : ∀ fd, fd ∉ order → p.channels fd = none := by
      intro fd hfd
      rw [← Option.not_isSome_iff_eq_none, ← hwalk.mem fd]
      exact hfd
    refine ⟨fun fd hfd filter => ?_, fun {fd m} hfd hm => ?_, fun _ _ _ => rfl, h.valid⟩
    · simp only [oldEvents, hnone fd hfd, Option.getD_none, hasAny_zero]
    · cases (hnone fd hfd).symm.trans hm
  obtain ⟨hrun, hindex, hevents⟩ := hstart.run hwalk.nodup
  refine ⟨hrun, fun fd hfd => ?_⟩
  rw [KQueueRegs.resetAfterFork, hindex] at hfd
  rw [KQueueRegs.resetAfterFork, hevents]
  exact hdel fd hfd

theorem mirrors_step {a : KQueueAct D} (h : Mirrors p) (hdel : p.DeletedEmpty)
    (hs : KQueueStep p a p') : Mirrors p' ∧ p'.DeletedEmpty := by
  cases a with
  | reg a =>
      cases a with
      | update fd events => exact h.updateChannel hdel hs
      | remove fd =>
          obtain ⟨hkept, hdel', -⟩ := h.removeChannel hdel hs
          exact ⟨hkept, hdel'⟩
  | resetAfterFork order =>
      obtain ⟨hwalk, rfl⟩ := hs
      exact h.resetAfterFork hdel hwalk

end KQueueRegs

/-- **Only valid registrations.** In every run of updates and removals that
meet the assertions, `EpollPoller` adds descriptors that are not in the epoll
set and modifies or deletes those that are, and `kAdded` is the index of
exactly the latter. `KQueue` adds filters that are missing and deletes
installed ones, and its recorded masks ask for exactly the installed filters,
also after a fork at any time. A removed channel has nothing left in the
kernel. -/
theorem registrations_valid :
    (∀ acts : List (RegAct D), Throughout EpollStep
      (fun p => (∀ call ∈ p.calls, call.Valid) ∧
        (∀ fd, p.index fd = .added ↔ (p.interest fd).isSome = true) ∧
        ∀ fd p', p.removeChannel fd = .ok p' → p'.interest fd = none) .new acts) ∧
    ∀ acts : List (KQueueAct D), Throughout KQueueStep
      (fun p => (∀ call ∈ p.calls, call.Valid) ∧
        (∀ fd filter, p.filters fd filter = hasAny (p.oldEvents fd) filter.bits) ∧
        ∀ fd p', p.removeChannel fd = .ok p' → ∀ filter, p'.filters fd filter = false)
      .new acts := by
  refine ⟨fun acts pre p _ hrun => ?_, fun acts pre p _ hrun => ?_⟩
  · have h : p.Mirrors := hrun.invariant (fun _ _ _ h hs => h.step hs) EpollRegs.Mirrors.new
    exact ⟨h.valid, h.added, fun fd p' hs => (h.removeChannel hs).2⟩
  · have h := hrun.invariant (I := fun p => p.Mirrors ∧ p.DeletedEmpty)
      (fun _ _ _ h hs => KQueueRegs.mirrors_step h.1 h.2 hs)
      ⟨KQueueRegs.Mirrors.new, fun _ hfd => nomatch hfd⟩
    exact ⟨h.1.valid, h.1.recorded, fun fd p' hs => (h.1.removeChannel h.2 hs).2.2⟩

/-- A channel is watched for reading, the process forks, and the child
disables and removes the channel. -/
def watchForkRemove : List (KQueueAct Bool) :=
  [.reg (.update true Channel.kReadEvent), .resetAfterFork [true], .reg (.update true 0),
    .reg (.remove true)]

theorem registrations_valid_fork :
    ∃ p, Run KQueueStep KQueueRegs.new watchForkRemove p ∧
      p.calls = [⟨.add, true, .read, false⟩, ⟨.add, true, .read, false⟩,
        ⟨.delete, true, .read, true⟩] ∧ ∀ call ∈ p.calls, call.Valid := by
  have hrun : ∃ p, Run KQueueStep KQueueRegs.new watchForkRemove p ∧
      p.calls = [⟨.add, true, .read, false⟩, ⟨.add, true, .read, false⟩,
        ⟨.delete, true, .read, true⟩] := by
    refine ⟨_, .cons rfl (.cons ⟨⟨List.nodup_singleton true, fun fd => ?_⟩, rfl⟩
      (.cons rfl (.cons rfl (.nil _)))), rfl⟩
    cases fd <;> decide
  obtain ⟨p, hp, hcalls⟩ := hrun
  exact ⟨p, hp, hcalls, (registrations_valid.2 watchForkRemove _ p List.prefix_rfl hp).1⟩

end Netpoll
