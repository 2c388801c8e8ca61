import Mathlib.Data.BitVec
import Netpoll.MessageBuffer

/-!
# `Channel`

The interest mask of a descriptor and the dispatch of a poll result, from
`net/channel.{h,cc}`. The masks are C `int`s with the values of `poll.h`.

`handleEvent` is modelled by the list of handlers it calls, in order:
`m_revents` is only written by the poller, so the whole list is known
when the dispatch starts, while what the handlers do to the connection is
not looked at again between two of them.
-/

namespace Netpoll

def POLLIN : BitVec 32 := 0x0001#32
def POLLPRI : BitVec 32 := 0x0002#32
def POLLOUT : BitVec 32 := 0x0004#32
def POLLERR : BitVec 32 := 0x0008#32
def POLLHUP : BitVec 32 := 0x0010#32
def POLLNVAL : BitVec 32 := 0x0020#32
def POLLRDHUP : BitVec 32 := 0x2000#32

/-- `mask & bits` as a condition. -/
def hasAny (mask bits : BitVec 32) : Bool := mask &&& bits != 0#32

structure Channel where
  events : BitVec 32
  revents : BitVec 32
deriving Repr, DecidableEq

/-- The callbacks that `handleEventSafely` chooses from. -/
inductive Handler where
  | close | error | read | write
deriving Repr, DecidableEq

namespace Channel

def kNoneEvent : BitVec 32 := 0#32
def kReadEvent : BitVec 32 := POLLIN ||| POLLPRI
def kWriteEvent : BitVec 32 := POLLOUT

/-- The constructor's initial masks. -/
def new : Channel := ⟨0#32, 0#32⟩

def isNoneEvent (ch : Channel) : Bool := ch.events == kNoneEvent
def isWriting (ch : Channel) : Bool := hasAny ch.events kWriteEvent
def isReading (ch : Channel) : Bool := hasAny ch.events kReadEvent

def enableReading (ch : Channel) : Channel := { ch with events := ch.events ||| kReadEvent }
def disableReading (ch : Channel) : Channel := { ch with events := ch.events &&& ~~~kReadEvent }
def enableWriting (ch : Channel) : Channel := { ch with events := ch.events ||| kWriteEvent }
def disableWriting (ch : Channel) : Channel := { ch with events := ch.events &&& ~~~kWriteEvent }
def disableAll (ch : Channel) : Channel := { ch with events := kNoneEvent }

def setRevents (ch : Channel) (revents : BitVec 32) : Channel := { ch with revents }

def remove (ch : Channel) : Except Fault Channel :=
  if ch.events = kNoneEvent then .ok ch else .error .assertion

def handleEventSafely (ch : Channel) : List Handler :=
  (if hasAny ch.revents POLLHUP && !hasAny ch.revents POLLIN then [.close] else []) ++
  (if hasAny ch.revents (POLLNVAL ||| POLLERR) then [.error] else []) ++
  (if hasAny ch.revents (POLLIN ||| POLLPRI ||| POLLRDHUP) then [.read] else []) ++
  (if hasAny ch.revents POLLOUT then [.write] else [])

/-- The tied owner is alive whenever a connection's channel is polled. -/
def handleEvent (ch : Channel) : List Handler :=
  if ch.isNoneEvent then [] else ch.handleEventSafely

/-! ## Write interest -/

theorem hasAny_iff (mask : BitVec 32) : hasAny mask POLLOUT = mask.getLsbD 2 := by
  have hbit : ∀ i < 32, POLLOUT.getLsbD i = decide (i = 2) := by decide
  by_cases h : mask.getLsbD 2
  · rw [h, hasAny, bne_iff_ne]
    intro hz
    have h2 : (mask &&& POLLOUT).getLsbD 2 = true := by
      rw [BitVec.getLsbD_and, h, hbit 2 (by decide)]
      rfl
    rw [hz] at h2
    cases h2
  · simp only [Bool.not_eq_true] at h
    rw [h, hasAny, bne_eq_false_iff_eq]
    refine BitVec.eq_of_getLsbD_eq fun i hi => ?_
    rw [BitVec.getLsbD_and, hbit i hi]
    by_cases hi2 : i = 2
    · rw [hi2, h]
      rfl
    · simp [hi2]

theorem isWriting_eq (ch : Channel) : ch.isWriting = ch.events.getLsbD 2 :=
  hasAny_iff ch.events

@[simp] theorem isWriting_enableWriting (ch : Channel) : ch.enableWriting.isWriting = true := by
  rw [isWriting_eq, enableWriting, BitVec.getLsbD_or,
    show kWriteEvent.getLsbD 2 = true from rfl, Bool.or_true]

@[simp] theorem isWriting_disableWriting (ch : Channel) :
    ch.disableWriting.isWriting = false := by
  rw [isWriting_eq, disableWriting, BitVec.getLsbD_and,
    show (~~~kWriteEvent).getLsbD 2 = false from rfl, Bool.and_false]

@[simp] theorem isWriting_disableAll (ch : Channel) : ch.disableAll.isWriting = false := by
  rw [isWriting_eq]
  exact BitVec.getLsbD_zero

@[simp] theorem isWriting_enableReading (ch : Channel) :
    ch.enableReading.isWriting = ch.isWriting := by
  rw [isWriting_eq, isWriting_eq, enableReading, BitVec.getLsbD_or,
    show kReadEvent.getLsbD 2 = false from rfl, Bool.or_false]

@[simp] theorem isWriting_new : new.isWriting = false := rfl

end Channel

end Netpoll
