import Netpoll.Lifecycle
import Netpoll.Precedes
import Netpoll.Stepwise
import Netpoll.TcpServer

/-!
# The connections of a server

`m_connSet` belongs to the server's loop, a connection to its I/O loop,
and what closes a connection goes back and forth between the two: the
close callback on the I/O loop, `handleCloseInLoop` on the server's, and
`connectDestroyed` on the I/O loop again. If a close callback is invoked
once at most, this is one chain of three events per connection, however
the loops interleave and whenever the server is stopped (`Bookkeeping`).

The invariant is a ledger. Each hop is a functor that is owed: it stands
in a queue, or it is in the hand of the thread that is about to run it or
to queue it. Close callbacks are erasures done or owed, and erasures are
destructions done or owed (`Books`).
-/

namespace Netpoll

open Conn

/-! ## What a step does to a connection -/

/-- The close callback has been called, or `handleClose` is about to. -/
def Conn.Closing (c : Conn) : Prop := .close ∈ c.trace ∨ .handleCloseRest ∈ c.frames

/-- The trace grows, nothing starts over, `Disconnected` is final, and
only a connection that is down begins to close. -/
structure Advances (c c' : Conn) : Prop where
  trace : c.trace <+: c'.trace
  connecting : c'.status = .connecting → c.status = .connecting
  disconnected : c.status = .disconnected → c'.status = .disconnected
  closing : c'.Closing → c.Closing ∨ c'.status = .disconnected

theorem ConnStatus.Moves.ne_connecting {s s' : ConnStatus} (h : s.Moves s') : s' ≠ .connecting := by
  cases h <;> simp

namespace Advances

variable {c c₁ c₂ c₃ : Conn}

theorem trans (h₁ : Advances c₁ c₂) (h₂ : Advances c₂ c₃) : Advances c₁ c₃ := by
  refine ⟨h₁.trace.trans h₂.trace, fun h => h₁.connecting (h₂.connecting h),
    fun h => h₂.disconnected (h₁.disconnected h), fun h => ?_⟩
  rcases h₂.closing h with h | h
  · exact (h₁.closing h).imp_right h₂.disconnected
  · exact Or.inr h

theorem of_eq (hs : c₂.status = c₁.status) (hf : .handleCloseRest ∈ c₂.frames →
    .handleCloseRest ∈ c₁.frames) (ht : c₂.trace = c₁.trace) : Advances c₁ c₂ := by
  refine ⟨by rw [ht], fun h => hs ▸ h, fun h => hs.trans h, ?_⟩
  rintro (h | h)
  · exact Or.inl (Or.inl (ht ▸ h))
  · exact Or.inl (Or.inr (hf h))

theorem of_log (c : Conn) {e : Event} (he : e ≠ .close) : Advances c (c.log e) := by
  refine ⟨List.prefix_append _ _, id, id, ?_⟩
  rintro (h | h)
  · rcases List.mem_append.mp h with h | h
    · exact Or.inl (Or.inl h)
    · exact absurd (List.mem_singleton.mp h).symm he
  · exact Or.inl (Or.inr h)

theorem of_setStatus (c : Conn) {s : ConnStatus} (hm : c.status.Moves s) :
    Advances c (c.setStatus s) := by
  refine ⟨List.prefix_append _ _, fun h => ?_, fun h => ?_, ?_⟩
  · exact absurd h hm.ne_connecting
  · rw [h] at hm
    cases hm with
    | leave h => simp at h
    | drop => rfl
  · rintro (h | h)
    · have h' : Event.close ∈ c.trace ++ [.status s] := h
      simp only [List.mem_append, List.mem_singleton, reduceCtorEq, or_false] at h'
      exact Or.inl (Or.inl h')
    · exact Or.inl (Or.inr h)

theorem stepwise : Stepwise Advances where
  trans := trans
  still := fun hs _ hf ht => of_eq hs (fun h => hf ▸ h) ht
  log := by
    intro c e he
    refine of_log c fun heq => ?_
    rw [heq] at he
    exact he
  push := by
    intro c f hne
    refine of_eq rfl (fun h => ?_) rfl
    exact (List.mem_cons.mp h).resolve_left hne.symm
  pop := by
    intro c f fs hf
    refine of_eq rfl (fun h => ?_) rfl
    rw [hf]
    exact List.mem_cons_of_mem _ h
  setStatus := fun c _ hm => of_setStatus c hm
  closing := by
    intro c hs
    exact ⟨List.prefix_rfl, id, id, fun _ => Or.inr hs⟩
  close := by
    intro c fs hf
    have hin : c.Closing := Or.inr (by rw [hf]; exact List.mem_cons_self)
    exact ⟨List.prefix_append _ _, id, id, fun _ => Or.inl hin⟩

end Advances

/-- A connection that nothing has happened to yet. -/
structure Conn.Fresh (c : Conn) : Prop where
  status : c.status = .connecting
  events : c.channel.events = Channel.kNoneEvent
  frames : ∀ f ∈ c.frames, f = .dispatch []

namespace Conn.Fresh

variable {c c' : Conn}

/-- What can happen to a connection before `connectEstablished`. -/
def Allows : Act → Prop
  | .connectEstablished => False
  | .call k => k = .forceClose
  | _ => True

theorem exec (h : c.Fresh) {a : Act} (ha : Allows a) (hex : c.exec a = .ok c') :
    c'.Fresh ∧ c'.trace = c.trace := by
  obtain ⟨hs, hev, hf⟩ := h
  cases a with
  | connectEstablished => exact ha.elim
  | event revents =>
      have hnone : (c.channel.setRevents revents).handleEvent = [] := by
        simp [Channel.handleEvent, Channel.isNoneEvent, Channel.setRevents, hev]
      simp only [Conn.exec, hnone] at hex
      cases hex
      refine ⟨⟨hs, hev, fun f hmem => ?_⟩, rfl⟩
      rcases List.mem_cons.mp hmem with rfl | hmem
      · rfl
      · exact hf f hmem
  | call k =>
      obtain rfl : k = .forceClose := ha
      simp only [Conn.exec, Conn.call, Conn.forceClose, hs] at hex
      cases hex
      exact ⟨⟨hs, hev, hf⟩, rfl⟩
  | resume =>
      simp only [Conn.exec] at hex
      split at hex
      · cases hex
        exact ⟨⟨hs, hev, hf⟩, rfl⟩
      · rename_i f fs hfs
        obtain rfl : f = .dispatch [] := hf f (by rw [hfs]; exact List.mem_cons_self)
        cases hex
        exact ⟨⟨hs, hev, fun g hg => hf g (by rw [hfs]; exact List.mem_cons_of_mem _ hg)⟩, rfl⟩
  | connectDestroyed =>
      rcases connectDestroyed_cases hex with ⟨hup, -⟩ | ⟨-, rfl⟩
      · cases hs.symm.trans hup
      · exact ⟨⟨hs, hev, hf⟩, rfl⟩

end Conn.Fresh

/-! ## The statement -/

section Statement

variable {L : Type*}

/-- No close callback has been invoked twice. -/
def TcpServer.ClosesOnce (s : TcpServer L) : Prop :=
  ∀ c, s.trace.count (.connectionClosed c) ≤ 1

/-- The server's books: what `handleCloseInLoop` asserts has held (`erased`)
and will hold (`found`), and so for `connectEstablished`. -/
structure TcpServer.Bookkeeping (s : TcpServer L) : Prop where
  erased : ∀ c n, .handleCloseInLoop c n ∈ s.trace → n = 1
  found : ∀ l c, .handleCloseInLoop c ∈ s.queue l → c ∈ s.connSet
  nodup : s.connSet.Nodup
  connSet : ∀ c, c ∈ s.connSet ↔
    .newConnection c ∈ s.trace ∧ ∀ n, .handleCloseInLoop c n ∉ s.trace
  established : ∀ l c, .connectEstablished c ∈ s.queue l →
    ∃ x, s.conns c = some x ∧ x.conn.status = .connecting
  destroyedOnce : ∀ c, s.trace.count (.connectDestroyed c) ≤ 1
  destroyedLast : ∀ c, .connectDestroyed c ∈ s.trace →
    Precedes s.trace (.connectionClosed c) (.handleCloseInLoop c 1) ∧
    Precedes s.trace (.handleCloseInLoop c 1) (.connectDestroyed c) ∧
    ∃ x, s.conns c = some x ∧ .close ∈ x.conn.trace ∧ x.conn.status = .disconnected

end Statement

/-! ## The ledger -/

/-- The connection that a functor is about. -/
def ServerTask.about : ServerTask → Option ConnId
  | .connectEstablished c | .handleCloseInLoop c | .connectDestroyed c | .call c _ => some c
  | .stop => none

/-- Functors that the ledger does not count. -/
def ServerTask.IsPlain : ServerTask → Prop
  | .call _ _ | .stop => True
  | _ => False

def ServerEvent.erases (c : ConnId) : ServerEvent → Bool
  | .handleCloseInLoop d _ => d = c
  | _ => false

/-- The connection whose close callback an event is. -/
def ServerEvent.closes : ServerEvent → Option ConnId
  | .connectionClosed c => some c
  | _ => none

namespace TcpServer

variable {L : Type*}

def ioLoopOf (s : TcpServer L) (c : ConnId) : L :=
  ((s.conns c).map ServerConn.ioLoop).getD s.loop

/-- The loop that a functor is queued in. -/
def home (s : TcpServer L) : ServerTask → L
  | .connectEstablished c | .connectDestroyed c | .call c _ => s.ioLoopOf c
  | .handleCloseInLoop _ | .stop => s.loop

/-- How often a functor is still to be run, with those in the hand of a
thread. -/
def owed (s : TcpServer L) (hand : List ServerTask) (t : ServerTask) : Nat :=
  (s.queue (s.home t)).count t + hand.count t

def erasures (s : TcpServer L) (c : ConnId) : Nat := s.trace.countP (ServerEvent.erases c)

/-- A connection in the books. -/
structure ConnBooks (s : TcpServer L) (hand : List ServerTask) (c : ConnId) (x : ServerConn L) :
    Prop where
  fresh : x.conn.status = .connecting → x.conn.Fresh
  closing : x.conn.Closing → x.conn.status = .disconnected
  closed : .connectionClosed c ∈ s.trace → .close ∈ x.conn.trace
  established : s.owed hand (.connectEstablished c) = if x.conn.status = .connecting then 1 else 0

structure Books (s : TcpServer L) (hand : List ServerTask) : Prop where
  nodup : s.connSet.Nodup
  accepted : ∀ c, .newConnection c ∈ s.trace ↔ (s.conns c).isSome
  connSet : ∀ c, c ∈ s.connSet ↔ (s.conns c).isSome ∧ s.erasures c = 0
  conn : ∀ c x, s.conns c = some x → s.ConnBooks hand c x
  closed : ∀ c, s.trace.count (.connectionClosed c)
    = s.owed hand (.handleCloseInLoop c) + s.erasures c
  destroyed : ∀ c, s.erasures c
    = s.owed hand (.connectDestroyed c) + s.trace.count (.connectDestroyed c)
  home : ∀ l t, t ∈ s.queue l → s.home t = l
  known : ∀ t c, 0 < s.owed hand t → t.about = some c → (s.conns c).isSome
  unknown : ∀ c, s.conns c = none → .connectionClosed c ∉ s.trace
  calls : ∀ c k x, 0 < s.owed hand (.call c k) → s.conns c = some x →
    x.conn.status = .connecting → k = .forceClose
  connPtrs : ∀ c ∈ s.connPtrs, (s.conns c).isSome
  erased : ∀ c n, .handleCloseInLoop c n ∈ s.trace →
    n = 1 ∧ Precedes s.trace (.connectionClosed c) (.handleCloseInLoop c n)
  order : ∀ c, .connectDestroyed c ∈ s.trace →
    Precedes s.trace (.handleCloseInLoop c 1) (.connectDestroyed c)

variable {s s' : TcpServer L} {hand hand' : List ServerTask} {c d : ConnId} {t : ServerTask}
  {x : ServerConn L}

theorem owed_cons (s : TcpServer L) (hand : List ServerTask) (t t' : ServerTask) :
    s.owed (t :: hand) t' = s.owed hand t' + if t = t' then 1 else 0 := by
  simp only [owed, List.count_cons, beq_iff_eq]
  omega

theorem owed_cons_of_ne {t t' : ServerTask} (hne : t ≠ t') :
    s.owed (t :: hand) t' = s.owed hand t' := by
  rw [owed_cons, if_neg hne]
  rfl

theorem owed_self_pos (s : TcpServer L) (hand : List ServerTask) (t : ServerTask) :
    0 < s.owed (t :: hand) t := by
  rw [owed_cons, if_pos rfl]
  omega

@[simp] theorem conns_log (s : TcpServer L) (e : ServerEvent) : (s.log e).conns = s.conns := rfl

@[simp] theorem owed_log (s : TcpServer L) (e : ServerEvent) : (s.log e).owed = s.owed := rfl

theorem erasures_log (s : TcpServer L) (e : ServerEvent) (c : ConnId) :
    (s.log e).erasures c = s.erasures c + if e.erases c then 1 else 0 := by
  simp [erasures, log, List.countP_append, List.countP_cons]

theorem erasures_eq_zero : s.erasures c = 0 ↔ ∀ n, .handleCloseInLoop c n ∉ s.trace := by
  rw [erasures, List.countP_eq_zero]
  constructor
  · intro h n hmem
    exact h _ hmem (by simp [ServerEvent.erases])
  · intro h e hmem he
    cases e with
    | handleCloseInLoop d n =>
        obtain rfl : d = c := by simpa [ServerEvent.erases] using he
        exact h n hmem
    | _ => simp [ServerEvent.erases] at he

theorem mem_log {e e' : ServerEvent} : e ∈ (s.log e').trace ↔ e ∈ s.trace ∨ e = e' := by
  simp [log]

theorem count_log (e e' : ServerEvent) :
    (s.log e').trace.count e = s.trace.count e + if e' = e then 1 else 0 := by
  simp [log, List.count_append, List.count_singleton]

theorem conns_setConn_self (s : TcpServer L) (c : ConnId) (x : ServerConn L) :
    (s.setConn c x).conns c = some x := Function.update_self ..

theorem conns_setConn_of_ne (s : TcpServer L) (x : ServerConn L) (hd : d ≠ c) :
    (s.setConn c x).conns d = s.conns d := Function.update_of_ne hd _ _

theorem isSome_setConn (hx : s.conns c = some x) (y : ServerConn L) (d : ConnId) :
    ((s.setConn c y).conns d).isSome = (s.conns d).isSome := by
  by_cases hd : d = c
  · rw [hd, conns_setConn_self, hx]
    rfl
  · rw [conns_setConn_of_ne s y hd]

theorem ioLoopOf_setConn_of_ne (s : TcpServer L) (x : ServerConn L) (hd : d ≠ c) :
    (s.setConn c x).ioLoopOf d = s.ioLoopOf d := by
  rw [ioLoopOf, ioLoopOf, conns_setConn_of_ne s x hd]
  rfl

theorem home_congr (hloop : s'.loop = s.loop)
    (hio : ∀ d, t.about = some d → s'.ioLoopOf d = s.ioLoopOf d) : s'.home t = s.home t := by
  cases t with
  | connectEstablished d => exact hio d rfl
  | connectDestroyed d => exact hio d rfl
  | call d k => exact hio d rfl
  | handleCloseInLoop d => exact hloop
  | stop => exact hloop

theorem home_setConn (hx : s.conns c = some x) {y : ServerConn L} (hy : y.ioLoop = x.ioLoop)
    (t : ServerTask) : (s.setConn c y).home t = s.home t := by
  refine home_congr rfl fun d _ => ?_
  by_cases hd : d = c
  · rw [ioLoopOf, ioLoopOf, hd, conns_setConn_self, hx, Option.map_some, hy]
    rfl
  · exact ioLoopOf_setConn_of_ne s y hd

theorem home_setConn_of_ne (x : ServerConn L) (ht : t.about ≠ some c) :
    (s.setConn c x).home t = s.home t := by
  refine home_congr rfl fun d hd => ioLoopOf_setConn_of_ne s x ?_
  rintro rfl
  exact ht hd

end TcpServer

namespace TcpServer.Books

variable {L : Type*} {s s' : TcpServer L} {hand hand' : List ServerTask} {c d : ConnId}
  {t : ServerTask} {x : ServerConn L}

theorem queue_owed (h : s.Books hand) {l : L} (ht : t ∈ s.queue l) : 0 < s.owed hand t := by
  obtain rfl := h.home l t ht
  exact Nat.add_pos_left (List.count_pos_iff.mpr ht) _

theorem requeue (h : s.Books hand) {q : L → List ServerTask}
    (howed : ∀ t, ({ s with queue := q } : TcpServer L).owed hand' t = s.owed hand t)
    (hhome : ∀ l t, t ∈ q l → s.home t = l) : ({ s with queue := q } : TcpServer L).Books hand' where
  nodup := h.nodup
  accepted := h.accepted
  connSet := h.connSet
  conn := by
    intro c x hx
    obtain ⟨hf, hcl, hc, he⟩ := h.conn c x hx
    exact ⟨hf, hcl, hc, (howed _).trans he⟩
  closed := fun c => (h.closed c).trans (by rw [howed]; rfl)
  destroyed := fun c => (h.destroyed c).trans (by rw [howed])
  home := hhome
  known := fun t c hpos ht => h.known t c (by rwa [howed] at hpos) ht
  unknown := h.unknown
  calls := fun c k x hpos => h.calls c k x (by rwa [howed] at hpos)
  connPtrs := h.connPtrs
  erased := h.erased
  order := h.order

theorem recount (h : s.Books hand)
    (howed : ∀ t, ¬ t.IsPlain → s.owed hand' t = s.owed hand t)
    (hknown : ∀ t c, 0 < s.owed hand' t → t.about = some c → (s.conns c).isSome)
    (hcalls : ∀ c k x, 0 < s.owed hand' (.call c k) → s.conns c = some x →
      x.conn.status = .connecting → k = .forceClose) : s.Books hand' := by
  refine { h with conn := ?_, closed := ?_, destroyed := ?_, known := hknown, calls := hcalls }
  · intro c x hx
    obtain ⟨hf, hcl, hc, he⟩ := h.conn c x hx
    exact ⟨hf, hcl, hc, (howed _ id).trans he⟩
  · intro c
    rw [howed _ id]
    exact h.closed c
  · intro c
    rw [howed _ id]
    exact h.destroyed c

theorem take (h : s.Books hand) (hp : t.IsPlain)
    (hknown : ∀ c, t.about = some c → (s.conns c).isSome)
    (hcalls : ∀ c k x, t = .call c k → s.conns c = some x → x.conn.status = .connecting →
      k = .forceClose) : s.Books (t :: hand) := by
  refine h.recount (fun t' hp' => ?_) (fun t' c hpos hab => ?_) fun c k x hpos hx hst => ?_
  · refine owed_cons_of_ne ?_
    rintro rfl
    exact hp' hp
  · by_cases heq : t = t'
    · exact hknown c (heq ▸ hab)
    · exact h.known t' c (by rwa [owed_cons_of_ne heq] at hpos) hab
  · by_cases heq : t = .call c k
    · exact hcalls c k x heq hx hst
    · exact h.calls c k x (by rwa [owed_cons_of_ne heq] at hpos) hx hst

theorem drop (h : s.Books (t :: hand)) (hp : t.IsPlain) : s.Books hand := by
  have hle : ∀ t', 0 < s.owed hand t' → 0 < s.owed (t :: hand) t' := by
    intro t' hpos
    rw [owed_cons]
    omega
  refine h.recount (fun t' hp' => (owed_cons_of_ne ?_).symm) (fun t' c hpos => ?_) fun c k x hpos => ?_
  · rintro rfl
    exact hp' hp
  · exact h.known t' c (hle t' hpos)
  · exact h.calls c k x (hle _ hpos)

/-! ### The three hops -/

theorem logClosed (h : s.Books hand) (hx : s.conns c = some x) (hclose : .close ∈ x.conn.trace) :
    (s.log (.connectionClosed c)).Books (.handleCloseInLoop c :: hand) := by
  have hers : ∀ d, (s.log (.connectionClosed c)).erasures d = s.erasures d := fun d =>
    erasures_log s _ d
  have howed : ∀ t, (s.log (.connectionClosed c)).owed (.handleCloseInLoop c :: hand) t
      = s.owed hand t + if .handleCloseInLoop c = t then 1 else 0 := owed_cons s hand _
  refine ⟨h.nodup, fun d => ?_, fun d => ?_, fun d y hy => ?_, fun d => ?_, fun d => ?_, h.home,
    fun t d hpos hab => ?_, fun d hd hmem => ?_, fun d k y hpos => ?_, h.connPtrs, fun d n hmem => ?_,
    fun d hmem => ?_⟩
  · rw [mem_log]
    simpa using h.accepted d
  · rw [hers]
    exact h.connSet d
  · obtain ⟨hf, hcl, hc, he⟩ := h.conn d y hy
    refine ⟨hf, hcl, fun hmem => ?_, (by rw [howed]; simpa using he)⟩
    rcases mem_log.mp hmem with hmem | hmem
    · exact hc hmem
    · obtain rfl : d = c := by simpa using hmem
      have hxy : s.conns d = some y := hy
      obtain rfl : x = y := Option.some.inj (hx.symm.trans hxy)
      exact hclose
  · rw [hers, howed, count_log, h.closed]
    simp only [ServerTask.handleCloseInLoop.injEq, ServerEvent.connectionClosed.injEq]
    omega
  · rw [hers, howed, count_log, h.destroyed]
    simp
  · rw [howed] at hpos
    by_cases heq : .handleCloseInLoop c = t
    · subst heq
      obtain rfl : c = d := by simpa [ServerTask.about] using hab
      exact Option.isSome_iff_exists.mpr ⟨x, hx⟩
    · rw [if_neg heq] at hpos
      exact h.known t d hpos hab
  · rcases mem_log.mp hmem with hmem | hmem
    · exact h.unknown d hd hmem
    · obtain rfl : d = c := by simpa using hmem
      have hd' : s.conns d = none := hd
      cases hx.symm.trans hd'
  · rw [howed] at hpos
    exact h.calls d k y (by simpa using hpos)
  · obtain ⟨hn, hp⟩ := h.erased d n (by simpa [mem_log] using hmem)
    exact ⟨hn, hp.append_right _⟩
  · exact (h.order d (by simpa [mem_log] using hmem)).append_right _

theorem mem_connSet (h : s.Books hand) (hone : s.trace.count (.connectionClosed c) ≤ 1)
    (howed : 0 < s.owed hand (.handleCloseInLoop c)) : c ∈ s.connSet := by
  have hcl := h.closed c
  exact (h.connSet c).mpr ⟨h.known _ c howed rfl, by omega⟩

theorem logErased (h : s.Books (.handleCloseInLoop c :: hand))
    (hone : s.trace.count (.connectionClosed c) ≤ 1) :
    ({ s with connSet := s.connSet.erase c }.log (.handleCloseInLoop c 1)).Books
      (.connectDestroyed c :: hand) := by
  have hmem : c ∈ s.connSet := h.mem_connSet hone (owed_self_pos s hand _)
  have hers : ∀ d, ({ s with connSet := s.connSet.erase c }.log (.handleCloseInLoop c 1)).erasures d
      = s.erasures d + if c = d then 1 else 0 := fun d => by
    rw [erasures_log]
    simp [ServerEvent.erases, erasures]
  have howed : ∀ t, ({ s with connSet := s.connSet.erase c }.log (.handleCloseInLoop c 1)).owed
      (.connectDestroyed c :: hand) t = s.owed hand t + if .connectDestroyed c = t then 1 else 0 :=
    owed_cons s hand _
  have hold : ∀ t, s.owed (.handleCloseInLoop c :: hand) t
      = s.owed hand t + if .handleCloseInLoop c = t then 1 else 0 := owed_cons s hand _
  have hclosed : .connectionClosed c ∈ s.trace := by
    refine List.count_pos_iff.mp ?_
    rw [h.closed, hold, if_pos rfl]
    omega
  refine ⟨h.nodup.erase c, fun d => ?_, fun d => ?_, fun d y hy => ?_, fun d => ?_, fun d => ?_,
    h.home, fun t d hpos hab => ?_, fun d hd hm => ?_, fun d k y hpos => ?_, h.connPtrs,
    fun d n hm => ?_, fun d hm => ?_⟩
  · rw [mem_log]
    simpa using h.accepted d
  · rw [hers]
    change d ∈ s.connSet.erase c ↔ _
    rw [h.nodup.mem_erase_iff, h.connSet d]
    by_cases hd : c = d
    · simp [hd]
    · simp [hd, Ne.symm hd, log]
  · obtain ⟨hf, hcl, hc, he⟩ := h.conn d y hy
    refine ⟨hf, hcl, fun hm => hc (by simpa [mem_log] using hm), ?_⟩
    rw [howed]
    rw [hold] at he
    simpa using he
  · have hcl := h.closed d
    rw [hold] at hcl
    rw [hers, howed, count_log]
    simp only [ServerTask.handleCloseInLoop.injEq, reduceCtorEq, if_false] at hcl ⊢
    omega
  · have hde := h.destroyed d
    rw [hold] at hde
    rw [hers, howed, count_log]
    simp only [ServerTask.connectDestroyed.injEq, reduceCtorEq, if_false] at hde ⊢
    omega
  · rw [howed] at hpos
    by_cases heq : .connectDestroyed c = t
    · subst heq
      obtain rfl : c = d := by simpa [ServerTask.about] using hab
      exact ((h.connSet c).mp hmem).1
    · rw [if_neg heq] at hpos
      exact h.known t d (by rw [hold]; omega) hab
  · exact h.unknown d hd (by simpa [mem_log] using hm)
  · rw [howed] at hpos
    exact h.calls d k y (by rw [hold]; simpa using hpos)
  · rcases mem_log.mp hm with hm | hm
    · obtain ⟨hn, hp⟩ := h.erased d n hm
      exact ⟨hn, hp.append_right _⟩
    · obtain ⟨rfl, rfl⟩ : d = c ∧ n = 1 := by simpa using hm
      exact ⟨rfl, precedes_append hclosed List.mem_cons_self⟩
  · exact (h.order d (by simpa [mem_log] using hm)).append_right _

theorem logDestroyed (h : s.Books (.connectDestroyed c :: hand)) :
    (s.log (.connectDestroyed c)).Books hand := by
  have hers : ∀ d, (s.log (.connectDestroyed c)).erasures d = s.erasures d := fun d =>
    erasures_log s _ d
  have hold : ∀ t, s.owed (.connectDestroyed c :: hand) t
      = s.owed hand t + if .connectDestroyed c = t then 1 else 0 := owed_cons s hand _
  have herased : .handleCloseInLoop c 1 ∈ s.trace := by
    by_contra hno
    have hz : s.erasures c = 0 := by
      refine erasures_eq_zero.mpr fun n hmem => hno ?_
      rw [← (h.erased c n hmem).1]
      exact hmem
    have hde := h.destroyed c
    have hpos := owed_self_pos s hand (.connectDestroyed c)
    omega
  refine ⟨h.nodup, fun d => ?_, fun d => ?_, fun d y hy => ?_, fun d => ?_, fun d => ?_, h.home,
    fun t d hpos hab => ?_, fun d hd hm => ?_, fun d k y hpos => ?_, h.connPtrs, fun d n hm => ?_,
    fun d hm => ?_⟩
  · rw [mem_log]
    simpa using h.accepted d
  · rw [hers]
    exact h.connSet d
  · obtain ⟨hf, hcl, hc, he⟩ := h.conn d y hy
    refine ⟨hf, hcl, fun hm => hc (by simpa [mem_log] using hm), ?_⟩
    rw [hold] at he
    simpa using he
  · have hcl := h.closed d
    rw [hold] at hcl
    rw [hers, count_log]
    simpa using hcl
  · have hde := h.destroyed d
    rw [hold] at hde
    rw [hers, count_log, hde]
    simp only [ServerTask.connectDestroyed.injEq, ServerEvent.connectDestroyed.injEq]
    change s.owed hand _ + _ + _ = s.owed hand _ + _
    omega
  · exact h.known t d (by rw [hold]; exact Nat.add_pos_left hpos _) hab
  · exact h.unknown d hd (by simpa [mem_log] using hm)
  · exact h.calls d k y (by rw [hold]; exact Nat.add_pos_left hpos _)
  · obtain ⟨hn, hp⟩ := h.erased d n (by simpa [mem_log] using hm)
    exact ⟨hn, hp.append_right _⟩
  · rcases mem_log.mp hm with hm | hm
    · exact (h.order d hm).append_right _
    · obtain rfl : d = c := by simpa using hm
      exact precedes_append herased List.mem_cons_self

/-! ### Queues and connections -/

theorem resettle (h : s.Books hand) (accepting : Bool) (loopPool : Option (EventLoopThreadPool L))
    {connPtrs : List ConnId} (hptrs : ∀ c ∈ connPtrs, (s.conns c).isSome) :
    ({ s with accepting, loopPool, connPtrs } : TcpServer L).Books hand where
  nodup := h.nodup
  accepted := h.accepted
  connSet := h.connSet
  conn := fun c x hx => ⟨(h.conn c x hx).fresh, (h.conn c x hx).closing, (h.conn c x hx).closed,
    (h.conn c x hx).established⟩
  closed := h.closed
  destroyed := h.destroyed
  home := h.home
  known := h.known
  unknown := h.unknown
  calls := h.calls
  connPtrs := hptrs
  erased := h.erased
  order := h.order

theorem stopInLoop (h : s.Books hand) : s.stopInLoop.Books hand := by
  refine h.resettle false s.loopPool fun c hc => ?_
  rcases List.mem_append.mp hc with hc | hc
  · exact ((h.connSet c).mp hc).1
  · exact h.connPtrs c hc

/-- A step of a connection that leaves no close callback to be noted. Only
`connectEstablished` of this connection is paid by it. -/
theorem setConn (h : s.Books hand) (hx : s.conns c = some x) {conn : Conn}
    (hadv : Advances x.conn conn) (hfresh : conn.status = .connecting → conn.Fresh)
    (hhand : ∀ t, t ≠ .connectEstablished c → hand'.count t = hand.count t)
    (hest : s.owed hand' (.connectEstablished c) = if conn.status = .connecting then 1 else 0) :
    (s.setConn c { x with conn }).Books hand' := by
  have hconns : ∀ d, d ≠ c → (s.setConn c { x with conn }).conns d = s.conns d := fun d hd =>
    conns_setConn_of_ne s _ hd
  have hself := conns_setConn_self s c { x with conn }
  have hsome := isSome_setConn hx { x with conn }
  have hhome := home_setConn hx (y := { x with conn }) rfl
  have howed' : ∀ t, (s.setConn c { x with conn }).owed hand' t = s.owed hand' t := by
    intro t
    rw [owed, hhome]
    rfl
  have howed : ∀ t, t ≠ .connectEstablished c →
      (s.setConn c { x with conn }).owed hand' t = s.owed hand t := by
    intro t ht
    rw [howed', owed, hhand t ht]
    rfl
  refine ⟨h.nodup, fun d => ?_, fun d => ?_, fun d y hy => ?_, fun d => ?_, fun d => ?_,
    fun l t ht => ?_, fun t d hpos hab => ?_, fun d hd => ?_, fun d k y hpos hy hst => ?_,
    fun d hd => ?_, h.erased, h.order⟩
  · rw [hsome]
    exact h.accepted d
  · rw [hsome]
    exact h.connSet d
  · by_cases hd : d = c
    · subst hd
      obtain rfl := Option.some.inj (hself.symm.trans hy)
      obtain ⟨-, hcl, hc, -⟩ := h.conn d x hx
      refine ⟨hfresh, fun hclosing => ?_, fun hmem => hadv.trace.subset (hc hmem),
        (howed' _).trans hest⟩
      rcases hadv.closing hclosing with hclosing | hdown
      · exact hadv.disconnected (hcl hclosing)
      · exact hdown
    · rw [hconns d hd] at hy
      obtain ⟨hf, hcl, hc, he⟩ := h.conn d y hy
      exact ⟨hf, hcl, hc, (howed _ (by simp [hd])).trans he⟩
  · rw [howed _ (by simp)]
    exact h.closed d
  · rw [howed _ (by simp)]
    exact h.destroyed d
  · rw [hhome]
    exact h.home l t ht
  · rw [hsome]
    by_cases ht : t = .connectEstablished c
    · obtain rfl : c = d := by simpa [ht, ServerTask.about] using hab
      exact Option.isSome_iff_exists.mpr ⟨x, hx⟩
    · rw [howed t ht] at hpos
      exact h.known t d hpos hab
  · refine h.unknown d ?_
    rw [← Option.isNone_iff_eq_none, ← Option.not_isSome, ← hsome, hd]
    rfl
  · rw [howed _ (by simp)] at hpos
    by_cases hd : d = c
    · subst hd
      obtain rfl := Option.some.inj (hself.symm.trans hy)
      exact h.calls d k x hpos hx (hadv.connecting hst)
    · rw [hconns d hd] at hy
      exact h.calls d k y hpos hy hst
  · rw [hsome]
    exact h.connPtrs d hd

theorem not_mem_queue (h : s.Books hand) (hc : s.conns c = none) (ht : t.about = some c) (l : L) :
    t ∉ s.queue l := by
  intro hmem
  have := h.known t c (h.queue_owed hmem) ht
  simp [hc] at this

/-- A new connection: `connectEstablished` is owed. -/
theorem accept (h : s.Books []) (hc : s.conns c = none) (ioLoop : L) {conn : Conn}
    (hfresh : conn.Fresh) (hopen : ¬ conn.Closing) :
    (({ s.setConn c { ioLoop, conn } with
        connSet := s.connSet.orderedInsert (· ≤ ·) c } : TcpServer L).log (.newConnection c)).Books
      [.connectEstablished c] := by
  generalize hs' : (({ s.setConn c { ioLoop, conn } with
    connSet := s.connSet.orderedInsert (· ≤ ·) c } : TcpServer L).log (.newConnection c)) = s'
  have hconns : ∀ d, d ≠ c → s'.conns d = s.conns d := by
    intro d hd
    rw [← hs']
    exact conns_setConn_of_ne s _ hd
  have hself : s'.conns c = some { ioLoop, conn } := by
    rw [← hs']
    exact conns_setConn_self s c _
  have htrace : s'.trace = s.trace ++ [.newConnection c] := by rw [← hs']; rfl
  have hqueue : s'.queue = s.queue := by rw [← hs']; rfl
  have hers : ∀ d, s'.erasures d = s.erasures d := by
    intro d
    simp [erasures, htrace, ServerEvent.erases]
  have hclosed0 : .connectionClosed c ∉ s.trace := h.unknown c hc
  have hzero : ∀ t, t.about = some c → ∀ l, (s.queue l).count t = 0 := fun t ht l =>
    List.count_eq_zero.mpr (h.not_mem_queue hc ht l)
  have hhome : ∀ t, t.about ≠ some c → s'.home t = s.home t := by
    intro t ht
    rw [← hs']
    exact home_setConn_of_ne _ ht
  have howed : ∀ t, s'.owed [.connectEstablished c] t
      = s.owed [] t + if .connectEstablished c = t then 1 else 0 := by
    intro t
    rw [owed_cons]
    congr 1
    by_cases ht : t.about = some c
    · rw [owed, owed, hqueue, hzero t ht, hzero t ht]
    · rw [owed, owed, hqueue, hhome t ht]
  have hers0 : s.erasures c = 0 := by
    have hcl := h.closed c
    rw [List.count_eq_zero.mpr hclosed0] at hcl
    omega
  have hnot : c ∉ s.connSet := fun hmem => by simpa [hc] using ((h.connSet c).mp hmem).1
  refine ⟨?_, fun d => ?_, fun d => ?_, fun d y hy => ?_, fun d => ?_, fun d => ?_,
    fun l t ht => ?_, fun t d hpos hab => ?_, fun d hd => ?_, fun d k y hpos hy hst => ?_,
    fun d hd => ?_, fun d n hm => ?_, fun d hm => ?_⟩
  · rw [← hs']
    exact (List.perm_orderedInsert _ c _).nodup_iff.mpr (List.nodup_cons.mpr ⟨hnot, h.nodup⟩)
  · rw [htrace]
    by_cases hd : d = c
    · simp [hd, hself]
    · simp [hd, hconns d hd, h.accepted]
  · rw [hers, ← hs']
    change d ∈ s.connSet.orderedInsert _ c ↔ _
    rw [List.mem_orderedInsert, hs', h.connSet d]
    by_cases hd : d = c
    · simp [hd, hself, hers0]
    · simp [hd, hconns d hd]
  · by_cases hd : d = c
    · subst hd
      obtain rfl := Option.some.inj (hself.symm.trans hy)
      refine ⟨fun _ => hfresh, fun hcl => absurd hcl hopen, fun hmem => ?_, ?_⟩
      · rw [htrace] at hmem
        exact absurd (by simpa using hmem) hclosed0
      · rw [howed, if_pos rfl, if_pos hfresh.status, owed, hzero _ rfl]
        rfl
    · rw [hconns d hd] at hy
      obtain ⟨hf, hcl, hcd, he⟩ := h.conn d y hy
      refine ⟨hf, hcl, fun hmem => hcd ?_, ?_⟩
      · rw [htrace] at hmem
        simpa using hmem
      · rw [howed, if_neg (by simpa using Ne.symm hd)]
        exact he
  · rw [howed, hers, htrace]
    simpa [List.count_append] using h.closed d
  · rw [howed, hers, htrace]
    simpa [List.count_append] using h.destroyed d
  · rw [hqueue] at ht
    rw [hhome t fun hab => h.not_mem_queue hc hab l ht]
    exact h.home l t ht
  · by_cases hd : d = c
    · simp [hd, hself]
    · rw [hconns d hd]
      refine h.known t d ?_ hab
      rw [howed, if_neg] at hpos
      · exact hpos
      · rintro rfl
        exact hd (by simpa [ServerTask.about] using hab.symm)
  · have hdc : d ≠ c := by
      rintro rfl
      cases hself.symm.trans hd
    rw [htrace]
    simpa using h.unknown d (by rw [← hconns d hdc]; exact hd)
  · by_cases hd : d = c
    · rw [howed, hd, if_neg (by simp), owed, hzero _ rfl] at hpos
      simp at hpos
    · rw [hconns d hd] at hy
      rw [howed, if_neg (by simp)] at hpos
      exact h.calls d k y hpos hy hst
  · have hd' : d ∈ s.connPtrs := by rw [← hs'] at hd; exact hd
    by_cases hdc : d = c
    · simp [hdc, hself]
    · rw [hconns d hdc]
      exact h.connPtrs d hd'
  · rw [htrace] at hm ⊢
    obtain ⟨hn, hp⟩ := h.erased d n (by simpa using hm)
    exact ⟨hn, hp.append_right _⟩
  · rw [htrace] at hm ⊢
    exact (h.order d (by simpa using hm)).append_right _

variable [DecidableEq L]

theorem pop (h : s.Books hand) {l : L} {rest : List ServerTask} (hq : s.queue l = t :: rest) :
    ({ s with queue := Function.update s.queue l rest } : TcpServer L).Books (t :: hand) := by
  have hl : s.home t = l := h.home l t (by rw [hq]; exact List.mem_cons_self)
  refine h.requeue (fun t' => ?_) fun l' t' ht' => ?_
  · rw [owed_cons]
    change (Function.update s.queue l rest (s.home t')).count t' + _ + _ = _
    by_cases hl' : s.home t' = l
    · rw [hl', Function.update_self, owed, hl', hq, List.count_cons]
      simp only [beq_iff_eq]
      omega
    · have hne : t ≠ t' := by
        rintro rfl
        exact hl' hl
      rw [Function.update_of_ne hl', owed, if_neg hne]
      rfl
  · by_cases hl' : l' = l
    · subst hl'
      rw [Function.update_self] at ht'
      exact h.home l' t' (by rw [hq]; exact List.mem_cons_of_mem _ ht')
    · rw [Function.update_of_ne hl'] at ht'
      exact h.home l' t' ht'

theorem queueInLoop (h : s.Books (t :: hand)) {l : L} (hl : s.home t = l) :
    (s.queueInLoop l t).Books hand := by
  refine h.requeue (fun t' => ?_) fun l' t' ht' => ?_
  · rw [owed_cons]
    change (Function.update s.queue l (s.queue l ++ [t]) (s.home t')).count t' + _ = _
    by_cases hl' : s.home t' = l
    · rw [hl', Function.update_self, owed, hl', List.count_append, List.count_singleton]
      simp only [beq_iff_eq]
      omega
    · have hne : t ≠ t' := by
        rintro rfl
        exact hl' hl
      rw [Function.update_of_ne hl', owed, if_neg hne]
      rfl
  · by_cases hl' : l' = l
    · subst hl'
      rw [Function.update_self] at ht'
      rcases List.mem_append.mp ht' with ht' | ht'
      · exact h.home l' t' ht'
      · rw [List.mem_singleton.mp ht', hl]
    · rw [Function.update_of_ne hl'] at ht'
      exact h.home l' t' ht'

/-! ### Steps -/

theorem handleCloseInLoop (h : s.Books (.handleCloseInLoop c :: hand))
    (hone : s.trace.count (.connectionClosed c) ≤ 1) : (s.handleCloseInLoop c).Books hand := by
  have hmem : c ∈ s.connSet := h.mem_connSet hone (owed_self_pos s hand _)
  obtain ⟨x, hx⟩ := Option.isSome_iff_exists.mp ((h.connSet c).mp hmem).1
  have hcount : s.connSet.count c = 1 := List.count_eq_one_of_mem h.nodup hmem
  have hlog := h.logErased hone
  unfold TcpServer.handleCloseInLoop
  rw [hcount]
  simp only [conns_log, hx]
  refine hlog.queueInLoop ?_
  simp [TcpServer.home, ioLoopOf, hx]

theorem connectionClosed (h : s.Books hand) (hx : s.conns c = some x)
    (hclose : .close ∈ x.conn.trace)
    (hone : (s.log (.connectionClosed c)).trace.count (.connectionClosed c) ≤ 1) :
    (s.connectionClosed x.ioLoop c).Books hand := by
  have hlog := h.logClosed hx hclose
  unfold TcpServer.connectionClosed
  simp only
  split
  · exact hlog.handleCloseInLoop hone
  · exact hlog.queueInLoop rfl

end TcpServer.Books

namespace TcpServer

variable {L : Type*} [DecidableEq L] {s s' : TcpServer L} {hand : List ServerTask} {c : ConnId}
  {t : ServerTask}

theorem trace_handleCloseInLoop (s : TcpServer L) (c : ConnId) :
    (s.handleCloseInLoop c).trace = s.trace ++ [.handleCloseInLoop c (s.connSet.count c)] := by
  unfold handleCloseInLoop
  simp only
  split <;> rfl

theorem ClosesOnce.of_handleCloseInLoop (h : (s.handleCloseInLoop c).ClosesOnce) :
    s.ClosesOnce := by
  intro d
  have hd := h d
  rw [trace_handleCloseInLoop, List.count_append] at hd
  omega

theorem ClosesOnce.of_connectionClosed {l : L} (h : (s.connectionClosed l c).ClosesOnce) :
    (s.log (.connectionClosed c)).ClosesOnce := by
  unfold connectionClosed at h
  simp only at h
  split at h
  · exact h.of_handleCloseInLoop
  · exact h

/-- What a step of a connection can do to the server. -/
inductive RunsConn (s : TcpServer L) (c : ConnId) (a : Act) (env : Env) : TcpServer L → Prop
  | quiet {x : ServerConn L} {conn : Conn} : s.conns c = some x →
      ConnStep x.conn ⟨a, env⟩ conn → RunsConn s c a env (s.setConn c { x with conn })
  | closed {x : ServerConn L} {conn : Conn} : s.conns c = some x →
      ConnStep x.conn ⟨a, env⟩ conn → .close ∈ conn.trace →
      RunsConn s c a env ((s.setConn c { x with conn }).connectionClosed x.ioLoop c)

theorem runsConn_of_runConn {a : Act} {env : Env} (h : s.runConn c a env = some s') :
    RunsConn s c a env s' := by
  unfold runConn at h
  split at h
  · cases h
  · rename_i x hx
    split at h
    · rename_i hen
      split at h
      · cases h
      · rename_i conn hex
        simp only at h
        split at h
        · rename_i hlt
          cases h
          exact .closed hx ⟨hen, hex⟩ (List.count_pos_iff.mp (Nat.zero_lt_of_lt hlt))
        · cases h
          exact .quiet hx ⟨hen, hex⟩
    · cases h

namespace Books

/-- The books after a step of a connection, if they are right but for its
close callback. -/
theorem runsConn {a : Act} {env : Env} (hrun : RunsConn s c a env s') (hone : s'.ClosesOnce)
    (h : ∀ x conn, s.conns c = some x → ConnStep x.conn ⟨a, env⟩ conn →
      (s.setConn c { x with conn }).Books hand) : s'.Books hand := by
  cases hrun with
  | quiet hx hs => exact h _ _ hx hs
  | @closed x conn hx hs hclose =>
      have hset := h x conn hx hs
      refine hset.connectionClosed (x := { x with conn }) (Function.update_self ..) hclose ?_
      exact hone.of_connectionClosed c

theorem runConn (h : s.Books hand) {a : Act} {env : Env} (hrun : s.runConn c a env = some s')
    (hone : s'.ClosesOnce)
    (hallow : ∀ x, s.conns c = some x → x.conn.status = .connecting → Conn.Fresh.Allows a) :
    s'.Books hand := by
  refine runsConn (runsConn_of_runConn hrun) hone fun x conn hx hs => ?_
  have hadv := Advances.stepwise.step hs
  have hbook := h.conn c x hx
  by_cases hst : x.conn.status = .connecting
  · obtain ⟨hst', hev, hf⟩ := hbook.fresh hst
    have henv : ({ x.conn with env } : Conn).Fresh := ⟨hst', hev, hf⟩
    have hfresh := (henv.exec (hallow x hx hst) hs.2).1
    refine h.setConn hx hadv (fun _ => hfresh) (fun _ _ => rfl) ?_
    rw [if_pos hfresh.status, hbook.established, if_pos hst]
  · have hst' : conn.status ≠ .connecting := fun heq => hst (hadv.connecting heq)
    refine h.setConn hx hadv (fun heq => absurd heq hst') (fun _ _ => rfl) ?_
    rw [if_neg hst', hbook.established, if_neg hst]

theorem runEstablished (h : s.Books (.connectEstablished c :: hand)) {env : Env}
    (hrun : s.runConn c .connectEstablished env = some s') (hone : s'.ClosesOnce) :
    s'.Books hand := by
  refine runsConn (runsConn_of_runConn hrun) hone fun x conn hx hs => ?_
  have hst' : conn.status ≠ .connecting := by
    have hex : ({ x.conn with env } : Conn).connectEstablished = .ok conn := hs.2
    unfold Conn.connectEstablished at hex
    split at hex
    · cases hex
      simp [Conn.invoke, Conn.setStatus, Conn.log, Conn.push]
      split <;> simp
    · cases hex
  have hest := (h.conn c x hx).established
  have hpos := owed_self_pos s hand (.connectEstablished c)
  refine h.setConn hx (Advances.stepwise.step hs) (fun heq => absurd heq hst') (fun t ht => ?_) ?_
  · rw [List.count_cons_of_ne (Ne.symm ht)]
  · rw [if_neg hst']
    rw [owed_cons, if_pos rfl] at hest
    split at hest <;> omega

theorem runTask (h : s.Books (t :: hand)) {env : Env} (hrun : s.runTask env t = some s')
    (hone : s'.ClosesOnce) : s'.Books hand := by
  cases t with
  | connectEstablished c => exact h.runEstablished hrun hone
  | handleCloseInLoop c =>
      cases hrun
      exact h.handleCloseInLoop (hone.of_handleCloseInLoop c)
  | connectDestroyed c =>
      exact h.logDestroyed.runConn hrun hone fun _ _ _ => trivial
  | call c k =>
      refine (h.drop trivial).runConn hrun hone fun x hx hst => ?_
      exact h.calls c k x (owed_self_pos s hand _) hx hst
  | stop =>
      cases hrun
      exact (h.drop trivial).stopInLoop

theorem runInLoop (h : s.Books (t :: hand)) {thread : Option L} {l : L} (hl : s.home t = l)
    {env : Env} (hrun : s.runInLoop thread l t env = some s') (hone : s'.ClosesOnce) :
    s'.Books hand := by
  unfold TcpServer.runInLoop at hrun
  split at hrun
  · exact h.runTask hrun hone
  · cases hrun
    exact h.queueInLoop hl

theorem newConnection (h : s.Books []) (hc : s.conns c = none) {callbacks : Callbacks} {env : Env}
    (hrun : s.newConnection c callbacks env = some s') (hone : s'.ClosesOnce) : s'.Books [] := by
  have hpool : s.nextIoLoop.2.Books [] ∧ s.nextIoLoop.2.conns = s.conns := by
    unfold nextIoLoop
    split
    · split
      · exact ⟨h.resettle s.accepting _ h.connPtrs, rfl⟩
      · exact ⟨h, rfl⟩
    · exact ⟨h, rfl⟩
  unfold TcpServer.newConnection at hrun
  split at hrun
  · rename_i ioLoop s₁ rb hnext hnew
    rw [hnext] at hpool
    have hfresh : (Conn.new rb { callbacks with close := true } env).Fresh :=
      ⟨rfl, rfl, by simp [Conn.new]⟩
    have hopen : ¬ (Conn.new rb { callbacks with close := true } env).Closing := by
      simp [Conn.Closing, Conn.new]
    have hacc := hpool.1.accept (by rw [hpool.2]; exact hc) ioLoop hfresh hopen
    refine hacc.runInLoop ?_ hrun hone
    simp [TcpServer.home, ioLoopOf, TcpServer.setConn, TcpServer.log]
  · cases hrun

theorem callConn (h : s.Books []) {thread : Option L} {k : Call} {env : Env}
    (hk : ∀ x, s.conns c = some x → x.conn.status = .connecting → k = .forceClose)
    (hrun : s.callConn thread c k env = some s') (hone : s'.ClosesOnce) : s'.Books [] := by
  unfold TcpServer.callConn at hrun
  split at hrun
  · cases hrun
  · rename_i x hx
    have htake : s.Books [.call c k] := by
      refine h.take trivial (fun d hd => ?_) fun d k' y heq hy hst => ?_
      · obtain rfl : c = d := by simpa [ServerTask.about] using hd
        simp [hx]
      · obtain ⟨rfl, rfl⟩ : c = d ∧ k = k' := by simpa using heq
        exact hk y hy hst
    refine htake.runInLoop ?_ hrun hone
    simp [TcpServer.home, ioLoopOf, hx]

theorem step (h : s.Books []) {a : ServerAct L} (hs : ServerStep s a s') (hone : s'.ClosesOnce) :
    s'.Books [] := by
  cases a with
  | newConnection c callbacks env =>
      simp only [ServerStep, exec] at hs
      split at hs
      · rename_i hg
        exact h.newConnection (Option.isNone_iff_eq_none.mp hg.2) hs hone
      · cases hs
  | task l env =>
      simp only [ServerStep, exec] at hs
      split at hs
      · cases hs
      · rename_i t rest hq
        exact (h.pop hq).runTask hs hone
  | event c revents env => exact h.runConn hs hone fun _ _ _ => trivial
  | resume c env => exact h.runConn hs hone fun _ _ _ => trivial
  | call thread c k env =>
      simp only [ServerStep, exec] at hs
      split at hs
      · rename_i hshown
        exact h.callConn (fun x hx hst => absurd hst (hshown x hx)) hs hone
      · cases hs
  | stop thread =>
      simp only [ServerStep, exec] at hs
      split at hs
      · cases hs
        exact h.stopInLoop
      · cases hs
        have htake : s.Books [.stop] :=
          h.take trivial (fun d hd => by cases hd) fun d k y heq => by cases heq
        exact htake.queueInLoop rfl
  | sweep env =>
      simp only [ServerStep, exec] at hs
      split at hs
      · cases hs
      · rename_i c rest hptrs
        have hrest : ({ s with connPtrs := rest } : TcpServer L).Books [] :=
          h.resettle s.accepting s.loopPool fun d hd =>
            h.connPtrs d (by rw [hptrs]; exact List.mem_cons_of_mem _ hd)
        exact hrest.callConn (fun _ _ _ => rfl) hs hone
  | resetPool =>
      simp only [ServerStep, exec] at hs
      split at hs
      · cases hs
      · cases hs
        exact h.resettle s.accepting none h.connPtrs
  | getNextLoop =>
      simp only [ServerStep, exec] at hs
      split at hs
      · cases hs
      · cases hs
        exact h.resettle s.accepting _ h.connPtrs

omit [DecidableEq L] in
theorem new (loop : L) (loopPool : Option (EventLoopThreadPool L)) :
    (TcpServer.new loop loopPool).Books [] := by
  constructor <;> simp [TcpServer.new, TcpServer.owed, erasures]

omit [DecidableEq L] in
theorem bookkeeping (h : s.Books []) (hone : s.ClosesOnce) : s.Bookkeeping := by
  have herased : ∀ c n, .handleCloseInLoop c n ∈ s.trace → n = 1 := fun c n hmem =>
    (h.erased c n hmem).1
  refine ⟨herased, fun l c hmem => h.mem_connSet (hone c) (h.queue_owed hmem), h.nodup,
    fun c => ?_, fun l c hmem => ?_, fun c => ?_, fun c hmem => ?_⟩
  · rw [h.connSet, h.accepted, erasures_eq_zero]
  · obtain ⟨x, hx⟩ := Option.isSome_iff_exists.mp (h.known _ c (h.queue_owed hmem) rfl)
    refine ⟨x, hx, ?_⟩
    by_contra hst
    have hest := (h.conn c x hx).established
    have hpos := h.queue_owed hmem
    rw [if_neg hst] at hest
    omega
  · have hcl := h.closed c
    have hde := h.destroyed c
    have := hone c
    omega
  · have hlast := h.order c hmem
    have hfirst := (h.erased c 1 hlast.left_mem).2
    obtain ⟨x, hx⟩ : ∃ x, s.conns c = some x := by
      by_contra hno
      exact h.unknown c (Option.eq_none_iff_forall_ne_some.mpr fun x hx => hno ⟨x, hx⟩)
        hfirst.left_mem
    have hclose := (h.conn c x hx).closed hfirst.left_mem
    exact ⟨hfirst, hlast, x, hx, hclose, (h.conn c x hx).closing (Or.inl hclose)⟩

end Books

/-- **The connections of a server.** In every run in which each close
callback is invoked at most once, the books are right at all times. -/
theorem connSet_exact (loop : L) (loopPool : Option (EventLoopThreadPool L))
    (ls : List (ServerAct L))
    (hone : Throughout ServerStep ClosesOnce (TcpServer.new loop loopPool) ls) :
    Throughout ServerStep Bookkeeping (TcpServer.new loop loopPool) ls := by
  have hsteps := (throughout_iff_steps.mp hone).2
  intro pre s hpre hrun
  have hbooks : s.Books [] := by
    refine (hsteps.guarded hpre hrun).invariant (I := fun s => s.Books []) (fun a l b ha hs => ?_)
      (Books.new loop loopPool)
    exact ha.step hs.1 (hs.2 b hs.1)
  exact hbooks.bookkeeping (hone pre s hpre hrun)

instance : DecidablePred (ClosesOnce (L := L)) := fun s =>
  decidable_of_iff (∀ e ∈ s.trace, ∀ c ∈ e.closes, s.trace.count (.connectionClosed c) ≤ 1) <| by
    constructor
    · intro h c
      by_cases hmem : .connectionClosed c ∈ s.trace
      · exact h _ hmem c rfl
      · rw [List.count_eq_zero.mpr hmem]
        exact Nat.zero_le 1
    · exact fun h _ _ c _ => h c

/-- One I/O loop; the server is stopped from outside once the connection
is up, and the sweep closes it. -/
def stopSweep (env : Env) : List (ServerAct Bool) :=
  [.newConnection 7 ⟨true, false, true, false, none⟩ env, .task true env, .resume 7 env,
    .stop none, .task false env, .sweep env, .task true env, .resume 7 env, .resume 7 env,
    .task false env, .resume 7 env, .task true env]

theorem connSet_exact_stopSweep :
    ∃ s, Run ServerStep (TcpServer.new false (some ⟨[true], 0⟩)) (stopSweep (answering [])) s ∧
      s.trace = [.newConnection 7, .connectionClosed 7, .handleCloseInLoop 7 1,
        .connectDestroyed 7] ∧ s.Bookkeeping := by
  have hsome : ((stopSweep (answering [])).foldlM TcpServer.exec
      (TcpServer.new false (some ⟨[true], 0⟩))).any (fun s => s.trace = [.newConnection 7,
        .connectionClosed 7, .handleCloseInLoop 7 1, .connectDestroyed 7]) = true := by
    decide +kernel
  obtain ⟨s, hs, htrace⟩ := (Option.any_eq_true _ _).mp hsome
  have hrun := Run.of_foldlM hs
  refine ⟨s, hrun, of_decide_eq_true htrace, ?_⟩
  refine connSet_exact false (some ⟨[true], 0⟩) (stopSweep (answering [])) ?_ _ s
    (List.prefix_refl _) hrun
  exact throughout_of_statesMeet (by decide +kernel)

end TcpServer

end Netpoll
