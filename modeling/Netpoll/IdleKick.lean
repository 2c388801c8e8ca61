import Netpoll.Lifecycle
import Netpoll.Stepwise
import Netpoll.WheelRelease

/-!
# Kicking off idle connections

`TcpServer` gives each I/O loop a timing wheel for its idle timeout `N`
and puts a `KickoffEntry` of every connection it accepts into the wheel;
the entry's destructor closes the connection. A connection that reads or
sends is meant to stay: `extendLife` inserts the entry again.

`extendLife` looks at `m_idleTimeout`, which nothing but `keepAlive`
assigns: `enableKickingOff` does not store its timeout. So no step of a
connection changes the wheel (`Refreshes`), the entry has the one
reference it was given when the connection was accepted, and the wheel
drops it at the `N`-th tick after that, whatever the connection does.
-/

namespace Netpoll

open Conn

/-! ## What a step does to the idle timeout -/

/-- `m_idleTimeout` stays as it is, and it is the delay of every insertion. -/
structure Refreshes (c c' : Conn) : Prop where
  idleTimeout : c'.idleTimeout = c.idleTimeout
  trace : ∃ evs, c'.trace = c.trace ++ evs ∧ ∀ t, .insertEntry t ∈ evs → t = c.idleTimeout

namespace Refreshes

variable {c c₁ c₂ c₃ : Conn}

theorem of_eq (hi : c₂.idleTimeout = c₁.idleTimeout) (ht : c₂.trace = c₁.trace) :
    Refreshes c₁ c₂ :=
  ⟨hi, [], by rw [ht, List.append_nil], by simp⟩

theorem trans (h₁ : Refreshes c₁ c₂) (h₂ : Refreshes c₂ c₃) : Refreshes c₁ c₃ := by
  obtain ⟨hi, evs, ht, hevs⟩ := h₁
  obtain ⟨hi', evs', ht', hevs'⟩ := h₂
  refine ⟨hi'.trans hi, evs ++ evs', by rw [ht', ht, List.append_assoc], ?_⟩
  intro t hmem
  rcases List.mem_append.mp hmem with hmem | hmem
  · exact hevs t hmem
  · exact (hevs' t hmem).trans hi

theorem log (c : Conn) {e : Event} (he : ∀ t, e = .insertEntry t → t = c.idleTimeout) :
    Refreshes c (c.log e) :=
  ⟨rfl, [e], rfl, fun t hmem => he t (List.mem_singleton.mp hmem).symm⟩

theorem stepwise : Stepwise Refreshes where
  trans := trans
  still := fun _ hi _ ht => of_eq hi ht
  log := by
    intro c e he
    refine log c fun t heq => ?_
    rw [heq] at he
    exact he
  push := fun _ _ _ => of_eq rfl rfl
  pop := fun _ => of_eq rfl rfl
  setStatus := fun c s _ =>
    (of_eq rfl rfl : Refreshes c { c with status := s }).trans (log _ (by simp))
  closing := fun _ => of_eq rfl rfl
  close := by
    intro c fs _
    exact (of_eq rfl rfl : Refreshes c { c with frames := fs }).trans (log _ (by simp))

end Refreshes

/-! ## The server's part -/

/-- The buckets of the wheels that `TcpServer::start` makes. -/
def kickoffBuckets (idleTimeout : Nat) : Nat := if idleTimeout < 500 then idleTimeout + 1 else 100

theorem one_lt_kickoffBuckets {idleTimeout : Nat} (h : 0 < idleTimeout) :
    1 < kickoffBuckets idleTimeout := by
  unfold kickoffBuckets
  split <;> omega

/-- The wheel that `TcpServer::start` makes for a loop. -/
def kickoffWheel (E : Type) (idleTimeout : Nat) (h : 0 < idleTimeout) : TimingWheel E :=
  .new E idleTimeout (kickoffBuckets idleTimeout) (one_lt_kickoffBuckets h)

/-- A connection and the wheel of its loop. `kickoffEntry` is the entry
that the weak pointer of the connection refers to, `entryConn` says
whether the entry still refers to the connection. Times are in
microseconds; `active` is the last read or accepted send. -/
structure KickConn (E : Type) where
  conn : Conn
  wheel : TimingWheel E
  kickoffEntry : E
  entryConn : Bool
  now : Nat
  lastTick : Nat
  active : Option Nat

/-- What happens on the loop of the connection. -/
inductive KickAct (E : Type) where
  | conn (l : Label)
  | tick (now : Nat)
  | insertEntry (delay : Nat) (e : E)
  | keepAlive

/-- From `c` to `c'` bytes were received, or a send was accepted. -/
def Conn.activeIn (c c' : Conn) : Bool :=
  c'.bytesReceived != c.bytesReceived ||
    (c'.trace.drop c.trace.length).any fun
      | .accept _ => true
      | _ => false

namespace KickConn

variable {E : Type} [DecidableEq E]

/-- `enableKickingOff`: the timeout goes to the wheel only. -/
def enableKickingOff (s : KickConn E) (timeout : Nat) : KickConn E :=
  { s with wheel := s.wheel.insertEntry timeout s.kickoffEntry }

/-- The part of `TcpServer::newConnection` that runs before
`connectEstablished`: a new connection, and its new entry in the wheel. -/
def newConnection (conn : Conn) (wheel : TimingWheel E) (entry : E) (now lastTick : Nat)
    (idleTimeout : Nat) : KickConn E :=
  enableKickingOff
    { conn, wheel, kickoffEntry := entry, entryConn := true, now, lastTick, active := none }
    idleTimeout

def keepAlive (s : KickConn E) : KickConn E :=
  { s with
    conn := { s.conn with idleTimeout := 0 }
    entryConn := s.entryConn && !decide (s.wheel.Holds s.kickoffEntry) }

/-- The insertions of `extendLife` among the events of a step. -/
def refresh (entry : E) (w : TimingWheel E) (evs : List Event) : TimingWheel E :=
  evs.foldl (fun w ev => match ev with
    | .insertEntry timeout => w.insertEntry timeout entry
    | _ => w) w

/-- A step of the connection, with what it inserts into the wheel. -/
def afterConn (s : KickConn E) (l : Label) (c' : Conn) : KickConn E :=
  { s with
    conn := c'
    wheel := refresh s.kickoffEntry s.wheel (c'.trace.drop s.conn.trace.length)
    now := l.env.now
    active := if s.conn.activeIn c' then some l.env.now else s.active }

/-- The next tick drops the last reference to the entry. -/
def Drops (s : KickConn E) : Prop :=
  s.wheel.Holds s.kickoffEntry ∧ ¬ s.wheel.tick.Holds s.kickoffEntry

instance (s : KickConn E) : Decidable s.Drops := inferInstanceAs (Decidable (_ ∧ _))

/-- A tick of the wheel, with `~KickoffEntry`. -/
def tick (s : KickConn E) (now : Nat) : KickConn E :=
  { s with
    conn := if s.Drops ∧ s.entryConn then s.conn.forceClose else s.conn
    wheel := s.wheel.tick
    now
    lastTick := now }

/-- The next tick force-closes the connection. -/
def Kicks (s : KickConn E) : Prop := s.Drops ∧ s.entryConn = true ∧ s.conn.Up

end KickConn

section Machine

variable {E : Type} [DecidableEq E]

/-- The loop of the connection. The clock does not go back, ticks are a
second apart or more, a tick runs when nothing else does, and the weak
pointers of `extendLife` tell the truth. Other callers of the wheel have
entries of their own. -/
inductive KickStep : KickConn E → KickAct E → KickConn E → Prop
  | conn {s : KickConn E} {l : Label} {c' : Conn} : ConnStep s.conn l c' → s.now ≤ l.env.now →
      (l.env.entryAlive = true ↔ s.wheel.Holds s.kickoffEntry) → l.env.wheelAlive = true →
      KickStep s (.conn l) (s.afterConn l c')
  | tick {s : KickConn E} {now : Nat} : s.conn.frames = [] → s.now ≤ now →
      s.lastTick + 1000000 ≤ now → KickStep s (.tick now) (s.tick now)
  | insertEntry {s : KickConn E} {e : E} (delay : Nat) : e ≠ s.kickoffEntry →
      KickStep s (.insertEntry delay e) { s with wheel := s.wheel.insertEntry delay e }
  | keepAlive {s : KickConn E} : KickStep s .keepAlive s.keepAlive

/-- A tick does not close a connection that was active less than `N - 1`
seconds before. -/
def SparesActive (N : Nat) (s : KickConn E) (a : KickAct E) : Prop :=
  ∀ now t, a = .tick now → s.Kicks → s.active = some t → t + (N - 1) * 1000000 ≤ now

/-- At the tick with number `R` an open connection that is not kept alive
has not been active for `N - 1` seconds. -/
def IdleAt (R N : Nat) (s : KickConn E) (a : KickAct E) : Prop :=
  ∀ now t, a = .tick now → s.wheel.ticksCounter + 1 = R → s.entryConn = true → s.conn.Up →
    s.active = some t → t + (N - 1) * 1000000 ≤ now

/-! ## The invariant -/

theorem refresh_eq {c c' : Conn} (h : Refreshes c c') (h0 : c.idleTimeout = 0)
    (entry : E) (w : TimingWheel E) :
    KickConn.refresh entry w (c'.trace.drop c.trace.length) = w := by
  obtain ⟨-, evs, htrace, hevs⟩ := h
  rw [htrace, List.drop_left]
  clear htrace
  induction evs with
  | nil => rfl
  | cons ev evs ih =>
      have hrest := ih fun t hmem => hevs t (List.mem_cons_of_mem _ hmem)
      cases ev with
      | insertEntry timeout =>
          have htimeout : timeout = 0 := (hevs timeout (List.mem_cons_self ..)).trans h0
          rw [KickConn.refresh, List.foldl_cons, htimeout]
          exact hrest
      | _ => exact hrest

/-- The entry is where it was put when the connection was accepted: the
wheel will drop it at tick `R`. -/
structure Doomed (e : E) (R : Nat) (s : KickConn E) : Prop where
  idleTimeout : s.conn.idleTimeout = 0
  entry : s.kickoffEntry = e
  fate : s.wheel.Fate e R

theorem Doomed.step {e : E} {R : Nat} {s s' : KickConn E} {a : KickAct E} (h : Doomed e R s)
    (hs : KickStep s a s') : Doomed e R s' := by
  obtain ⟨h0, rfl, hfate⟩ := h
  cases hs with
  | conn hc =>
      have hr := Refreshes.stepwise.step hc
      refine ⟨hr.idleTimeout.trans h0, rfl, ?_⟩
      rw [KickConn.afterConn, refresh_eq hr h0]
      exact hfate
  | tick =>
      refine ⟨?_, rfl, hfate.tick⟩
      rw [KickConn.tick]
      split
      · exact (Refreshes.stepwise.forceClose _).idleTimeout.trans h0
      · exact h0
  | insertEntry delay hne => exact ⟨h0, rfl, hfate.insertEntry hne delay⟩
  | keepAlive => exact ⟨rfl, rfl, hfate⟩

theorem Doomed.drops_iff {e : E} {R : Nat} {s : KickConn E} (h : Doomed e R s) :
    s.Drops ↔ s.wheel.ticksCounter + 1 = R := by
  obtain ⟨-, rfl, hfate⟩ := h
  rw [KickConn.Drops, hfate.holds_iff, hfate.tick.holds_iff, TimingWheel.ticksCounter_tick]
  omega

theorem Doomed.sparesActive_iff {e : E} {R N : Nat} {s : KickConn E} (h : Doomed e R s)
    (a : KickAct E) : SparesActive N s a ↔ IdleAt R N s a := by
  constructor
  · intro hs now t ha hR hentry hup hact
    exact hs now t ha ⟨h.drops_iff.mpr hR, hentry, hup⟩ hact
  · intro hs now t ha hk hact
    exact hs now t ha (h.drops_iff.mp hk.1) hk.2.1 hk.2.2 hact

theorem sizing_kickoff {N : Nat} (hN : N < 500) : TimingWheel.sizing N (N + 1) = 1 := by
  have hexact : toFloat N = N := roundBits_eq_self (by omega)
  rw [TimingWheel.sizing, hexact]
  cases N with
  | zero => rfl
  | succ N => rw [TimingWheel.sizingLoop, if_neg (by omega)]

/-- A wheel of `N + 1` buckets drops an entry with delay `N` at the `N`-th
tick from now. -/
theorem waits_kickoff {N : Nat} {w : TimingWheel E} {e : E} (hN : 0 < N) (hN' : N < 500)
    (h : w.Absent e) (hB : w.bucketsNumPerQueue = N + 1)
    (hQ : w.queueNum = TimingWheel.sizing N (N + 1)) :
    (w.insertEntry N e).Waits e (w.ticksCounter + N) := by
  have hexact : toFloat N = N := roundBits_eq_self (by omega)
  have hfit : (N + 1) ^ TimingWheel.sizing N (N + 1) < sizeMod := by
    have hmod : 501 < sizeMod := by decide
    rw [sizing_kickoff hN', Nat.pow_one]
    omega
  have hwaits := h.waits_insertEntryInLoop hB hQ hfit hN le_rfl
  rw [sizing_kickoff hN', hexact, level, if_pos (by omega), cascade] at hwaits
  rw [TimingWheel.insertEntry, if_neg (by omega)]
  exact hwaits

/-- The wheel spares active connections exactly when the connection is
idle at the `N`-th tick after it was accepted: what it reads and sends
before that tick counts for nothing. -/
theorem sparesActive_iff_idleAt {N : Nat} (hN : 1 < N) (hN' : N < 500)
    {ws : List (WheelAct E)} {w : TimingWheel E}
    (hrun : Run WheelStep (kickoffWheel E N (by omega)) ws w) {e : E}
    (hws : ∀ a ∈ ws, ¬ a.Inserts e) (rb : MessageBuffer) (cbs : Callbacks) (env : Env)
    (now lastTick : Nat) (ls : List (KickAct E)) :
    EveryStep KickStep (SparesActive N)
        (KickConn.newConnection (Conn.new rb cbs env) w e now lastTick N) ls ↔
      EveryStep KickStep (IdleAt (w.ticksCounter + N) N)
        (KickConn.newConnection (Conn.new rb cbs env) w e now lastTick N) ls := by
  have hbuckets : kickoffBuckets N = N + 1 := if_pos hN'
  obtain ⟨hB, hQ⟩ := TimingWheel.frame_of_run hrun
  rw [hbuckets] at hB hQ
  have hwaits := waits_kickoff (by omega) hN' (TimingWheel.absent_of_run hrun hws) hB hQ
  exact everyStep_congr (I := Doomed e (w.ticksCounter + N)) ⟨rfl, rfl, Or.inl hwaits⟩
    (fun _ _ _ h hs => h.step hs) fun _ a h => h.sparesActive_iff a

end Machine

/-! ### An active connection that is closed -/

def lively (io : List IoResult) (now : Nat) : Env := ⟨io, .failed .wouldBlock, now, true, true⟩

def emptyBuffer : MessageBuffer :=
  ⟨kBufferOffset, kBufferOffset, kBufferDefaultLength, List.replicate 2056 0⟩

/-- A connection of a server with an idle timeout of two seconds. -/
def kickStart : KickConn Unit :=
  .newConnection (Conn.new emptyBuffer plainCallbacks (lively [] 0))
    (kickoffWheel Unit 2 (by decide)) () 0 0 2

/-- It comes up, and half a second later it sends a byte. -/
def sendsEarly : List (KickAct Unit) :=
  [.conn ⟨.connectEstablished, lively [] 0⟩,
    .conn ⟨.call (.send ⟨[1], by decide⟩), lively [.count 1] 500000⟩]

/-- The second tick closes it, one and a half seconds after the send. -/
theorem sparesActive_sendsEarly :
    (∃ s, Run KickStep kickStart (sendsEarly ++ [.tick 1000000]) s ∧ s.active = some 500000 ∧
      s.Kicks) ∧
    EveryStep KickStep (SparesActive 2) kickStart
      (sendsEarly ++ [.tick 1000000, .tick 2000000]) := by
  constructor
  · exact ⟨_, .cons (.conn ⟨rfl, rfl⟩ (by decide) (by decide +kernel) rfl)
      (.cons (.conn ⟨Or.inl rfl, rfl⟩ (by decide) (by decide +kernel) rfl)
      (.cons (.tick rfl (by decide) (by decide)) (.nil _))), rfl, by decide +kernel, rfl,
      Or.inl rfl⟩
  · refine (sparesActive_iff_idleAt (by decide) (by decide) (.nil _) (by simp) emptyBuffer
      plainCallbacks (lively [] 0) 0 0 _).mpr ?_
    have hconn : ∀ {R : Nat} {s : KickConn Unit} {l : Label}, IdleAt R 2 s (.conn l) := by
      intro R s l now t h
      cases h
    refine everyStep_cons fun s₁ h₁ => ⟨hconn, everyStep_cons fun s₂ h₂ => ⟨hconn, ?_⟩⟩
    cases h₁ with
    | conn hc₁ =>
    obtain rfl := Except.ok.inj hc₁.2
    cases h₂ with
    | conn hc₂ =>
    obtain rfl := Except.ok.inj hc₂.2
    refine everyStep_cons fun s₃ h₃ => ⟨?_, everyStep_cons fun s₄ _ => ⟨?_, everyStep_nil⟩⟩
    -- the first tick is not the one that drops the entry
    · intro now t _ hR
      exact absurd hR (by decide +kernel)
    · intro now t hnow _ _ _ hact
      cases h₃
      cases hnow
      cases hact
      decide

/-- It is up, and the wheel has ticked once. -/
def ticked : KickConn Unit :=
  (kickStart.afterConn ⟨.connectEstablished, lively [] 0⟩
    (Conn.established emptyBuffer plainCallbacks (lively [] 0))).tick 1000000

def sending : Label := ⟨.call (.send ⟨[1], by decide⟩), lively [.count 1] 1900000⟩

/-- It has sent a byte, a tenth of a second before the next tick. -/
def hasSent : KickConn Unit :=
  ticked.afterConn sending
    { Conn.established emptyBuffer plainCallbacks (lively [] 1900000) with
      bytesSent := 1
      trace := [.status .connected, .accept [1], .sent [1]] }

theorem run_hasSent : Run KickStep kickStart
    [.conn ⟨.connectEstablished, lively [] 0⟩, .tick 1000000, .conn sending] hasSent := by
  refine .cons (.conn ⟨rfl, rfl⟩ (by decide) (by decide +kernel) rfl) ?_
  refine .cons (.tick rfl (by decide) (by decide)) ?_
  exact .cons (.conn ⟨Or.inl rfl, rfl⟩ (by decide) (by decide +kernel) rfl) (.nil _)

theorem kicks_hasSent : hasSent.Kicks := ⟨by decide +kernel, rfl, Or.inl rfl⟩

/-- The second tick closes a connection that has just sent. -/
theorem not_sparesActive_send : MessageBuffer.new kBufferDefaultLength = .ok emptyBuffer ∧
    ¬ EveryStep KickStep (SparesActive 2) kickStart
      [.conn ⟨.connectEstablished, lively [] 0⟩, .tick 1000000, .conn sending, .tick 2000000] := by
  refine ⟨rfl, fun h => ?_⟩
  have hstep : KickStep hasSent (.tick 2000000) (hasSent.tick 2000000) :=
    .tick rfl (by decide) (by decide)
  have hspare := h _ _ _ _ (List.prefix_refl _) run_hasSent hstep 2000000 1900000 rfl
    kicks_hasSent rfl
  omega

end Netpoll
