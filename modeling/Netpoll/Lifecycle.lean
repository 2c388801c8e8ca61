import Mathlib.Data.List.Chain
import Netpoll.SendRuns

/-!
# The lifecycle of a connection

A connection goes from `Connecting` to `Connected`, possibly through
`Disconnecting`, to `Disconnected`; it tells its user once that it is up
and once that it is down, calls its close callback once, and delivers no
message after it is down. `LifeOk` says this of a trace, and
`lifeOk_snoc_iff` turns it into a condition on one event after the other.

The runs are those of the whole machine from the constructor on: poll
results with any mask, any answers of the kernel, `shutdown` and
`forceClose` also out of callbacks, sends, and `connectDestroyed`. One
dispatch can break the lifecycle: with `POLLHUP` and without `POLLIN` the
close handler runs first, and if `POLLPRI` or `POLLRDHUP` is set the read
handler follows on a connection that is already down (`LifeGuard`).
-/

namespace Netpoll

open Conn

/-! ## Traces of a good lifecycle -/

/-- The moves of `m_status`; assigning the same status again is none. -/
inductive Edge : ConnStatus → ConnStatus → Prop
  | stay (s : ConnStatus) : Edge s s
  | up : Edge .connecting .connected
  | leave : Edge .connected .disconnecting
  | drop : Edge .connected .disconnected
  | down : Edge .disconnecting .disconnected

/-- The statuses assigned, in order. -/
def statuses (trace : List Event) : List ConnStatus :=
  trace.filterMap fun
    | .status s => some s
    | _ => none

def lastStatus (trace : List Event) : ConnStatus := (statuses trace).getLast?.getD .connecting

/-- No message callback after the down notification. -/
def Silent (trace : List Event) : Prop :=
  ∀ n pre post, trace = pre ++ .connection false :: post → .message n ∉ post

structure LifeOk (trace : List Event) : Prop where
  forward : List.IsChain Edge (.connecting :: statuses trace)
  upOnce : trace.count (.connection true) ≤ 1
  downOnce : trace.count (.connection false) ≤ 1
  closeOnce : trace.count .close ≤ 1
  silent : Silent trace

/-- What may happen next in a good lifecycle. -/
def Follows (trace : List Event) : Event → Prop
  | .status s => Edge (lastStatus trace) s
  | .connection up => .connection up ∉ trace
  | .close => .close ∉ trace
  | .message _ => .connection false ∉ trace
  | _ => True

variable {t evs : List Event} {e : Event}

theorem statuses_append (t u : List Event) : statuses (t ++ u) = statuses t ++ statuses u :=
  List.filterMap_append

theorem lastStatus_append (t u : List Event) :
    lastStatus (t ++ u) = (statuses u).getLast?.getD (lastStatus t) := by
  unfold lastStatus
  rw [statuses_append, List.getLast?_append]
  cases (statuses u).getLast? <;> rfl

theorem forward_snoc_iff :
    List.IsChain Edge (.connecting :: statuses (t ++ [e])) ↔
      List.IsChain Edge (.connecting :: statuses t) ∧ ∀ s, e = .status s → Edge (lastStatus t) s := by
  have hlast : (ConnStatus.connecting :: statuses t).getLast? = some (lastStatus t) := by
    rw [List.getLast?_cons]
    rfl
  rw [statuses_append]
  cases e with
  | status s =>
      rw [show statuses [.status s] = [s] from rfl, ← List.cons_append, List.isChain_append, hlast]
      simp
  | _ => simp [statuses]

theorem count_snoc_iff (x : Event) :
    (t ++ [e]).count x ≤ 1 ↔ t.count x ≤ 1 ∧ (e = x → x ∉ t) := by
  rw [List.count_append, List.count_singleton, ← List.count_eq_zero]
  by_cases h : e = x
  · simp only [h, beq_self_eq_true, if_true, true_imp_iff]
    omega
  · simp [h]

theorem silent_snoc_iff :
    Silent (t ++ [e]) ↔ Silent t ∧ ∀ n, e = .message n → .connection false ∉ t := by
  constructor
  · intro h
    refine ⟨fun n pre post ht hmem => ?_, fun n he hmem => ?_⟩
    · exact h n pre (post ++ [e]) (by rw [ht]; simp) (List.mem_append_left _ hmem)
    · obtain ⟨pre, post, ht⟩ := List.append_of_mem hmem
      exact h n pre (post ++ [e]) (by rw [ht]; simp) (by simp [he])
  · rintro ⟨h, he⟩ n pre post ht
    rcases List.eq_nil_or_concat post with rfl | ⟨post', x, rfl⟩
    · simp
    · rw [List.concat_eq_append] at ht ⊢
      rw [← List.cons_append, ← List.append_assoc] at ht
      obtain ⟨rfl, hx⟩ := List.append_inj' ht rfl
      obtain rfl := List.singleton_inj.mp hx
      intro hmem
      rcases List.mem_append.mp hmem with hmem | hmem
      · exact h n pre post' rfl hmem
      · exact he n (List.mem_singleton.mp hmem).symm (by simp)

theorem lifeOk_snoc_iff : LifeOk (t ++ [e]) ↔ LifeOk t ∧ Follows t e := by
  constructor
  · rintro ⟨hf, hu, hd, hc, hs⟩
    rw [forward_snoc_iff] at hf
    rw [count_snoc_iff] at hu hd hc
    rw [silent_snoc_iff] at hs
    refine ⟨⟨hf.1, hu.1, hd.1, hc.1, hs.1⟩, ?_⟩
    cases e with
    | status s => exact hf.2 s rfl
    | connection up =>
        cases up with
        | true => exact hu.2 rfl
        | false => exact hd.2 rfl
    | close => exact hc.2 rfl
    | message n => exact hs.2 n rfl
    | _ => trivial
  · rintro ⟨⟨hf, hu, hd, hc, hs⟩, he⟩
    refine ⟨forward_snoc_iff.mpr ⟨hf, ?_⟩, (count_snoc_iff _).mpr ⟨hu, ?_⟩,
      (count_snoc_iff _).mpr ⟨hd, ?_⟩, (count_snoc_iff _).mpr ⟨hc, ?_⟩,
      silent_snoc_iff.mpr ⟨hs, ?_⟩⟩
    · rintro s rfl
      exact he
    · rintro rfl
      exact he
    · rintro rfl
      exact he
    · rintro rfl
      exact he
    · rintro n rfl
      exact he

theorem lifeOk_nil : LifeOk [] := by
  refine ⟨by simp [statuses], by simp, by simp, by simp, ?_⟩
  intro n pre post h
  simp at h

/-- Events that a lifecycle does not look at. -/
def Event.IsLife : Event → Prop
  | .status _ | .connection _ | .close | .message _ => True
  | _ => False

section quiet

variable (hevs : ∀ e ∈ evs, ¬ e.IsLife)
include hevs

theorem statuses_quiet : statuses evs = [] := by
  refine List.filterMap_eq_nil_iff.mpr fun e he => ?_
  have := hevs e he
  cases e with
  | status s => exact absurd trivial this
  | _ => rfl

theorem lastStatus_quiet (t : List Event) : lastStatus (t ++ evs) = lastStatus t := by
  rw [lastStatus_append, statuses_quiet hevs]
  rfl

theorem mem_quiet (t : List Event) (he : e.IsLife) : e ∈ t ++ evs ↔ e ∈ t := by
  rw [List.mem_append]
  exact or_iff_left fun hmem => hevs e hmem he

theorem count_quiet (t : List Event) (he : e.IsLife) : (t ++ evs).count e = t.count e := by
  rw [List.count_append, List.count_eq_zero_of_not_mem fun hmem => hevs e hmem he]
  rfl

theorem LifeOk.quiet (h : LifeOk t) : LifeOk (t ++ evs) := by
  induction evs using List.reverseRecOn with
  | nil => simpa using h
  | append_singleton es e ih =>
      rw [← List.append_assoc, lifeOk_snoc_iff]
      refine ⟨ih fun x hx => hevs x (List.mem_append_left _ hx), ?_⟩
      have := hevs e (by simp)
      cases e with
      | status s => exact absurd trivial this
      | connection up => exact absurd trivial this
      | close => exact absurd trivial this
      | message n => exact absurd trivial this
      | _ => trivial

end quiet

/-! ## The machine and its guard -/

/-- The connection is up: connected, or shutting down. -/
def Conn.Up (c : Conn) : Prop := c.status = .connected ∨ c.status = .disconnecting

/-- Calls of the user. Files and streams are sent on a connection that is
up; unlike `send` they do not look at the status. -/
def Conn.Admits (c : Conn) : Call → Prop
  | .send _ | .shutdown | .forceClose => True
  | k => k.Sends ∧ c.Up

def LifeStep : Conn → Label → Conn → Prop :=
  Guarded ConnStep fun c l => ∀ k, l.act = .call k → c.Admits k

/-- A read after which `handleRead` neither closes nor calls back. -/
def Conn.ReadsQuietly (c : Conn) (env : Env) : Prop :=
  match env.read with
  | .failed e => e ≠ .other
  | .data xs => c.callbacks.recvMsg = false ∧
      ∃ data, c.readBuffer.received (some xs) = some data ∧ data ≠ []

/-- What keeps a lifecycle good: when the read handler is dispatched on a
connection that is down already, its read finds nothing. -/
def LifeGuard (c : Conn) (l : Label) : Prop :=
  ∀ tl fs, l.act = .resume → c.frames = .dispatch (.read :: tl) :: fs →
    c.status = .disconnected → c.ReadsQuietly l.env

/-! ## What the functions of the lifecycle do -/

/-- What `handleRead` can do: close at the end of the stream or on an
error, deliver a message, or leave it to a later read. -/
inductive HandleReads (c : Conn) : Conn → Prop
  | eof (b : MessageBuffer) : ¬ c.ReadsQuietly c.env →
      HandleReads c ({ c with readBuffer := b }.push .extendLife).handleClose
  | failed (b : MessageBuffer) : ¬ c.ReadsQuietly c.env →
      HandleReads c ({ c with readBuffer := b } : Conn).handleClose
  | message (b : MessageBuffer) (n total time : Nat) (evs : List Event) :
      (∀ e ∈ evs, e = .insertEntry c.idleTimeout) →
      (c.ReadsQuietly c.env ↔ c.callbacks.recvMsg = false) →
      HandleReads c (({ c with
        readBuffer := b, bytesReceived := total, lastTimingWheelUpdateTime := time,
        trace := c.trace ++ evs } : Conn).invoke c.callbacks.recvMsg (.message n))
  | retry (b : MessageBuffer) : c.ReadsQuietly c.env → HandleReads c { c with readBuffer := b }

/-- The connection goes down: `handleClose` and `connectDestroyed` differ
in what they leave to do. -/
def Conn.down (c : Conn) (rest : Frame) : Conn :=
  ({ c.setStatus .disconnected with channel := c.channel.disableAll }.push rest).invoke
    c.callbacks.connection (.connection false)

namespace Conn

variable {c c' : Conn}

theorem handleClose_eq (c : Conn) : c.handleClose = c.down .handleCloseRest := rfl

theorem handleRead_cases (hex : c.handleRead = .ok c') : HandleReads c c' := by
  unfold Conn.handleRead at hex
  cases hr : c.env.read with
  | data xs =>
      have hq : c.ReadsQuietly c.env ↔ c.callbacks.recvMsg = false ∧
          ∃ data, c.readBuffer.received (some xs) = some data ∧ data ≠ [] := by
        simp only [ReadsQuietly, hr]
      simp only [hr] at hex
      split at hex
      · cases hex
      · rename_i data b hrec hfd
        by_cases hlen : data.length = 0
        · rw [if_pos hlen] at hex
          cases hex
          refine .eof b fun hquiet => ?_
          obtain ⟨-, data', hrec', hne⟩ := hq.mp hquiet
          rw [hrec] at hrec'
          cases hrec'
          exact hne (List.length_eq_zero_iff.mp hlen)
        · rw [if_neg hlen] at hex
          cases hex
          obtain ⟨t, evs, heq, hevs⟩ := ({ c with readBuffer := b } : Conn).extendLife_eq
          rw [heq]
          refine .message b _ _ t evs hevs ?_
          rw [hq]
          refine ⟨fun h => h.1, fun h => ⟨h, data, hrec, ?_⟩⟩
          intro hnil
          exact hlen (by rw [hnil]; rfl)
      · rename_i b hrec hfd
        cases hex
        refine .failed b fun hquiet => ?_
        obtain ⟨-, data', hrec', -⟩ := hq.mp hquiet
        rw [hrec] at hrec'
        cases hrec'
  | failed e =>
      have hq : c.ReadsQuietly c.env ↔ e ≠ .other := by
        simp only [ReadsQuietly, hr]
      have hrec : c.readBuffer.received none = none := by
        simp [MessageBuffer.received, MessageBuffer.readv]
      have hfd : c.readBuffer.readFd none = (c.readBuffer, none) := by
        simp [MessageBuffer.readFd, hrec]
      simp only [hr, hrec, hfd] at hex
      cases e with
      | other =>
          cases hex
          exact .failed _ (by rw [hq]; simp)
      | pipe =>
          cases hex
          exact .retry _ (by rw [hq]; simp)
      | connReset =>
          cases hex
          exact .retry _ (by rw [hq]; simp)
      | wouldBlock =>
          cases hex
          exact .retry _ (by rw [hq]; simp)

theorem channelRemove_eq (hex : c.channelRemove = .ok c') : c' = c := by
  unfold channelRemove Channel.remove at hex
  split at hex
  · cases hex
    rfl
  · cases hex

theorem connectDestroyed_cases (hex : c.connectDestroyed = .ok c') :
    (c.status = .connected ∧ c' = c.down .channelRemove) ∨ (c.status ≠ .connected ∧ c' = c) := by
  unfold connectDestroyed at hex
  by_cases hst : c.status = .connected
  · rw [if_pos hst] at hex
    simp only at hex
    split at hex
    · rename_i hcb
      refine Or.inl ⟨hst, ?_⟩
      have hcb' : c.callbacks.connection = true := hcb
      cases hex
      simp only [down, hcb']
      rfl
    · cases hex
  · rw [if_neg hst] at hex
    exact Or.inr ⟨hst, channelRemove_eq hex⟩

end Conn

/-! ## The invariant -/

/-- A frame that will not call the close handler. -/
def Frame.Plain : Frame → Prop
  | .dispatch todo => .close ∉ todo
  | _ => True

/-- The state agrees with its trace: nothing has happened yet while
connecting, nothing has gone down while up, and what is down listens to
nothing and has its close callback called or still to be called. -/
structure Life (cbs : Callbacks) (c : Conn) : Prop where
  flow : ∃ P, Flow True c P
  callbacks : c.callbacks = cbs
  ok : LifeOk c.trace
  last : lastStatus c.trace = c.status
  plain : ∀ f ∈ c.frames, f.Plain
  fresh : c.status = .connecting → c.channel.events = Channel.kNoneEvent ∧
    (∀ f ∈ c.frames, f = .dispatch []) ∧ .connection true ∉ c.trace
  live : c.status ≠ .disconnected →
    .connection false ∉ c.trace ∧ .close ∉ c.trace ∧ .handleCloseRest ∉ c.frames
  dead : c.status = .disconnected → c.channel.events = Channel.kNoneEvent ∧
    c.trace.count .close + c.frames.count .handleCloseRest ≤ 1 ∧
    (cbs.connection = true → .connection false ∈ c.trace)

/-- `c'` comes from `c` by steps that a lifecycle does not look at. -/
structure Quiet (c c' : Conn) : Prop where
  status : c'.status = c.status
  callbacks : c'.callbacks = c.callbacks
  frames : ∃ fs, c'.frames = fs ++ c.frames ∧ ∀ f ∈ fs, f.Plain ∧ f ≠ .handleCloseRest
  trace : ∃ evs, c'.trace = c.trace ++ evs ∧ ∀ e ∈ evs, ¬ e.IsLife

namespace Quiet

variable {c c₁ c₂ c₃ : Conn}

theorem trans (h₁ : Quiet c₁ c₂) (h₂ : Quiet c₂ c₃) : Quiet c₁ c₃ := by
  obtain ⟨hs, hc, ⟨fs, hf, hfs⟩, ⟨evs, ht, hevs⟩⟩ := h₁
  obtain ⟨hs', hc', ⟨fs', hf', hfs'⟩, ⟨evs', ht', hevs'⟩⟩ := h₂
  refine ⟨hs'.trans hs, hc'.trans hc, ⟨fs' ++ fs, by rw [hf', hf, List.append_assoc], ?_⟩,
    ⟨evs ++ evs', by rw [ht', ht, List.append_assoc], ?_⟩⟩
  · intro f hmem
    exact (List.mem_append.mp hmem).elim (hfs' f) (hfs f)
  · intro e hmem
    exact (List.mem_append.mp hmem).elim (hevs e) (hevs' e)

theorem of_outputs (h : Outputs c₁ c₂) : Quiet c₁ c₂ := by
  obtain ⟨hs, hc, -, ⟨fs, hf, hfs⟩, ⟨evs, ht, hevs⟩⟩ := h
  refine ⟨hs, hc, ⟨fs, hf, fun f hmem => ?_⟩, ⟨evs, ht, fun e hmem => ?_⟩⟩
  · rcases hfs f hmem with rfl | rfl
    · exact ⟨trivial, by simp⟩
    · exact ⟨trivial, by simp⟩
  · have hout := hevs e hmem
    cases e with
    | status s => exact hout.elim
    | connection up => exact hout.elim
    | close => exact hout.elim
    | message n => exact hout.elim
    | _ => exact id

theorem of_log (c : Conn) {e : Event} (he : ¬ e.IsLife) : Quiet c (c.log e) :=
  ⟨rfl, rfl, ⟨[], rfl, by simp⟩, ⟨[e], rfl, by simpa using he⟩⟩

theorem of_push (c : Conn) {f : Frame} (hf : f.Plain) (hne : f ≠ .handleCloseRest) :
    Quiet c (c.push f) :=
  ⟨rfl, rfl, ⟨[f], rfl, by simpa using ⟨hf, hne⟩⟩, ⟨[], by simp [Conn.push], by simp⟩⟩

theorem of_eq (hs : c₂.status = c₁.status) (hc : c₂.callbacks = c₁.callbacks)
    (hf : c₂.frames = c₁.frames) (ht : c₂.trace = c₁.trace) : Quiet c₁ c₂ :=
  ⟨hs, hc, ⟨[], by simp [hf], by simp⟩, ⟨[], by simp [ht], by simp⟩⟩

end Quiet

theorem not_up_iff {c : Conn} : ¬ c.Up ↔ c.status = .connecting ∨ c.status = .disconnected := by
  unfold Conn.Up
  cases c.status <;> simp

namespace Life

variable {cbs : Callbacks} {c c' : Conn}

/-- Quiet steps keep the invariant; a connection that is not up takes no
new frames and no new interest. -/
theorem quiet (h : Life cbs c) (hq : Quiet c c') (hfl : ∃ P, Flow True c' P)
    (hdown : ¬ c.Up → c'.channel.events = c.channel.events ∧ c'.frames = c.frames) :
    Life cbs c' := by
  obtain ⟨hs, hc, ⟨fs, hf, hfs⟩, ⟨evs, ht, hevs⟩⟩ := hq
  refine ⟨hfl, hc.trans h.callbacks, ?_, ?_, ?_, ?_, ?_, ?_⟩
  · rw [ht]
    exact LifeOk.quiet hevs h.ok
  · rw [ht, hs, lastStatus_quiet hevs]
    exact h.last
  · intro f hmem
    rw [hf] at hmem
    rcases List.mem_append.mp hmem with hmem | hmem
    · exact (hfs f hmem).1
    · exact h.plain f hmem
  · intro hst
    rw [hs] at hst
    obtain ⟨hch, hfr⟩ := hdown (not_up_iff.mpr (Or.inl hst))
    obtain ⟨hev, hall, hn⟩ := h.fresh hst
    refine ⟨hch.trans hev, by rw [hfr]; exact hall, ?_⟩
    rw [ht, mem_quiet (e := .connection true) hevs _ trivial]
    exact hn
  · intro hst
    rw [hs] at hst
    obtain ⟨hd, hcl, hr⟩ := h.live hst
    rw [ht, mem_quiet (e := .connection false) hevs _ trivial,
      mem_quiet (e := .close) hevs _ trivial, hf]
    refine ⟨hd, hcl, fun hmem => ?_⟩
    rcases List.mem_append.mp hmem with hmem | hmem
    · exact (hfs _ hmem).2 rfl
    · exact hr hmem
  · intro hst
    rw [hs] at hst
    obtain ⟨hch, hfr⟩ := hdown (not_up_iff.mpr (Or.inr hst))
    obtain ⟨hev, hcount, hd⟩ := h.dead hst
    rw [ht, count_quiet (e := .close) hevs _ trivial, hfr,
      mem_quiet (e := .connection false) hevs _ trivial]
    exact ⟨hch.trans hev, hcount, hd⟩

theorem still (h : Life cbs c) (hq : Quiet c c') (hfl : ∃ P, Flow True c' P)
    (hch : c'.channel = c.channel) (hf : c'.frames = c.frames) : Life cbs c' :=
  h.quiet hq hfl fun _ => ⟨by rw [hch], hf⟩

theorem env (h : Life cbs c) (env : Env) : Life cbs { c with env := env } := by
  obtain ⟨P, hfl⟩ := h.flow
  exact h.still (Quiet.of_eq rfl rfl rfl rfl) ⟨P, hfl.congr rfl rfl rfl rfl⟩ rfl rfl

theorem readBuffer (h : Life cbs c) (b : MessageBuffer) : Life cbs { c with readBuffer := b } := by
  obtain ⟨P, hfl⟩ := h.flow
  exact h.still (Quiet.of_eq rfl rfl rfl rfl) ⟨P, hfl.congr rfl rfl rfl rfl⟩ rfl rfl

theorem extendLife (h : Life cbs c) : Life cbs c.extendLife := by
  obtain ⟨P, hfl⟩ := h.flow
  obtain ⟨t, evs, heq, -⟩ := c.extendLife_eq
  exact h.still (Quiet.of_outputs (Outputs.of_extendLife c)) ⟨P, hfl.extendLife⟩ (by rw [heq])
    (by rw [heq])

theorem closeWrite (h : Life cbs c) : Life cbs c.closeWrite := by
  obtain ⟨P, hfl⟩ := h.flow
  refine h.still (Quiet.of_log c id) ⟨P, hfl.congr rfl rfl rfl ?_⟩ rfl rfl
  simp [Conn.closeWrite, Conn.log, Conn.sent, sentOf]

theorem setFrames (h : Life cbs c) {fs : List Frame} (hplain : ∀ f ∈ fs, f.Plain)
    (hfresh : c.status = .connecting → ∀ f ∈ fs, f = .dispatch [])
    (hcount : fs.count .handleCloseRest ≤ c.frames.count .handleCloseRest) :
    Life cbs { c with frames := fs } := by
  obtain ⟨P, hfl⟩ := h.flow
  refine ⟨⟨P, hfl.congr rfl rfl rfl rfl⟩, h.callbacks, h.ok, h.last, hplain, fun hst => ?_,
    fun hst => ?_, fun hst => ?_⟩
  · obtain ⟨hev, -, hn⟩ := h.fresh hst
    exact ⟨hev, hfresh hst, hn⟩
  · obtain ⟨hd, hcl, hr⟩ := h.live hst
    refine ⟨hd, hcl, List.count_eq_zero.mp ?_⟩
    rw [List.count_eq_zero_of_not_mem hr] at hcount
    exact Nat.le_zero.mp hcount
  · obtain ⟨hev, hle, hd⟩ := h.dead hst
    exact ⟨hev, (Nat.add_le_add_left hcount _).trans hle, hd⟩

theorem pop (h : Life cbs c) {f : Frame} {fs : List Frame} (hf : c.frames = f :: fs) :
    Life cbs { c with frames := fs } := by
  have hsub : ∀ g ∈ fs, g ∈ c.frames := fun g hg => by rw [hf]; exact List.mem_cons_of_mem _ hg
  refine h.setFrames (fun g hg => h.plain g (hsub g hg)) (fun hst g hg => ?_) ?_
  · exact (h.fresh hst).2.1 g (hsub g hg)
  · rw [hf]
    exact List.count_le_count_cons

end Life

/-! ## The functions of the lifecycle keep the invariant -/

namespace Life

variable {cbs : Callbacks} {c c' : Conn}

theorem push (h : Life cbs c) (hup : c.Up) {f : Frame} (hf : f.Plain)
    (hne : f ≠ .handleCloseRest) : Life cbs (c.push f) := by
  obtain ⟨P, hfl⟩ := h.flow
  exact h.quiet (Quiet.of_push c hf hne) ⟨P, hfl.push f⟩ fun hn => absurd hup hn

theorem setStatus_disconnecting (h : Life cbs c) (hup : c.Up) :
    Life cbs (c.setStatus .disconnecting) := by
  have hlive := h.live (by rcases hup with hs | hs <;> simp [hs])
  have hedge : Edge c.status .disconnecting := by
    rcases hup with hs | hs
    · rw [hs]
      exact .leave
    · rw [hs]
      exact .stay _
  obtain ⟨P, hfl⟩ := h.flow
  refine ⟨⟨P, hfl.congr rfl rfl rfl ?_⟩, h.callbacks, ?_, ?_, h.plain, ?_, ?_, ?_⟩
  · simp [setStatus, Conn.log, Conn.sent, sentOf]
  · refine lifeOk_snoc_iff.mpr ⟨h.ok, ?_⟩
    simp only [Follows, h.last]
    exact hedge
  · exact lastStatus_append _ _
  · intro hst
    cases hst
  · intro _
    simpa [setStatus, Conn.log] using hlive
  · intro hst
    cases hst

theorem down_trace (c : Conn) (rest : Frame) :
    (c.down rest).trace = c.trace ++ [.status .disconnected] ++
      if c.callbacks.connection then [.connection false] else [] := by
  unfold Conn.down Conn.invoke
  split
  · rfl
  · exact (List.append_nil _).symm

theorem down (h : Life cbs c) (hup : c.Up) {rest : Frame} (hr : rest.Plain) :
    Life cbs (c.down rest) := by
  obtain ⟨hd, hcl, hnr⟩ := h.live (by rcases hup with hs | hs <;> simp [hs])
  have hedge : Edge c.status .disconnected := by
    rcases hup with hs | hs
    · rw [hs]
      exact .drop
    · rw [hs]
      exact .down
  have hok : LifeOk (c.trace ++ [.status .disconnected]) := by
    refine lifeOk_snoc_iff.mpr ⟨h.ok, ?_⟩
    simp only [Follows, h.last]
    exact hedge
  have hst : (c.down rest).status = .disconnected := by
    simp [Conn.down, Conn.push, setStatus, Conn.log]
  have hframes : ∃ fs, (c.down rest).frames = fs ++ rest :: c.frames ∧ ∀ f ∈ fs, f = .callback := by
    unfold Conn.down Conn.invoke
    split
    · exact ⟨[.callback], rfl, by simp⟩
    · exact ⟨[], rfl, by simp⟩
  obtain ⟨fs, hfs, hcb⟩ := hframes
  obtain ⟨P, hfl⟩ := h.flow
  have hflow : Flow True { c.setStatus .disconnected with channel := c.channel.disableAll } P := by
    refine ⟨hfl.nodes, hfl.staged, by simp, ?_⟩
    have hsent : (c.setStatus .disconnected).sent = c.sent := by
      simp [setStatus, Conn.log, Conn.sent, sentOf]
    have hc := hfl.conserved
    rw [← hsent] at hc
    exact hc
  refine ⟨⟨P, (hflow.push rest).invoke _ (by simp)⟩, ?_, ?_, ?_, ?_, ?_, ?_, ?_⟩
  · unfold Conn.down Conn.invoke
    split <;> exact h.callbacks
  · rw [down_trace]
    split
    · refine lifeOk_snoc_iff.mpr ⟨hok, ?_⟩
      simpa [Follows] using hd
    · simpa using hok
  · rw [down_trace, hst]
    split <;> simp [lastStatus_append, statuses]
  · intro f hmem
    rw [hfs] at hmem
    rcases List.mem_append.mp hmem with hmem | hmem
    · rw [hcb f hmem]
      trivial
    · rcases List.mem_cons.mp hmem with rfl | hmem
      · exact hr
      · exact h.plain f hmem
  · intro hs
    rw [hst] at hs
    cases hs
  · intro hs
    exact absurd hst hs
  · intro _
    refine ⟨by simp [Conn.down, Conn.push, Channel.disableAll], ?_, fun hset => ?_⟩
    · have h0 : fs.count .handleCloseRest = 0 := by
        refine List.count_eq_zero_of_not_mem fun hmem => ?_
        cases hcb _ hmem
      have h1 : (c.down rest).trace.count .close = 0 := by
        refine List.count_eq_zero_of_not_mem ?_
        rw [down_trace]
        split <;> simpa using hcl
      have h2 : (rest :: c.frames).count .handleCloseRest ≤ 1 := by
        rw [List.count_cons, List.count_eq_zero_of_not_mem hnr]
        split <;> omega
      rw [hfs, List.count_append]
      omega
    · rw [down_trace, h.callbacks, if_pos hset]
      simp

theorem handleClose (h : Life cbs c) (hup : c.Up) : Life cbs c.handleClose := by
  rw [handleClose_eq]
  exact h.down hup trivial

theorem handleCloseRest (h : Life cbs c) {fs : List Frame}
    (hf : c.frames = .handleCloseRest :: fs) :
    Life cbs ({ c with frames := fs } : Conn).handleCloseRest := by
  have hst : c.status = .disconnected := by
    by_contra hne
    exact (h.live hne).2.2 (by rw [hf]; exact List.mem_cons_self)
  have hpop := h.pop hf
  unfold Conn.handleCloseRest Conn.invoke
  split
  · obtain ⟨hev, hcount, hd⟩ := h.dead hst
    rw [hf, List.count_cons_self] at hcount
    have hcl : .close ∉ c.trace := List.count_eq_zero.mp (by omega)
    obtain ⟨P, hfl⟩ := hpop.flow
    refine ⟨⟨P, hfl.congr rfl rfl rfl ?_⟩, h.callbacks, lifeOk_snoc_iff.mpr ⟨h.ok, hcl⟩, ?_, ?_, ?_,
      ?_, ?_⟩
    · simp [Conn.sent, Conn.push, Conn.log, sentOf]
    · exact (lastStatus_append _ _).trans h.last
    · intro f hmem
      rcases List.mem_cons.mp hmem with rfl | hmem
      · trivial
      · exact hpop.plain f hmem
    · intro hs
      cases hst.symm.trans hs
    · intro hs
      exact absurd hst hs
    · intro _
      refine ⟨hev, ?_, fun hset => List.mem_append_left _ (hd hset)⟩
      have h0 : (Frame.callback :: fs).count .handleCloseRest = fs.count .handleCloseRest :=
        List.count_cons_of_ne (by simp)
      simp only [Conn.push, Conn.log, List.count_append, List.count_singleton_self, h0]
      omega
  · exact hpop

theorem message (h : Life cbs c) (hup : c.Up) (isSet : Bool) (n : Nat) :
    Life cbs (c.invoke isSet (.message n)) := by
  obtain ⟨hd, hcl, hnr⟩ := h.live (by rcases hup with hs | hs <;> simp [hs])
  unfold Conn.invoke
  split
  · obtain ⟨P, hfl⟩ := h.flow
    have hlog : Life cbs (c.log (.message n)) := by
      refine ⟨⟨P, hfl.congr rfl rfl rfl ?_⟩, h.callbacks, lifeOk_snoc_iff.mpr ⟨h.ok, hd⟩, ?_,
        h.plain, fun hs => ?_, fun _ => ?_, fun hs => ?_⟩
      · simp [Conn.sent, Conn.log, sentOf]
      · exact (lastStatus_append _ _).trans h.last
      · rcases hup with hs' | hs' <;> cases hs'.symm.trans hs
      · simpa [Conn.log] using ⟨hd, hcl, hnr⟩
      · rcases hup with hs' | hs' <;> cases hs'.symm.trans hs
    exact hlog.push hup trivial (by simp)
  · exact h

theorem connectEstablished (h : Life cbs c) (hex : c.connectEstablished = .ok c') :
    Life cbs c' := by
  unfold Conn.connectEstablished at hex
  split at hex
  · rename_i hst
    cases hex
    obtain ⟨-, -, hn⟩ := h.fresh hst
    obtain ⟨hd, hcl, hnr⟩ := h.live (by simp [hst])
    obtain ⟨P, hfl⟩ := h.flow
    have hup : Life cbs ({ c with channel := c.channel.enableReading }.setStatus .connected) := by
      refine ⟨⟨P, hfl.congr rfl rfl (by simp [setStatus, Conn.log]) ?_⟩, h.callbacks, ?_, ?_,
        h.plain, fun hs => ?_, fun _ => ?_, fun hs => ?_⟩
      · simp [Conn.sent, setStatus, Conn.log, sentOf]
      · refine lifeOk_snoc_iff.mpr ⟨h.ok, ?_⟩
        simp only [Follows, h.last, hst]
        exact .up
      · exact lastStatus_append _ _
      · cases hs
      · simpa [setStatus, Conn.log] using ⟨hd, hcl, hnr⟩
      · cases hs
    unfold Conn.invoke
    split
    · have hlog : Life cbs (({ c with channel := c.channel.enableReading }.setStatus
          .connected).log (.connection true)) := by
        obtain ⟨P, hfl⟩ := hup.flow
        refine ⟨⟨P, hfl.congr rfl rfl rfl ?_⟩, h.callbacks, lifeOk_snoc_iff.mpr ⟨hup.ok, ?_⟩, ?_,
          h.plain, fun hs => ?_, fun _ => ?_, fun hs => ?_⟩
        · simp [Conn.sent, Conn.log, sentOf]
        · simpa [Follows, setStatus, Conn.log] using hn
        · exact (lastStatus_append _ _).trans hup.last
        · cases hs
        · simpa [setStatus, Conn.log] using ⟨hd, hcl, hnr⟩
        · cases hs
      exact hlog.push (Or.inl rfl) trivial (by simp)
    · exact hup
  · cases hex

end Life

/-! ## Steps -/

namespace Life

variable {cbs : Callbacks} {c c' : Conn}

theorem up_of_writing (h : Life cbs c) (hw : c.channel.isWriting = true) : c.Up := by
  by_contra hn
  have hev : c.channel.events = Channel.kNoneEvent := by
    rcases not_up_iff.mp hn with hs | hs
    · exact (h.fresh hs).1
    · exact (h.dead hs).1
  rw [Channel.isWriting, hev] at hw
  cases hw

theorem handleWrite (h : Life cbs c) (hex : c.handleWrite = .ok c') : Life cbs c' := by
  obtain ⟨P, hfl⟩ := h.flow
  obtain ⟨hfl', hhw⟩ := hfl.handleWrite.of_ok hex
  have hx := h.extendLife
  have hq := Quiet.of_outputs (Outputs.of_handleWrites hhw)
  cases hhw with
  | idle => exact hx
  | wrote hw => exact hx.quiet hq ⟨P, hfl'⟩ fun hn => absurd (hx.up_of_writing hw) hn
  | drained hw => exact hx.quiet hq ⟨P, hfl'⟩ fun hn => absurd (hx.up_of_writing hw) hn

theorem handleRead (h : Life cbs c) (hnc : c.status ≠ .connecting)
    (hg : c.status = .disconnected → c.ReadsQuietly c.env) (hex : c.handleRead = .ok c') :
    Life cbs c' := by
  have hup : ¬ c.ReadsQuietly c.env → c.Up := by
    intro hnq
    by_contra hn
    rcases not_up_iff.mp hn with hs | hs
    · exact hnc hs
    · exact hnq (hg hs)
  cases handleRead_cases hex with
  | eof b hnq =>
      have hpush := (h.readBuffer b).push (f := .extendLife) (hup hnq) trivial (by simp)
      exact hpush.handleClose (hup hnq)
  | failed b hnq => exact (h.readBuffer b).handleClose (hup hnq)
  | message b n total time evs hevs hiff =>
      obtain ⟨P, hfl⟩ := h.flow
      have hrecv : Life cbs { c with
          readBuffer := b, bytesReceived := total, lastTimingWheelUpdateTime := time,
          trace := c.trace ++ evs } := by
        refine h.still ⟨rfl, rfl, ⟨[], rfl, by simp⟩, ⟨evs, rfl, fun e he => ?_⟩⟩
          ⟨P, hfl.congr rfl rfl rfl ?_⟩ rfl rfl
        · rw [hevs e he]
          exact id
        · have hnil : sentOf evs = [] := sentOf_eq_nil fun e he xs => by
            rw [hevs e he]
            exact Event.noConfusion
          simp only [Conn.sent, sentOf_append, hnil, List.append_nil]
      by_cases hset : c.callbacks.recvMsg = true
      · exact hrecv.message (hup fun hq => by simp [hiff.mp hq] at hset) _ _
      · simp only [Bool.not_eq_true] at hset
        rw [hset]
        exact hrecv
  | retry b => exact h.readBuffer b

theorem pushNode (h : Life cbs c) (hup : c.Up) {node : BufferNode} (hok : node.Ok True)
    (hf : node.isFile = true) (hex : (c.log (.accept node.pending)).pushNode node = .ok c') :
    Life cbs c' := by
  obtain ⟨P, hfl⟩ := h.flow
  obtain ⟨hfl', hwr, -⟩ := ((hfl.log _).pushNode hok hf).of_ok hex
  exact h.quiet ((Quiet.of_log c id).trans (Quiet.of_outputs (Outputs.of_writes hwr))) ⟨_, hfl'⟩
    fun hn => absurd hup hn

theorem send (h : Life cbs c) (msg : View) (hex : c.sendInLoop msg.bytes = .ok c') :
    Life cbs c' := by
  by_cases hst : c.status = .connected
  · obtain ⟨P, hfl⟩ := h.flow
    obtain ⟨hs, hfl', -⟩ := (hfl.sendInLoop msg.fits hst).of_ok hex
    have ho := (Outputs.of_extendLife _).trans (Outputs.of_sendsInLoop hs)
    exact h.quiet ((Quiet.of_log c id).trans (Quiet.of_outputs ho)) hfl'
      fun hn => absurd (Or.inl hst) hn
  · unfold Conn.sendInLoop at hex
    rw [if_pos hst] at hex
    cases hex
    exact h

theorem shutdown (h : Life cbs c) : Life cbs c.shutdown := by
  unfold Conn.shutdown
  split
  · rename_i hst
    have hset := h.setStatus_disconnecting (Or.inl hst)
    simp only
    split
    · exact hset.closeWrite
    · exact hset
  · exact h

theorem forceClose (h : Life cbs c) : Life cbs c.forceClose := by
  unfold Conn.forceClose
  split
  · rename_i hup
    exact (h.setStatus_disconnecting hup).handleClose (Or.inr rfl)
  · exact h

theorem call (h : Life cbs c) {k : Call} (hk : c.Admits k) (hex : c.call k = .ok c') :
    Life cbs c' := by
  cases k with
  | send msg => exact h.send msg hex
  | sendFile file offset length =>
      cases file with
      | none =>
          cases hex
          exact h
      | some file =>
          obtain ⟨⟨hpos, hr⟩, hup⟩ := hk
          simp only [Conn.call, Conn.sendFile] at hex
          unfold Conn.sendFileFd at hex
          rw [if_pos hpos] at hex
          exact h.pushNode hup (ok_file rfl rfl fun _ => hr) rfl hex
  | sendStream callback =>
      obtain ⟨hsome, hup⟩ := hk
      obtain ⟨chunks, rfl⟩ := Option.isSome_iff_exists.mp hsome
      exact h.pushNode hup (ok_stream rfl) rfl hex
  | shutdown =>
      cases hex
      exact h.shutdown
  | forceClose =>
      cases hex
      exact h.forceClose

theorem connectDestroyed (h : Life cbs c) (hex : c.connectDestroyed = .ok c') : Life cbs c' := by
  rcases connectDestroyed_cases hex with ⟨hst, rfl⟩ | ⟨-, rfl⟩
  · exact h.down (Or.inl hst) trivial
  · exact h

theorem handleWriteRest (h : Life cbs c) : Life cbs c.handleWriteRest := by
  unfold Conn.handleWriteRest
  split
  · exact h.closeWrite
  · exact h

theorem resume (h : Life cbs c) {f : Frame} {fs : List Frame} (hf : c.frames = f :: fs)
    (hg : ∀ tl, f = .dispatch (.read :: tl) → c.status = .disconnected → c.ReadsQuietly c.env)
    (hex : ({ c with frames := fs } : Conn).resume f = .ok c') : Life cbs c' := by
  have hmem : f ∈ c.frames := by rw [hf]; exact List.mem_cons_self
  have hpop := h.pop hf
  cases f with
  | callback =>
      cases hex
      exact hpop
  | handleWriteRest =>
      cases hex
      exact hpop.handleWriteRest
  | handleCloseRest =>
      cases hex
      exact h.handleCloseRest hf
  | extendLife =>
      cases hex
      exact hpop.extendLife
  | channelRemove =>
      obtain rfl := channelRemove_eq hex
      exact hpop
  | dispatch todo =>
      have hplain : .close ∉ todo := h.plain _ hmem
      cases todo with
      | nil =>
          cases hex
          exact hpop
      | cons hd tl =>
          have hnc : c.status ≠ .connecting := fun hs => by
            have := (h.fresh hs).2.1 _ hmem
            simp at this
          have hadv : Life cbs (({ c with frames := fs } : Conn).push (.dispatch tl)) := by
            refine h.setFrames ?_ (fun hs => absurd hs hnc) ?_
            · intro g hg
              rcases List.mem_cons.mp hg with rfl | hg
              · exact fun hc => hplain (List.mem_cons_of_mem _ hc)
              · exact hpop.plain g hg
            · rw [hf, List.count_cons_of_ne (by simp), List.count_cons_of_ne (by simp)]
          cases hd with
          | close => exact absurd List.mem_cons_self hplain
          | error =>
              cases hex
              exact hadv
          | read => exact hadv.handleRead hnc (hg tl rfl) hex
          | write => exact hadv.handleWrite hex

end Life

theorem handleEvent_close (ch : Channel) :
    .close ∉ ch.handleEvent ∨ ∃ tl, ch.handleEvent = .close :: tl ∧ .close ∉ tl := by
  unfold Channel.handleEvent Channel.handleEventSafely
  split
  · simp
  · by_cases hc : (hasAny ch.revents POLLHUP && !hasAny ch.revents POLLIN) = true
    · rw [if_pos hc]
      refine Or.inr ⟨_, rfl, ?_⟩
      split <;> split <;> split <;> simp
    · rw [if_neg hc]
      refine Or.inl ?_
      split <;> split <;> split <;> simp

/-- The invariant of runs: right after a poll result the close handler may
be the next to run. -/
inductive Lives (cbs : Callbacks) (c : Conn) : Prop
  | plain : Life cbs c → Lives cbs c
  | closing (tl : List Handler) : c.frames = [.dispatch (.close :: tl)] → c.Up →
      Life cbs { c with frames := [.dispatch tl] } → Lives cbs c

namespace Lives

variable {cbs : Callbacks} {c c' : Conn}

theorem lifeOk (h : Lives cbs c) : LifeOk c.trace := by
  cases h with
  | plain h => exact h.ok
  | closing tl _ _ h => exact h.ok

theorem env (h : Lives cbs c) (env : Env) : Lives cbs { c with env := env } := by
  cases h with
  | plain h => exact .plain (h.env env)
  | closing tl hf hup h => exact .closing tl hf hup (h.env env)

/-- User code and the poller only run when no close handler waits. -/
theorem life_of_frames (h : Lives cbs c) (hf : c.frames = [] ∨ c.frames.head? = some .callback) :
    Life cbs c := by
  cases h with
  | plain h => exact h
  | closing tl hfr _ _ => simp [hfr] at hf

theorem event (h : Life cbs c) (hf : c.frames = []) (revents : BitVec 32) :
    Lives cbs ({ c with channel := c.channel.setRevents revents }.push
      (.dispatch (c.channel.setRevents revents).handleEvent)) := by
  obtain ⟨P, hfl⟩ := h.flow
  have hch : Life cbs { c with channel := c.channel.setRevents revents } :=
    h.quiet (Quiet.of_eq rfl rfl rfl rfl) ⟨P, hfl.congr rfl rfl rfl rfl⟩ fun _ => ⟨rfl, rfl⟩
  have hnone : ¬ c.Up → (c.channel.setRevents revents).handleEvent = [] := by
    intro hn
    have hev : c.channel.events = Channel.kNoneEvent := by
      rcases not_up_iff.mp hn with hs | hs
      · exact (h.fresh hs).1
      · exact (h.dead hs).1
    simp [Channel.handleEvent, Channel.isNoneEvent, Channel.setRevents, hev]
  have hframes : ∀ todo, .close ∉ todo → (¬ c.Up → todo = []) →
      Life cbs { c with
        channel := c.channel.setRevents revents, frames := [.dispatch todo] } := by
    intro todo hc hn
    refine hch.setFrames ?_ (fun hs => ?_) ?_
    · intro f hmem
      obtain rfl := List.mem_singleton.mp hmem
      exact hc
    · rw [hn (not_up_iff.mpr (Or.inl hs))]
      simp
    · simp
  unfold Conn.push
  simp only [hf]
  rcases handleEvent_close (c.channel.setRevents revents) with hc | ⟨tl, htl, hc⟩
  · exact .plain (hframes _ hc hnone)
  · have hup : c.Up := by
      by_contra hn
      simp [hnone hn] at htl
    rw [htl]
    exact .closing tl rfl hup (hframes tl hc fun hn => absurd hup hn)

theorem resume (h : Lives cbs c) {f : Frame} {fs : List Frame} (hf : c.frames = f :: fs)
    (hg : ∀ tl, f = .dispatch (.read :: tl) → c.status = .disconnected → c.ReadsQuietly c.env)
    (hex : ({ c with frames := fs } : Conn).resume f = .ok c') : Life cbs c' := by
  cases h with
  | plain h => exact h.resume hf hg hex
  | closing tl hfr hup h =>
      rw [hfr] at hf
      cases hf
      cases hex
      exact h.handleClose hup

/-- The step lemma: a guarded step keeps the lifecycle. -/
theorem step (h : Lives cbs c) {l : Label} (hg : LifeGuard c l) (hs : LifeStep c l c') :
    Lives cbs c' := by
  obtain ⟨⟨hen, hex⟩, hadm⟩ := hs
  have henv := h.env l.env
  cases hla : l.act with
  | connectEstablished =>
      rw [hla] at hen hex
      exact .plain ((henv.life_of_frames (Or.inl hen)).connectEstablished hex)
  | connectDestroyed =>
      rw [hla] at hen hex
      exact .plain ((henv.life_of_frames (Or.inl hen)).connectDestroyed hex)
  | call k =>
      rw [hla] at hen hex
      exact .plain ((henv.life_of_frames hen).call (hadm k hla) hex)
  | event revents =>
      rw [hla] at hen hex
      cases hex
      exact event (henv.life_of_frames (Or.inl hen)) hen revents
  | resume =>
      rw [hla] at hex
      simp only [exec] at hex
      split at hex
      · cases hex
        exact henv
      · rename_i f fs hf
        refine .plain (henv.resume hf (fun tl hft => ?_) hex)
        exact hg tl fs hla (by rw [← hft]; exact hf)

theorem not_lifeOk_handleClose (hset : c.callbacks.connection = true)
    (hdown : .connection false ∈ c.trace) : ¬ LifeOk c.handleClose.trace := by
  rw [handleClose_eq, Life.down_trace, if_pos hset]
  intro hok
  exact (lifeOk_snoc_iff.mp hok).2 (List.mem_append_left _ hdown)

/-- A read that is not quiet on a connection that is down repeats the down
notification or delivers a message behind it. -/
theorem not_lifeOk_handleRead (hset : c.callbacks.connection = true)
    (hdown : .connection false ∈ c.trace) (hnq : ¬ c.ReadsQuietly c.env)
    (hex : c.handleRead = .ok c') : ¬ LifeOk c'.trace := by
  cases handleRead_cases hex with
  | eof b => exact not_lifeOk_handleClose hset hdown
  | failed b => exact not_lifeOk_handleClose hset hdown
  | message b n total time evs hevs hiff =>
      have hrecv : c.callbacks.recvMsg = true := by
        by_contra hno
        exact hnq (hiff.mpr (by simpa using hno))
      rw [hrecv]
      intro hok
      exact (lifeOk_snoc_iff.mp hok).2 (List.mem_append_left _ hdown)
  | retry b hq => exact absurd hq hnq

theorem not_lifeOk (h : Lives cbs c) (hcb : cbs.connection = true) {l : Label}
    (hg : ¬ LifeGuard c l) (hs : LifeStep c l c') : ¬ LifeOk c'.trace := by
  obtain ⟨⟨-, hex⟩, -⟩ := hs
  simp only [LifeGuard, not_forall] at hg
  obtain ⟨tl, fs, hla, hf, hst, hnq⟩ := hg
  cases h with
  | closing tl' hfr _ _ =>
      rw [hfr] at hf
      cases hf
  | plain h =>
      have hdown : .connection false ∈ c.trace := (h.dead hst).2.2 hcb
      have hset : c.callbacks.connection = true := by rw [h.callbacks, hcb]
      rw [hla] at hex
      simp only [exec, hf] at hex
      exact not_lifeOk_handleRead
        (c := ({ c with env := l.env, frames := fs } : Conn).push (.dispatch tl)) hset hdown hnq hex

theorem new (rb : MessageBuffer) (cbs : Callbacks) (env : Env) :
    Lives cbs (Conn.new rb cbs env) := by
  refine .plain ⟨⟨[], ⟨by simp [Conn.new], by simp [Conn.new], by simp [Conn.new], rfl⟩⟩, rfl,
    lifeOk_nil, rfl, by simp [Conn.new], fun _ => ⟨rfl, ?_, ?_⟩, fun _ => ⟨?_, ?_, ?_⟩, fun hs => ?_⟩
  · simp [Conn.new]
  · simp [Conn.new]
  · simp [Conn.new]
  · simp [Conn.new]
  · simp [Conn.new]
  · cases hs

end Lives

/-- **The lifecycle of a connection.** In every run from the constructor on
whose steps meet the guard, every state reached has a good lifecycle. With
a connection callback the guard is also needed: a run that keeps a good
lifecycle meets it at every step. -/
theorem lifeOk_of_guard (rb : MessageBuffer) (cbs : Callbacks) (env : Env) (ls : List Label) :
    (EveryStep LifeStep LifeGuard (Conn.new rb cbs env) ls →
      Throughout LifeStep (fun c => LifeOk c.trace) (Conn.new rb cbs env) ls) ∧
    (cbs.connection = true →
      Throughout LifeStep (fun c => LifeOk c.trace) (Conn.new rb cbs env) ls →
      EveryStep LifeStep LifeGuard (Conn.new rb cbs env) ls) := by
  have h0 := Lives.new rb cbs env
  constructor
  · intro h pre c hpre hrun
    have hinv : Lives cbs c := (h.guarded hpre hrun).invariant
      (fun a l b ha hs => ha.step hs.2 hs.1) h0
    exact hinv.lifeOk
  · intro hcb
    refine (throughout_iff_everyStep (I := Lives cbs) h0 ?_ ?_ ?_).mp
    · exact fun c l c' h hg hs => h.step hg hs
    · exact fun c h => h.lifeOk
    · exact fun c l c' h hg hs => h.not_lifeOk hcb hg hs

/-- All callbacks of the lifecycle are set. -/
def lifeCallbacks : Callbacks := ⟨true, true, true, false, none⟩

def reading (r : ReadResult) : Env := ⟨[], r, 0, false, false⟩

/-- The peer hangs up with urgent data: the close handler runs, with its
two callbacks. -/
def hangup : List Label :=
  [⟨.connectEstablished, answering []⟩, ⟨.resume, answering []⟩,
    ⟨.event (POLLHUP ||| POLLPRI), answering []⟩, ⟨.resume, answering []⟩, ⟨.resume, answering []⟩,
    ⟨.resume, answering []⟩, ⟨.resume, answering []⟩]

/-- The read handler is still to be called. -/
def hungUp (rb : MessageBuffer) : Conn :=
  { Conn.new rb lifeCallbacks (answering []) with
    status := .disconnected
    channel := ⟨Channel.kNoneEvent, POLLHUP ||| POLLPRI⟩
    frames := [.dispatch [.read]]
    trace := [.status .connected, .connection true, .status .disconnected, .connection false,
      .close] }

theorem exec_event (c : Conn) {revents : BitVec 32} {todo : List Handler}
    (h : (c.channel.setRevents revents).handleEvent = todo) :
    c.exec (.event revents) =
      .ok ({ c with channel := c.channel.setRevents revents }.push (.dispatch todo)) := by
  rw [← h]
  rfl

theorem run_hangup (rb : MessageBuffer) :
    Run LifeStep (Conn.new rb lifeCallbacks (answering [])) hangup (hungUp rb) := by
  have hresume : ∀ {c c' : Conn}, c.frames ≠ [] →
      ({ c with env := answering [] } : Conn).exec .resume = .ok c' →
      LifeStep c ⟨.resume, answering []⟩ c' :=
    fun hf hex => ⟨⟨hf, hex⟩, fun _ h => nomatch h⟩
  have hevent : (Channel.new.enableReading.setRevents (POLLHUP ||| POLLPRI)).handleEvent
      = [.close, .read] := by decide
  refine .cons ⟨⟨rfl, rfl⟩, fun _ h => nomatch h⟩ ?_
  refine .cons (hresume (List.cons_ne_nil _ _) rfl) ?_
  refine .cons ⟨⟨rfl, exec_event _ hevent⟩, fun _ h => nomatch h⟩ ?_
  refine .cons (hresume (List.cons_ne_nil _ _) rfl) ?_
  refine .cons (hresume (List.cons_ne_nil _ _) rfl) ?_
  refine .cons (hresume (List.cons_ne_nil _ _) rfl) ?_
  exact .cons (hresume (List.cons_ne_nil _ _) rfl) (.nil _)

theorem handleRead_fresh {c : Conn} {len : Nat} {xs : List Byte}
    (hb : MessageBuffer.Fresh c.readBuffer len) (hlen : len < kExtBuffer)
    (hr : c.env.read = .data xs) (hx : xs.length ≤ len) : ∃ c', c.handleRead = .ok c' := by
  have hw : c.readBuffer.writableBytes = len := hb.writable_eq
  have hiov := MessageBuffer.iovLen_eq (n := c.readBuffer.writableBytes) (by rw [hw]; exact hlen)
  have hrec : c.readBuffer.received (some xs) = some xs := by
    have hk : kExtBuffer = 8192 := rfl
    unfold MessageBuffer.received MessageBuffer.readv MessageBuffer.iovTotal
    rw [hiov, hw, if_pos hlen, if_neg (by omega), Option.map_some,
      List.take_of_length_le (by omega)]
  have hroom : xs.length ≤ c.readBuffer.writableBytes := by omega
  obtain ⟨hst, -⟩ := hb.rep.readFd_inplace hroom (by omega)
  have hfd : ∃ b, c.readBuffer.readFd (some xs) = (b, none) := by
    unfold MessageBuffer.readFd
    rw [hrec]
    simp only [hst]
    rw [if_pos (by omega)]
    exact ⟨_, rfl⟩
  obtain ⟨b, hfd⟩ := hfd
  unfold Conn.handleRead
  simp only [hr, hrec, hfd]
  split
  · exact ⟨_, rfl⟩
  · exact ⟨_, rfl⟩

/-- Whatever the read after the close finds is wrong: the end of the
stream closes again, and data is delivered on a connection that is down. -/
theorem not_lifeOk_hangup :
    ∃ rb, MessageBuffer.new kBufferDefaultLength = .ok rb ∧
      ∀ xs, xs.length ≤ kBufferDefaultLength →
        ¬ Throughout LifeStep (fun c => LifeOk c.trace)
          (Conn.new rb lifeCallbacks (answering [])) (hangup ++ [⟨.resume, reading (.data xs)⟩]) := by
  obtain ⟨rb, hnew, hfr⟩ := new_default
  refine ⟨rb, hnew, fun xs hx h => ?_⟩
  obtain ⟨c', hread⟩ := handleRead_fresh
    (c := ({ hungUp rb with env := reading (.data xs), frames := [] } : Conn).push (.dispatch []))
    hfr (by decide) rfl hx
  have hstep : LifeStep (hungUp rb) ⟨.resume, reading (.data xs)⟩ c' :=
    ⟨⟨List.cons_ne_nil _ _, hread⟩, fun _ h => nomatch h⟩
  have hok := h _ _ (List.prefix_refl _) ((run_hangup rb).snoc hstep)
  refine Lives.not_lifeOk_handleRead rfl ?_ ?_ hread hok
  · simp [hungUp, Conn.push]
  · rintro ⟨hset, -⟩
    cases hset

end Netpoll
