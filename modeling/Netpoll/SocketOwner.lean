import Netpoll.Connector
import Netpoll.Ledger

/-!
# The sockets of a connector

Every socket that `connect` opens is to be handed to the new-connection
callback once, or closed once. A connector keeps track of its socket in
two places: the channel of the attempt, and `m_fd` together with
`m_socketHanded`, which says whether the destructor has to close it.

`Account` is what these places and the trace amount to, with the moves
that the functions make on it. `Account.Keeps` says of a move when it
leaves every socket in the books, and `Connector.MayDo` says it of the
steps of a connector: a run that ends with `~Connector` has disposed of
every socket once exactly if all its steps may be done.
-/

namespace Netpoll

/-- The places that hold a socket, and how often each was handed on or closed. -/
@[ext]
structure Account where
  channel : Option Int
  socketHanded : Bool
  fd : Int
  nextFd : Nat
  made : Int → Prop
  uses : Int → Nat

namespace Account

def Owns (A : Account) (f : Int) : Prop :=
  A.channel = some f ∨ A.socketHanded = false ∧ A.fd = f

def ledger (A : Account) : Ledger Int := ⟨A.made, A.Owns, A.uses⟩

/-- `m_fd` is an open socket that the destructor would close. -/
def Held (A : Account) : Prop := A.fd ≠ -1 ∧ A.socketHanded = false ∧ A.uses A.fd = 0

structure Sound (A : Account) : Prop where
  made : ∀ f, A.made f ↔ 0 ≤ f ∧ f < A.nextFd
  fd : A.fd ≠ -1 → A.made A.fd
  channel : ∀ f, A.channel = some f → A.made f ∧ A.uses f = 0
  fresh : ∀ f : Int, A.nextFd ≤ f → A.uses f = 0

theorem Sound.ne_neg_one {A : Account} (h : A.Sound) {f : Int} (hf : A.made f) : f ≠ -1 := by
  have h0 := ((h.made f).mp hf).1
  omega

theorem Sound.ne_of_nextFd_le {A : Account} (h : A.Sound) {f g : Int} (hf : A.made f)
    (hg : A.nextFd ≤ g) : f ≠ g := by
  have hlt := ((h.made f).mp hf).2
  omega

/-- The move from `A` to `B` is one of a ledger, and keeps it balanced exactly if `G`. -/
structure Keeps (A : Account) (G : Prop) (B : Account) : Prop where
  sound : B.Sound
  evolves : A.ledger.Evolves B.ledger
  balanced : A.ledger.Balanced → (B.ledger.Balanced ↔ G)

theorem Keeps.refl {A : Account} (h : A.Sound) : A.Keeps True A where
  sound := h
  evolves := .refl _
  balanced := fun hb => iff_true_intro hb

theorem Keeps.trans {A B C : Account} {G G' : Prop} (h : A.Keeps G B) (h' : B.Keeps G' C) :
    A.Keeps (G ∧ G') C where
  sound := h'.sound
  evolves := h.evolves.trans h'.evolves
  balanced := by
    intro hb
    constructor
    · intro hC
      have hB := h'.evolves.balanced hC
      exact ⟨(h.balanced hb).mp hB, (h'.balanced hB).mp hC⟩
    · rintro ⟨hG, hG'⟩
      exact (h'.balanced ((h.balanced hb).mpr hG)).mpr hG'

theorem Keeps.congr {A B : Account} {G G' : Prop} (h : A.Keeps G B) (hG : G ↔ G') :
    A.Keeps G' B where
  sound := h.sound
  evolves := h.evolves
  balanced := fun hb => (h.balanced hb).trans hG

/-! ## The moves -/

def use (A : Account) (f : Int) : Account :=
  { A with uses := fun g => A.uses g + if f = g then 1 else 0 }

/-- The channel is gone. -/
def remove (A : Account) : Account := { A with channel := none }

/-- `m_socketHanded` is set. -/
def disown (A : Account) : Account := { A with socketHanded := true }

/-- The attempt ends: the socket of the channel is handed on or closed. -/
def finish (A : Account) : Account := (A.disown.remove).use (A.channel.getD (-1))

/-- A new socket. -/
def take (A : Account) : Account :=
  { A with
    socketHanded := false
    fd := A.nextFd
    nextFd := A.nextFd + 1
    made := fun f => A.made f ∨ f = A.nextFd }

/-- A channel for the socket of `m_fd`. -/
def file (A : Account) : Account := { A with channel := some A.fd }

def attempt (A : Account) (retry : Bool) : ConnectCase → Account
  | .connecting => A.take.file
  | .retry => if retry then A.take.use A.nextFd else A.take
  | .error => A.take.disown.use A.nextFd

def destroy (A : Account) : Account :=
  if A.socketHanded = false ∧ A.fd ≠ -1 then A.use A.fd else A

/-- What an event of the trace adds. -/
def note (A : Account) : ConnectorEvent → Account
  | .create f => { A with made := fun g => A.made g ∨ g = f }
  | .close f | .newConnection f => A.use f
  | _ => A

theorem use_self (A : Account) (f : Int) : (A.use f).uses f = A.uses f + 1 := by simp [use]

theorem use_of_ne (A : Account) {f g : Int} (h : g ≠ f) : (A.use f).uses g = A.uses g := by
  simp [use, h.symm]

theorem evolves_use {A : Account} {f : Int} (hf : A.made f → A.Owns f) :
    A.ledger.Evolves (A.use f).ledger where
  made := fun _ h => h
  uses := by
    intro g
    by_cases hg : g = f
    · subst hg
      exact (Nat.le_succ _).trans (A.use_self g).ge
    · exact (A.use_of_ne hg).ge
  used := by
    intro g hmade hne
    have hg : g = f := by
      by_contra hg
      exact hne (A.use_of_ne hg).symm
    exact hg ▸ hf (hg ▸ hmade)
  held := fun _ _ h => h

theorem evolves_remove (A : Account) : A.ledger.Evolves A.remove.ledger where
  made := fun _ h => h
  uses := fun _ => le_rfl
  used := fun _ _ hne => absurd rfl hne
  held := by
    rintro f - (hf | hf)
    · cases hf
    · exact .inr hf

theorem keeps_remove {A : Account} (h : A.Sound) :
    A.Keeps (A.channel = none ∨ A.socketHanded = false ∧ A.channel = some A.fd) A.remove where
  sound := ⟨h.made, h.fd, (fun f hf => by cases hf), h.fresh⟩
  evolves := A.evolves_remove
  balanced := by
    intro hb
    constructor
    · intro hB
      cases hch : A.channel with
      | none => exact .inl rfl
      | some f =>
          obtain ⟨hmade, h0⟩ := h.channel f hch
          rcases hB f hmade with h1 | ⟨-, hf | ⟨hd, hf⟩⟩
          · exact absurd (h0.symm.trans h1) (by decide)
          · cases hf
          · exact .inr ⟨hd, congrArg some hf.symm⟩
    · intro hG f hmade
      rcases hb f hmade with h1 | ⟨h0, hf | hf⟩
      · exact .inl h1
      · rcases hG with hnone | ⟨hd, hsome⟩
        · exact absurd (hf.symm.trans hnone) (by simp)
        · exact .inr ⟨h0, .inr ⟨hd, Option.some.inj (hsome.symm.trans hf)⟩⟩
      · exact .inr ⟨h0, .inr hf⟩

theorem keeps_disown {A : Account} (h : A.Sound) :
    A.Keeps (A.Held → A.channel = some A.fd) A.disown where
  sound := ⟨h.made, h.fd, h.channel, h.fresh⟩
  evolves := by
    refine ⟨fun _ hx => hx, fun _ => le_rfl, fun _ _ hne => absurd rfl hne, ?_⟩
    rintro f - (hf | ⟨hf, -⟩)
    · exact .inl hf
    · cases hf
  balanced := by
    intro hb
    constructor
    · rintro hB ⟨hne, -, h0⟩
      rcases hB A.fd (h.fd hne) with h1 | ⟨-, hf | ⟨hf, -⟩⟩
      · exact absurd (h0.symm.trans h1) (by decide)
      · exact hf
      · cases hf
    · intro hG f hmade
      rcases hb f hmade with h1 | ⟨h0, hf | ⟨hf, rfl⟩⟩
      · exact .inl h1
      · exact .inr ⟨h0, .inl hf⟩
      · exact .inr ⟨h0, .inl (hG ⟨h.ne_neg_one hmade, hf, h0⟩)⟩

theorem keeps_settle {A : Account} (h : A.Sound) (hd : A.socketHanded = true) :
    A.Keeps True (A.remove.use (A.channel.getD (-1))) := by
  cases hch : A.channel with
  | none =>
      -- `close(-1)`: no socket of ours
      have hne : ∀ f, A.made f → (A.remove.use (-1)).uses f = A.uses f := fun f hf =>
        A.remove.use_of_ne (h.ne_neg_one hf)
      refine ⟨⟨h.made, h.fd, (fun f hf => by cases hf), fun f hf => ?_⟩, ?_, fun hb => ?_⟩
      · have hle : (A.nextFd : Int) ≤ f := hf
        have hf1 : f ≠ -1 := by omega
        exact (A.remove.use_of_ne hf1).trans (h.fresh f hf)
      · exact A.evolves_remove.trans (evolves_use fun hf => absurd rfl (h.ne_neg_one hf))
      · refine iff_true_intro fun f hmade => ?_
        rcases hb f hmade with h1 | ⟨-, hf | ⟨hf, -⟩⟩
        · exact .inl ((hne f hmade).trans h1)
        · exact absurd (hch.symm.trans hf) (by simp)
        · exact absurd (hd.symm.trans hf) (by decide)
  | some g =>
      obtain ⟨hg, h0⟩ := h.channel g hch
      refine ⟨⟨h.made, h.fd, (fun f hf => by cases hf), fun f hf => ?_⟩, ?_, fun hb => ?_⟩
      · have hne : f ≠ g := (h.ne_of_nextFd_le hg hf).symm
        exact (A.remove.use_of_ne hne).trans (h.fresh f hf)
      · exact (evolves_use fun _ => .inl hch).trans (A.use g).evolves_remove
      · refine iff_true_intro fun f hmade => .inl ?_
        by_cases hfg : f = g
        · subst hfg
          exact (A.remove.use_self f).trans (congrArg Nat.succ h0)
        · refine (A.remove.use_of_ne hfg).trans ?_
          rcases hb f hmade with h1 | ⟨-, hf | ⟨hf, -⟩⟩
          · exact h1
          · exact absurd (Option.some.inj (hf.symm.trans hch)) hfg
          · exact absurd (hd.symm.trans hf) (by decide)

theorem keeps_finish {A : Account} (h : A.Sound) :
    A.Keeps (A.Held → A.channel = some A.fd) A.finish :=
  have hd := keeps_disown h
  (hd.trans (keeps_settle hd.sound rfl)).congr (and_iff_left trivial)

theorem keeps_use_fd {A : Account} (h : A.Sound) (hne : A.fd ≠ -1) (hd : A.socketHanded = false)
    (hch : A.channel ≠ some A.fd) : A.Keeps (A.uses A.fd = 0) (A.use A.fd) where
  sound := by
    refine ⟨h.made, h.fd, fun f hf => ?_, fun f hf => ?_⟩
    · have hfd : f ≠ A.fd := fun heq => hch (heq ▸ hf)
      exact ⟨(h.channel f hf).1, (A.use_of_ne hfd).trans (h.channel f hf).2⟩
    · have hfd : f ≠ A.fd := (h.ne_of_nextFd_le (h.fd hne) hf).symm
      exact (A.use_of_ne hfd).trans (h.fresh f hf)
  evolves := evolves_use fun _ => .inr ⟨hd, rfl⟩
  balanced := by
    intro hb
    have hself := A.use_self A.fd
    constructor
    · intro hB
      rcases hB A.fd (h.fd hne) with h1 | ⟨h0, -⟩
      · exact Nat.succ.inj (hself.symm.trans h1)
      · exact absurd (hself.symm.trans h0) (by omega)
    · intro h0 f hmade
      by_cases hf : f = A.fd
      · subst hf
        exact .inl (hself.trans (congrArg Nat.succ h0))
      · rcases hb f hmade with h1 | ⟨h0', hown⟩
        · exact .inl ((A.use_of_ne hf).trans h1)
        · exact .inr ⟨(A.use_of_ne hf).trans h0', hown⟩

theorem keeps_take {A : Account} (h : A.Sound) :
    A.Keeps (A.Held → A.channel = some A.fd) A.take where
  sound := by
    refine ⟨fun f => ?_, fun _ => .inr rfl, fun f hf => ?_, fun f hf => ?_⟩
    · have hm := h.made f
      change A.made f ∨ f = A.nextFd ↔ 0 ≤ f ∧ f < (A.nextFd + 1 : Nat)
      push_cast
      rw [hm]
      omega
    · exact ⟨.inl (h.channel f hf).1, (h.channel f hf).2⟩
    · have hle : ((A.nextFd + 1 : Nat) : Int) ≤ f := hf
      exact h.fresh f (by omega)
  evolves := by
    refine ⟨fun _ hx => .inl hx, fun _ => le_rfl, fun _ _ hne => absurd rfl hne, ?_⟩
    rintro f hmade (hf | ⟨-, hf⟩)
    · exact .inl hf
    · exact absurd hf.symm (h.ne_of_nextFd_le hmade le_rfl)
  balanced := by
    intro hb
    constructor
    · rintro hB ⟨hne, -, h0⟩
      rcases hB A.fd (.inl (h.fd hne)) with h1 | ⟨-, hf | ⟨-, hf⟩⟩
      · exact absurd (h0.symm.trans h1) (by decide)
      · exact hf
      · exact absurd hf.symm (h.ne_of_nextFd_le (h.fd hne) le_rfl)
    · rintro hG f (hmade | rfl)
      · rcases hb f hmade with h1 | ⟨h0, hf | ⟨hd, rfl⟩⟩
        · exact .inl h1
        · exact .inr ⟨h0, .inl hf⟩
        · exact .inr ⟨h0, .inl (hG ⟨h.ne_neg_one hmade, hd, h0⟩)⟩
      · exact .inr ⟨h.fresh _ le_rfl, .inr ⟨rfl, rfl⟩⟩

theorem keeps_file {A : Account} (h : A.Sound) (hheld : A.Held) (hch : A.channel ≠ some A.fd) :
    A.Keeps (A.channel = none) A.file := by
  obtain ⟨hne, hd, h0⟩ := hheld
  have hown : ∀ f, A.file.Owns f ↔ A.fd = f := by
    intro f
    constructor
    · rintro (hf | ⟨-, hf⟩)
      · exact Option.some.inj hf
      · exact hf
    · exact fun hf => .inr ⟨hd, hf⟩
  refine ⟨⟨h.made, h.fd, fun f hf => ?_, h.fresh⟩, ?_, fun hb => ⟨fun hB => ?_, fun hnone => ?_⟩⟩
  · obtain rfl : A.fd = f := Option.some.inj hf
    exact ⟨h.fd hne, h0⟩
  · exact ⟨fun _ hx => hx, fun _ => le_rfl, fun _ _ hne => absurd rfl hne,
      fun f _ hf => .inr ⟨hd, (hown f).mp hf⟩⟩
  · cases hg : A.channel with
    | none => rfl
    | some g =>
        obtain ⟨hmade, hg0⟩ := h.channel g hg
        rcases hB g hmade with h1 | ⟨-, hf⟩
        · exact absurd (hg0.symm.trans h1) (by decide)
        · exact absurd (hg.trans (congrArg some ((hown g).mp hf).symm)) hch
  · intro f hmade
    rcases hb f hmade with h1 | ⟨hf0, hf | ⟨-, hf⟩⟩
    · exact .inl h1
    · exact absurd (hnone.symm.trans hf) (by simp)
    · exact .inr ⟨hf0, (hown f).mpr hf⟩

/-- When an attempt loses no socket: the one of the last attempt has been
dealt with or still has its channel, and a channel is not overwritten. -/
theorem keeps_attempt {A : Account} (h : A.Sound) (retry : Bool) (r : ConnectCase) :
    A.Keeps ((A.Held → A.channel = some A.fd) ∧ (r = .connecting → A.channel = none))
      (A.attempt retry r) := by
  have ht := keeps_take h
  have hne : A.take.fd ≠ -1 := by
    change (A.nextFd : Int) ≠ -1
    omega
  have h0 : A.take.uses A.take.fd = 0 := h.fresh _ le_rfl
  have hch : A.take.channel ≠ some A.take.fd := fun hf =>
    h.ne_of_nextFd_le (h.channel _ hf).1 le_rfl rfl
  have hu := keeps_use_fd ht.sound hne rfl hch
  cases r with
  | connecting =>
      exact (ht.trans (keeps_file ht.sound ⟨hne, rfl, h0⟩ hch)).congr (by simp [take])
  | retry =>
      cases retry with
      | true => exact (ht.trans hu).congr (by simp [h0])
      | false => exact ht.congr (by simp)
  | error =>
      have hheld : ¬ (A.take.use A.take.fd).Held := by
        rintro ⟨-, -, h1⟩
        exact absurd ((A.take.use_self _).symm.trans h1) (by omega)
      exact ((ht.trans hu).trans (keeps_disown hu.sound)).congr (by simp [h0, hheld])

theorem keeps_destroy {A : Account} (h : A.Sound) (hch : A.channel = none) :
    A.Keeps (A.socketHanded = false → A.fd ≠ -1 → A.uses A.fd = 0) A.destroy := by
  by_cases hd : A.socketHanded = false ∧ A.fd ≠ -1
  · rw [destroy, if_pos hd]
    exact (keeps_use_fd h hd.2 hd.1 (by simp [hch])).congr (by simp [hd])
  · rw [destroy, if_neg hd]
    exact (Keeps.refl h).congr (iff_of_true trivial fun hs hf => absurd ⟨hs, hf⟩ hd)

end Account

/-! ## The moves of a connector -/

namespace Connector

open Account

/-- How often a socket was handed on or closed. -/
def uses (c : Connector) (f : Int) : Nat :=
  c.trace.count (.newConnection f) + c.trace.count (.close f)

def account (c : Connector) : Account where
  channel := c.channel
  socketHanded := c.socketHanded
  fd := c.fd
  nextFd := c.nextFd
  made := fun f => .create f ∈ c.trace
  uses := c.uses

theorem uses_log (c : Connector) (e : ConnectorEvent) (f : Int) :
    (c.log e).uses f = c.uses f + if e = .newConnection f ∨ e = .close f then 1 else 0 := by
  simp only [uses, log, List.count_append, List.count_singleton, beq_iff_eq]
  by_cases hn : e = .newConnection f
  · subst hn
    simp
    omega
  · by_cases hx : e = .close f
    · subst hx
      simp
      omega
    · simp [hn, hx]

theorem account_log (c : Connector) (e : ConnectorEvent) :
    (c.log e).account = c.account.note e := by
  ext g
  case made => cases e <;> simp [account, log, note, use]
  case uses =>
      change (c.log e).uses g = _
      rw [uses_log]
      cases e <;> simp [account, note, use]
  all_goals cases e <;> rfl

theorem account_close (c : Connector) (f : Int) : (c.close f).account = c.account.use f :=
  c.account_log (.close f)

theorem account_callError (c : Connector) : c.callError.account = c.account := by
  unfold callError
  split
  · exact c.account_log .error
  · rfl

theorem account_removeAndResetChannel (c : Connector) :
    c.removeAndResetChannel.2.account = c.account.remove := by
  cases hch : c.channel with
  | none => simp [removeAndResetChannel, hch, remove, account]
  | some f =>
      simp only [removeAndResetChannel, hch]
      rfl

theorem removeAndResetChannel_fst (c : Connector) :
    c.removeAndResetChannel.1 = c.channel.getD (-1) := by
  cases hch : c.channel with
  | none => simp [removeAndResetChannel, hch]
  | some f => simp [removeAndResetChannel, hch]

theorem account_retry (c : Connector) (f : Int) : (c.retry f).account = c.account.use f := by
  unfold retry
  simp only
  split
  · exact (account_log _ _).trans (c.account_close f)
  · exact c.account_close f

theorem account_failWrite (c : Connector) (f : Int) (hd : c.socketHanded = true) :
    (c.failWrite f).account = c.account.use f := by
  unfold failWrite
  split
  · rw [account_callError, account_retry]
  · have hc : { c with socketHanded := true } = c := by rw [← hd]
    rw [account_callError, account_close, hc]

theorem account_connect (c : Connector) (e : ConnectErrno) :
    (c.connect e).account = c.account.attempt c.mRetry e.case := by
  have ht : ({ c with socketHanded := false, fd := c.nextFd, nextFd := c.nextFd + 1 }.log
      (.create c.nextFd)).account = c.account.take := account_log _ _
  unfold connect
  simp only
  cases e.case with
  | connecting =>
      refine (account_log _ _).trans ?_
      exact congrArg Account.file ht
  | retry =>
      change (if c.mRetry then _ else _ : Connector).account = _
      cases hr : c.mRetry with
      | true => exact (account_retry _ _).trans (congrArg (fun A => A.use c.nextFd) ht)
      | false => exact ht
  | error =>
      refine (account_callError _).trans ((account_close _ _).trans ?_)
      exact congrArg (fun A => A.disown.use c.nextFd) ht

theorem account_startInLoop (c : Connector) (e : ConnectErrno) :
    (c.startInLoop e).account =
      if c.started then c.account.attempt c.mRetry e.case else c.account := by
  have hl := c.account_log (.startInLoop c.started c.status)
  change (if c.started then (c.log _).connect e else c.log _ : Connector).account = _
  split
  · exact (account_connect _ _).trans (congrArg (fun A => A.attempt c.mRetry e.case) hl)
  · exact hl

theorem removeAndResetChannel_disown {c d : Connector} (hd : d.account = c.account.disown) :
    d.removeAndResetChannel.2.account.use d.removeAndResetChannel.1 = c.account.finish := by
  have hch : d.channel = c.channel := congrArg Account.channel hd
  rw [account_removeAndResetChannel, removeAndResetChannel_fst, hd, hch]
  rfl

theorem account_handleWrite (c : Connector) (err selfConnect : Bool) :
    (c.handleWrite err selfConnect).account =
      if c.status = .connecting then c.account.finish else c.account.disown := by
  have hfin := removeAndResetChannel_disown (c := c) (d := { c with socketHanded := true }) rfl
  unfold handleWrite
  simp only
  split
  case isTrue =>
      generalize hrem : removeAndResetChannel _ = p at hfin ⊢
      obtain ⟨f, b⟩ := p
      have hb : b.socketHanded = true := by
        have := congrArg Account.socketHanded hfin
        exact this
      simp only at hfin ⊢
      split
      · exact (b.account_failWrite f hb).trans hfin
      split
      · exact (b.account_failWrite f hb).trans hfin
      split
      · exact (account_log _ _).trans hfin
      · refine (account_close _ _).trans (Eq.trans ?_ hfin)
        exact congrArg (fun h => { b.account.use f with socketHanded := h }) hb.symm
  case isFalse => exact account_log _ _

theorem account_handleError (c : Connector) :
    c.handleError.account =
      if c.status = .connecting then c.account.finish else c.account.disown := by
  have hfin := removeAndResetChannel_disown (c := c)
    (d := { c with socketHanded := true, status := .disconnected }) rfl
  unfold handleError
  simp only
  split
  case isTrue =>
      generalize hrem : removeAndResetChannel _ = p at hfin ⊢
      obtain ⟨f, b⟩ := p
      simp only at hfin ⊢
      refine (account_callError _).trans ?_
      split
      · exact (b.account_retry f).trans hfin
      · exact (b.account_close f).trans hfin
  case isFalse => rfl

theorem account_destroy (c : Connector) : c.destroy.account = c.account.destroy := by
  by_cases hd : c.socketHanded = false ∧ c.fd ≠ -1
  · have h1 : c.destroy = { c.close c.fd with destroyed := true } := by simp [destroy, hd]
    have h2 : c.account.destroy = c.account.use c.fd := if_pos hd
    rw [h1, h2]
    exact c.account_close c.fd
  · have h1 : c.destroy = { c with destroyed := true } := by simp [destroy, hd]
    have h2 : c.account.destroy = c.account := if_neg hd
    rw [h1, h2]
    rfl

/-! ## Which steps lose no socket -/

/-- `m_fd` is an open socket that the destructor would close. -/
def Held (c : Connector) : Prop := c.fd ≠ -1 ∧ c.socketHanded = false ∧ c.uses c.fd = 0

instance (c : Connector) : Decidable c.Held := inferInstanceAs (Decidable (_ ∧ _))

/-- A new attempt: the last socket has been dealt with or still has its
channel, and no channel is overwritten. -/
def MayConnect (c : Connector) (e : ConnectErrno) : Prop :=
  (c.Held → c.channel = some c.fd) ∧ (e.case = .connecting → c.channel = none)

instance (c : Connector) (e : ConnectErrno) : Decidable (c.MayConnect e) :=
  inferInstanceAs (Decidable (_ ∧ _))

/-- The channel goes: the destructor will close its socket. -/
def MayRemove (c : Connector) : Prop :=
  c.channel = none ∨ c.socketHanded = false ∧ c.channel = some c.fd

instance (c : Connector) : Decidable c.MayRemove := inferInstanceAs (Decidable (_ ∨ _))

def MayDo (c : Connector) : ConnectorAct → Prop
  | .start inLoop e => inLoop → c.MayConnect e
  | .stop inLoop => inLoop → c.MayRemove
  | .restart inLoop _ => inLoop → c.channel = none ∧ ¬ c.Held
  | .task e =>
      (c.queue.head? = some .startInLoop → c.started → c.MayConnect e) ∧
      (c.queue.head? = some .removeAndResetChannel → c.MayRemove)
  | .timer _ e => c.started → c.MayConnect e
  | .event _ => True
  | .handler _ _ => c.dispatch.head? ≠ some .read → c.Held → c.channel = some c.fd
  | .destroy => c.socketHanded = false → c.fd ≠ -1 → c.uses c.fd = 0

instance (c : Connector) (a : ConnectorAct) : Decidable (c.MayDo a) := by
  cases a <;> simp only [MayDo] <;> infer_instance

theorem keeps_startInLoop (c : Connector) (h : c.account.Sound) (e : ConnectErrno) :
    c.account.Keeps (c.started → c.MayConnect e) (c.startInLoop e).account := by
  rw [account_startInLoop]
  split
  case isTrue hs => exact (keeps_attempt h c.mRetry e.case).congr (by simp [hs]; rfl)
  case isFalse hs => exact (Keeps.refl h).congr (by simp [hs])

theorem keeps_removeAndResetChannel (c : Connector) (h : c.account.Sound) :
    c.account.Keeps c.MayRemove c.removeAndResetChannel.2.account :=
  c.account_removeAndResetChannel ▸ keeps_remove h

theorem keeps_start (c : Connector) (h : c.account.Sound) (inLoop : Bool) (e : ConnectErrno) :
    c.account.Keeps (inLoop → c.MayConnect e) (c.start inLoop e).account := by
  cases inLoop with
  | true =>
      have hk := keeps_startInLoop { c with started := true } h e
      exact hk.congr (by simp; rfl)
  | false => exact (Keeps.refl h).congr (by simp)

theorem keeps_stop (c : Connector) (h : c.account.Sound) (inLoop : Bool) :
    c.account.Keeps (inLoop → c.MayRemove) (c.stop inLoop).account := by
  cases inLoop with
  | true =>
      have hk := keeps_removeAndResetChannel
        { c with started := false, status := .disconnected } h
      exact hk.congr (by simp; rfl)
  | false => exact (Keeps.refl h).congr (by simp)

theorem keeps_restart (c : Connector) (h : c.account.Sound) (inLoop : Bool) (e : ConnectErrno) :
    c.account.Keeps (inLoop → c.channel = none ∧ ¬ c.Held) (c.restart inLoop e).account := by
  have hs := keeps_stop c h inLoop
  have hr := hs.trans (keeps_start _ hs.sound inLoop e)
  cases inLoop with
  | false => exact hr.congr (by simp)
  | true =>
      have hda : (c.stop true).account = c.account.remove := account_removeAndResetChannel _
      have hch : (c.stop true).channel = none := congrArg Account.channel hda
      have hheld : (c.stop true).Held ↔ c.Held := by
        change (c.stop true).account.Held ↔ _
        rw [hda]
        rfl
      refine hr.congr ?_
      simp only [MayConnect, hch, hheld, forall_const, reduceCtorEq, imp_false, implies_true,
        and_true]
      constructor
      · rintro ⟨hnone | ⟨hd, hsome⟩, hn⟩
        · exact ⟨hnone, hn⟩
        · obtain ⟨hmade, h0⟩ := h.channel _ hsome
          exact absurd ⟨h.ne_neg_one hmade, hd, h0⟩ hn
      · rintro ⟨hnone, hn⟩
        exact ⟨.inl hnone, hn⟩

theorem keeps_handle (c : Connector) (h : c.account.Sound) (err selfConnect : Bool) (x : Handler) :
    c.account.Keeps (x ≠ .read → c.Held → c.channel = some c.fd)
      (c.handle err selfConnect x).account := by
  have hk : c.account.Keeps (c.Held → c.channel = some c.fd)
      (if c.status = .connecting then c.account.finish else c.account.disown) := by
    split
    · exact keeps_finish h
    · exact keeps_disown h
  cases x with
  | read => exact (Keeps.refl h).congr (by simp)
  | write => exact (c.account_handleWrite err selfConnect ▸ hk).congr (by simp)
  | close => exact (c.account_handleError ▸ hk).congr (by simp)
  | error => exact (c.account_handleError ▸ hk).congr (by simp)

theorem keeps_step {c c' : Connector} {a : ConnectorAct} (h : c.account.Sound)
    (hstep : ConnectorStep c a c') : c.account.Keeps (c.MayDo a) c'.account := by
  cases hstep.move with
  | start inLoop e => exact c.keeps_start h inLoop e
  | stop inLoop => exact c.keeps_stop h inLoop
  | restart inLoop e => exact c.keeps_restart h inLoop e
  | @task e t rest hq =>
      cases t with
      | startInLoop =>
          exact (keeps_startInLoop { c with queue := rest } h e).congr (by simp [MayDo, hq]; rfl)
      | removeAndResetChannel =>
          exact (keeps_removeAndResetChannel { c with queue := rest } h).congr
            (by simp [MayDo, hq]; rfl)
      | keepChannel => exact (Keeps.refl h).congr (by simp [MayDo, hq])
  | @timer e i hi => exact keeps_startInLoop { c with timers := c.timers.eraseIdx i } h e
  | event revents => exact Keeps.refl h
  | @handler err selfConnect x rest hd =>
      exact (keeps_handle { c with dispatch := rest } h err selfConnect x).congr
        (by simp [MayDo, hd]; rfl)
  | destroy hch => exact c.account_destroy ▸ keeps_destroy h hch

/-! ## Every socket, once -/

/-- Handed on once and not closed, or closed once. -/
def Settled (c : Connector) (f : Int) : Prop :=
  c.trace.count (.newConnection f) = 1 ∧ c.trace.count (.close f) = 0 ∨
  c.trace.count (.newConnection f) = 0 ∧ c.trace.count (.close f) = 1

theorem settled_iff_uses (c : Connector) (f : Int) : c.Settled f ↔ c.uses f = 1 := by
  unfold Settled uses
  omega

theorem account_new_sound (retry errorCallback : Bool) :
    (new retry errorCallback).account.Sound where
  made := by
    intro f
    change ConnectorEvent.create f ∈ [] ↔ 0 ≤ f ∧ f < ((0 : Nat) : Int)
    simp
  fd := fun h => absurd rfl h
  channel := fun f hf => by cases hf
  fresh := fun _ _ => rfl

theorem balanced_destroy {c c' : Connector} (h : c.account.Sound)
    (hstep : ConnectorStep c .destroy c') :
    c'.account.ledger.Balanced ↔ ∀ f, .create f ∈ c'.trace → c'.Settled f := by
  obtain ⟨hch, rfl⟩ : c.channel = none ∧ c.destroy = c' := by
    cases hstep.move with
    | destroy hch => exact ⟨hch, rfl⟩
  have hsound := (keeps_step h hstep).sound
  simp only [settled_iff_uses]
  refine Ledger.balanced_iff_of_not_held fun f hmade h0 hown => ?_
  have hne := hsound.ne_neg_one hmade
  have hacc := c.account_destroy
  change c.destroy.account.uses f = 0 at h0
  change c.destroy.account.Owns f at hown
  rw [hacc] at h0 hown
  unfold Account.destroy at h0 hown
  split at hown
  case isTrue hd =>
      rw [if_pos hd] at h0
      rcases hown with hf | ⟨-, rfl⟩
      · exact absurd (hch.symm.trans hf) (by simp)
      · exact absurd ((use_self _ _).symm.trans h0) (by omega)
  case isFalse hd =>
      rcases hown with hf | ⟨hf, rfl⟩
      · exact absurd (hch.symm.trans hf) (by simp)
      · exact hd ⟨hf, hne⟩

theorem sound_of_run {retry errorCallback : Bool} {as : List ConnectorAct} {c : Connector}
    (hrun : Run ConnectorStep (new retry errorCallback) as c) : c.account.Sound :=
  hrun.invariant (I := fun c => c.account.Sound) (fun _ _ _ hs ht => (keeps_step hs ht).sound)
    (account_new_sound retry errorCallback)

/-- A connector that is destroyed has disposed of every socket that it
opened exactly once, if and only if no step of its run loses one. -/
theorem settled_iff_mayDo {retry errorCallback : Bool} {as : List ConnectorAct} {c : Connector}
    (hrun : Run ConnectorStep (new retry errorCallback) (as ++ [.destroy]) c) :
    (∀ f, .create f ∈ c.trace → c.Settled f) ↔
      EveryStep ConnectorStep MayDo (new retry errorCallback) (as ++ [.destroy]) := by
  obtain ⟨b, hbrun, hb⟩ := hrun.snoc_inv
  rw [← balanced_destroy (sound_of_run hbrun) hb]
  refine hrun.balanced_iff (L := fun c => c.account.ledger) (I := fun c => c.account.Sound)
    ?_ ?_ ?_ (account_new_sound retry errorCallback) ?_
  · exact fun s l t u ht hu => Option.some.inj (ht.symm.trans hu)
  · exact fun s l t hs ht => ⟨(keeps_step hs ht).sound, (keeps_step hs ht).evolves⟩
  · exact fun s l t hs hbal ht => (keeps_step hs ht).balanced hbal
  · intro f hf
    cases hf

theorem settled_iff_mayDo_success :
    ∃ c, Run ConnectorStep (new false true)
        ([.start true .inProgress, .event POLLOUT, .handler false false] ++ [.destroy]) c ∧
      ∀ f, .create f ∈ c.trace → c.Settled f :=
  have hrun := Run.of_foldlM (f := exec) rfl
  ⟨_, hrun, (settled_iff_mayDo hrun).mpr (everyStep_of_stepsMeet (by decide))⟩

/-- `stop` during an attempt and a second `start` lose the first socket;
after an error that `connect` has retried, the destructor closes the
socket again. -/
theorem not_settled_stop :
    (∃ c, Run ConnectorStep (new false true)
        ([.start true .inProgress, .stop true, .start true .inProgress, .event POLLOUT,
          .handler false false] ++ [.destroy]) c ∧
      .create 0 ∈ c.trace ∧
      c.trace.count (.newConnection 0) = 0 ∧ c.trace.count (.close 0) = 0) ∧
    ∃ c, Run ConnectorStep (new true true)
        ([.start true .connRefused, .stop true, .timer 0 .none] ++ [.destroy]) c ∧
      .create 0 ∈ c.trace ∧ c.trace.count (.close 0) = 2 :=
  ⟨⟨_, .of_foldlM (f := exec) rfl, by decide, by decide, by decide⟩,
    ⟨_, .of_foldlM (f := exec) rfl, by decide, by decide⟩⟩

end Connector

end Netpoll
