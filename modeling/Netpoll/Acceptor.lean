import Mathlib.Data.List.Perm.Basic
import Netpoll.FileTable
import Netpoll.Runs

/-!
# `Acceptor`

The acceptor of a server takes the connections that the kernel has ready
(`net/inner/acceptor.{h,cc}`). When the process has run out of descriptors
it cannot take one, and as long as it does not, the loop is woken for it
again and again. So it keeps a spare descriptor, of `/dev/null`: with
`EMFILE` it closes the spare, accepts into the free place, closes that too,
and opens the spare again.

The table of descriptors belongs to the process. Between any two of these
calls other threads may open and close descriptors of theirs; a call of the
kernel may also fail for want of files in the system (`ENFILE`).

Whatever they do, every connection has one fate and the acceptor closes
nothing but its own (`books_balance`). The spare is a different matter: it
is kept, and every call gets rid of a connection, exactly if nobody takes
the place while it is free and the system has a file for it then
(`spare_kept_iff`). Once it is lost with a full table, nothing is taken
until somebody else closes a descriptor (`stuck_until_close`).
-/

namespace Netpoll

open FileTable

/-! ## The code -/

/-- Who has to close a descriptor. -/
inductive Holder (P : Type*)
  /-- The acceptor, which has opened `/dev/null`. -/
  | idle
  | listening
  /-- The acceptor, from `accept` to what it does with the connection. -/
  | accepted (peer : P)
  /-- The rest of the process, connections of the server included. -/
  | rest
  deriving DecidableEq

inductive AcceptErrno
  | EAGAIN
  | EMFILE
  | ENFILE
  deriving DecidableEq

/-- Where the loop thread stands in `handleRead`. -/
inductive AcceptStage (P : Type*)
  | idle
  | accepted (newsock : Nat) (peer : P)
  /-- `accept` has failed with `EMFILE`. -/
  | outOfFds
  | closedIdle
  /-- `m_idleFd` is what the second `accept` has returned, for this peer. -/
  | refusing (peer : Option P)
  | closedPeer
  | destroyed
  deriving DecidableEq

/-- The acceptor in its process. The fields from `arrived` on are history:
the connections that have come, that were given to the callback, closed, or
given up by the peer; what other threads have opened and closed since the
last `EMFILE`; how often the second `accept` had no descriptor; and how
often a descriptor of somebody else was closed. -/
structure Acceptor (P : Type*) where
  /-- `m_newConnectionCallback` is set. -/
  callback : Bool
  table : FileTable (Holder P)
  sock : Nat
  /-- `none` is −1. -/
  idleFd : Option Nat
  stage : AcceptStage P
  backlog : List P
  arrived : List P
  handed : List P
  refused : List P
  aborted : List P
  opened : Nat
  closed : Nat
  futile : Nat
  foreign : Nat
  deriving DecidableEq

inductive AcceptAct (P : Type*)
  /-- The kernel completes a connection. -/
  | arrive (peer : P)
  /-- A peer resets a connection that was not accepted yet. -/
  | abort (peer : P)
  | otherOpen
  | otherClose (fd : Nat)
  /-- The first `accept`, and whether the system is out of files. -/
  | accept (enfile : Bool)
  | newConnection
  | closeIdle
  | acceptAgain (enfile : Bool)
  | closePeer
  | reopen (enfile : Bool)
  | destroy
  deriving DecidableEq

namespace Acceptor

variable {P : Type*}

/-- `::open("/dev/null")`. -/
def openIdle (table : FileTable (Holder P)) (enfile : Bool) :
    Option Nat × FileTable (Holder P) :=
  match if enfile then none else table.install .idle with
  | some (fd, table) => (some fd, table)
  | none => (none, table)

/-- The constructor; without a socket the process ends. -/
def new (callback : Bool) (table : FileTable (Holder P)) (enfile : Bool) : Option (Acceptor P) :=
  let (idleFd, table) := openIdle table enfile
  match table.install .listening with
  | some (sock, table) => some {
      callback, table, sock, idleFd, stage := .idle, backlog := [], arrived := [], handed := []
      refused := [], aborted := [], opened := 0, closed := 0, futile := 0, foreign := 0 }
  | none => none

/-- `Socket::accept`. The descriptor is looked for first. -/
def sockAccept (s : Acceptor P) (enfile : Bool) : Except AcceptErrno (Nat × P × Acceptor P) :=
  if s.table.free = 0 then .error .EMFILE
  else if enfile then .error .ENFILE
  else
    match s.backlog with
    | [] => .error .EAGAIN
    | peer :: backlog =>
      match s.table.install (.accepted peer) with
      | none => .error .EMFILE
      | some (fd, table) => .ok (fd, peer, { s with table, backlog })

variable [DecidableEq P]

/-- `::close`; closing −1 does nothing. -/
def closeFd (s : Acceptor P) : Option Nat → Acceptor P
  | none => s
  | some fd =>
    { s with
      table := s.table.close fd
      foreign := if s.table.file fd = some .rest then s.foreign + 1 else s.foreign }

def exec (s : Acceptor P) : AcceptAct P → Option (Acceptor P)
  | .arrive p =>
    if s.stage = .destroyed then none
    else some { s with backlog := s.backlog ++ [p], arrived := s.arrived ++ [p] }
  | .abort p =>
    if p ∈ s.backlog then some { s with backlog := s.backlog.erase p, aborted := s.aborted ++ [p] }
    else none
  | .otherOpen =>
    match s.table.install .rest with
    | some (_, table) => some { s with table, opened := s.opened + 1 }
    | none => none
  | .otherClose fd =>
    if s.table.file fd = some .rest then
      some { s with table := s.table.close fd, closed := s.closed + 1 }
    else none
  | .accept enfile =>
    match s.stage with
    | .idle =>
      match s.sockAccept enfile with
      | .ok (newsock, peer, s) => some { s with stage := .accepted newsock peer }
      | .error .EMFILE => some { s with stage := .outOfFds, opened := 0, closed := 0 }
      | .error _ => some s
    | _ => none
  | .newConnection =>
    match s.stage with
    | .accepted newsock peer =>
      if s.callback then
        some { s with
          table := s.table.give newsock .rest, handed := s.handed ++ [peer], stage := .idle }
      else some { s.closeFd (some newsock) with refused := s.refused ++ [peer], stage := .idle }
    | _ => none
  | .closeIdle =>
    match s.stage with
    | .outOfFds => some { s.closeFd s.idleFd with stage := .closedIdle }
    | _ => none
  | .acceptAgain enfile =>
    match s.stage with
    | .closedIdle =>
      match s.sockAccept enfile with
      | .ok (fd, peer, s) => some { s with idleFd := some fd, stage := .refusing (some peer) }
      | .error e =>
        some { s with
          idleFd := none, stage := .refusing none
          futile := if e = .EAGAIN then s.futile else s.futile + 1 }
    | _ => none
  | .closePeer =>
    match s.stage with
    | .refusing peer =>
      some { s.closeFd s.idleFd with refused := s.refused ++ peer.toList, stage := .closedPeer }
    | _ => none
  | .reopen enfile =>
    match s.stage with
    | .closedPeer =>
      let (idleFd, table) := openIdle s.table enfile
      some { s with idleFd, table, stage := .idle }
    | _ => none
  | .destroy =>
    match s.stage with
    | .idle => some { (s.closeFd s.idleFd).closeFd (some s.sock) with stage := .destroyed }
    | _ => none

end Acceptor

def AcceptStep {P : Type*} [DecidableEq P] (s : Acceptor P) (a : AcceptAct P) (t : Acceptor P) :
    Prop :=
  s.exec a = some t

namespace Acceptor

variable {P : Type*}

/-! ## The books -/

/-- What the acceptor has to close. -/
def own (s : Acceptor P) : List (Nat × Holder P) :=
  match s.stage with
  | .idle | .outOfFds => s.idleFd.toList.map (·, .idle) ++ [(s.sock, .listening)]
  | .accepted newsock peer =>
    (newsock, .accepted peer) :: (s.idleFd.toList.map (·, .idle) ++ [(s.sock, .listening)])
  | .closedIdle | .refusing none | .closedPeer => [(s.sock, .listening)]
  | .refusing (some peer) =>
    s.idleFd.toList.map (·, .accepted peer) ++ [(s.sock, .listening)]
  | .destroyed => []

/-- The connection that was accepted last, until it has its fate. -/
def inHand (s : Acceptor P) : List P :=
  match s.stage with
  | .accepted _ peer => [peer]
  | .refusing peer => peer.toList
  | _ => []

/-- No descriptor is lost and none of somebody else is closed; every
connection is waiting, in hand, handed on, closed or given up by its peer,
and only one of these. -/
structure Books (s : Acceptor P) : Prop where
  own : Lists (· ≠ .rest) s.table s.own
  foreign : s.foreign = 0
  fates : s.arrived.Perm (s.backlog ++ s.inHand ++ s.handed ++ s.refused ++ s.aborted)
  failed : s.stage = .refusing none → s.idleFd = none

/-! ## What a step does -/

variable {s t : Acceptor P} {a : AcceptAct P} {enfile : Bool}

theorem sockAccept_ok {fd : Nat} {peer : P} (h : s.sockAccept enfile = .ok (fd, peer, t)) :
    enfile = false ∧ ∃ table backlog, s.backlog = peer :: backlog ∧
      s.table.install (.accepted peer) = some (fd, table) ∧ t = { s with table, backlog } := by
  unfold sockAccept at h
  split at h
  · cases h
  split at h
  · cases h
  next hen =>
      split at h
      · cases h
      next q backlog hq =>
          split at h
          · cases h
          next fd' table hin =>
              cases h
              exact ⟨Bool.eq_false_iff.mpr hen, table, backlog, hq, hin, rfl⟩

/-- Why `accept` fails. -/
inductive Failure (s : Acceptor P) (enfile : Bool) : AcceptErrno → Prop
  | EMFILE : s.table.free = 0 → Failure s enfile .EMFILE
  | ENFILE : s.table.free ≠ 0 → enfile = true → Failure s enfile .ENFILE
  | EAGAIN : s.table.free ≠ 0 → enfile = false → s.backlog = [] → Failure s enfile .EAGAIN

theorem failure_of_sockAccept {e : AcceptErrno} (h : s.sockAccept enfile = .error e) :
    s.Failure enfile e := by
  unfold sockAccept at h
  split at h
  next hfree =>
      cases h
      exact .EMFILE hfree
  next hfree =>
      split at h
      next hen =>
          cases h
          exact .ENFILE hfree hen
      next hen =>
          split at h
          next hq =>
              cases h
              exact .EAGAIN hfree (Bool.eq_false_iff.mpr hen) hq
          next q backlog hq =>
              split at h
              next hin => exact absurd (install_eq_none.mp hin) hfree
              · cases h

variable [DecidableEq P]

/-- The steps, with what each of them needs. -/
inductive Effect (s : Acceptor P) : AcceptAct P → Acceptor P → Prop
  | arrive {p : P} : s.stage ≠ .destroyed →
      Effect s (.arrive p) { s with backlog := s.backlog ++ [p], arrived := s.arrived ++ [p] }
  | abort {p : P} : p ∈ s.backlog →
      Effect s (.abort p) { s with backlog := s.backlog.erase p, aborted := s.aborted ++ [p] }
  | otherOpen {fd : Nat} {table : FileTable (Holder P)} :
      s.table.install .rest = some (fd, table) →
      Effect s .otherOpen { s with table, opened := s.opened + 1 }
  | otherClose {fd : Nat} : s.table.file fd = some .rest →
      Effect s (.otherClose fd) { s with table := s.table.close fd, closed := s.closed + 1 }
  | accept {fd : Nat} {p : P} {table : FileTable (Holder P)} {backlog : List P} :
      s.stage = .idle → s.backlog = p :: backlog →
      s.table.install (.accepted p) = some (fd, table) →
      Effect s (.accept false) { s with table, backlog, stage := .accepted fd p }
  | emfile {enfile : Bool} : s.stage = .idle → s.table.free = 0 →
      Effect s (.accept enfile) { s with stage := .outOfFds, opened := 0, closed := 0 }
  | nothing {enfile : Bool} : s.stage = .idle → s.table.free ≠ 0 → Effect s (.accept enfile) s
  | hand {fd : Nat} {p : P} : s.stage = .accepted fd p → s.callback = true →
      Effect s .newConnection { s with
        table := s.table.give fd .rest, handed := s.handed ++ [p], stage := .idle }
  | drop {fd : Nat} {p : P} : s.stage = .accepted fd p → s.callback = false →
      Effect s .newConnection
        { s.closeFd (some fd) with refused := s.refused ++ [p], stage := .idle }
  | closeIdle : s.stage = .outOfFds →
      Effect s .closeIdle { s.closeFd s.idleFd with stage := .closedIdle }
  | acceptAgain {fd : Nat} {p : P} {table : FileTable (Holder P)} {backlog : List P} :
      s.stage = .closedIdle → s.backlog = p :: backlog →
      s.table.install (.accepted p) = some (fd, table) →
      Effect s (.acceptAgain false)
        { s with table, backlog, idleFd := some fd, stage := .refusing (some p) }
  | failAgain {enfile : Bool} {e : AcceptErrno} : s.stage = .closedIdle → s.Failure enfile e →
      Effect s (.acceptAgain enfile) { s with
        idleFd := none, stage := .refusing none
        futile := if e = .EAGAIN then s.futile else s.futile + 1 }
  | closePeer {peer : Option P} : s.stage = .refusing peer →
      Effect s .closePeer
        { s.closeFd s.idleFd with refused := s.refused ++ peer.toList, stage := .closedPeer }
  | reopen {fd : Nat} {table : FileTable (Holder P)} : s.stage = .closedPeer →
      s.table.install .idle = some (fd, table) →
      Effect s (.reopen false) { s with table, idleFd := some fd, stage := .idle }
  | lose {enfile : Bool} : s.stage = .closedPeer → (enfile = true ∨ s.table.free = 0) →
      Effect s (.reopen enfile) { s with idleFd := none, stage := .idle }
  | destroy : s.stage = .idle →
      Effect s .destroy { (s.closeFd s.idleFd).closeFd (some s.sock) with stage := .destroyed }

theorem effect_of_exec (h : AcceptStep s a t) : s.Effect a t := by
  unfold AcceptStep exec at h
  cases a with
  | arrive p =>
      simp only [Option.ite_none_left_eq_some, Option.some.injEq] at h
      obtain ⟨hst, rfl⟩ := h
      exact .arrive hst
  | abort p =>
      simp only [Option.ite_none_right_eq_some, Option.some.injEq] at h
      obtain ⟨hp, rfl⟩ := h
      exact .abort hp
  | otherOpen =>
      simp only at h
      split at h
      next fd table hin =>
          cases h
          exact .otherOpen hin
      · cases h
  | otherClose fd =>
      simp only [Option.ite_none_right_eq_some, Option.some.injEq] at h
      obtain ⟨hfd, rfl⟩ := h
      exact .otherClose hfd
  | accept enfile =>
      simp only at h
      split at h
      next hst =>
          split at h
          next fd p u hok =>
              cases h
              obtain ⟨rfl, table, backlog, hq, hin, rfl⟩ := sockAccept_ok hok
              exact .accept hst hq hin
          next herr =>
              cases h
              cases failure_of_sockAccept herr with
              | EMFILE hfree => exact .emfile hst hfree
          next e hne herr =>
              cases h
              cases failure_of_sockAccept herr with
              | EMFILE => exact absurd rfl hne
              | ENFILE hfree _ => exact .nothing hst hfree
              | EAGAIN hfree _ _ => exact .nothing hst hfree
      · cases h
  | newConnection =>
      simp only at h
      split at h
      next fd p hst =>
          split at h
          next hcb =>
              cases h
              exact .hand hst hcb
          next hcb =>
              cases h
              exact .drop hst (Bool.eq_false_iff.mpr hcb)
      · cases h
  | closeIdle =>
      simp only at h
      split at h
      next hst =>
          cases h
          exact .closeIdle hst
      · cases h
  | acceptAgain enfile =>
      simp only at h
      split at h
      next hst =>
          split at h
          next fd p u hok =>
              cases h
              obtain ⟨rfl, table, backlog, hq, hin, rfl⟩ := sockAccept_ok hok
              exact .acceptAgain hst hq hin
          next e herr =>
              cases h
              exact .failAgain hst (failure_of_sockAccept herr)
      · cases h
  | closePeer =>
      simp only at h
      split at h
      next peer hst =>
          cases h
          exact .closePeer hst
      · cases h
  | reopen enfile =>
      simp only at h
      split at h
      next hst =>
          cases h
          cases enfile with
          | true => exact .lose hst (Or.inl rfl)
          | false =>
              cases hin : s.table.install .idle with
              | none =>
                  simp only [openIdle, hin]
                  exact .lose hst (Or.inr (install_eq_none.mp hin))
              | some r =>
                  simp only [openIdle, hin]
                  exact .reopen hst hin
      · cases h
  | destroy =>
      simp only at h
      split at h
      next hst =>
          cases h
          exact .destroy hst
      · cases h

/-! ## Every connection has one fate -/

section closing

variable {fd : Nat} {f : Holder P} {rest : List (Nat × Holder P)}

theorem closeFd_own (h : Lists (· ≠ .rest) s.table ((fd, f) :: rest)) :
    Lists (· ≠ .rest) (s.closeFd (some fd)).table rest ∧
      (s.closeFd (some fd)).foreign = s.foreign := by
  have hfile := (h.mem fd f).mp List.mem_cons_self
  refine ⟨h.close, if_neg fun hrest => ?_⟩
  exact hfile.2 (Option.some.inj (hfile.1.symm.trans hrest))

theorem closeFd_toList {fd : Option Nat}
    (h : Lists (· ≠ .rest) s.table (fd.toList.map (·, f) ++ rest)) :
    Lists (· ≠ .rest) (s.closeFd fd).table rest ∧ (s.closeFd fd).foreign = s.foreign := by
  cases fd with
  | none => exact ⟨h, rfl⟩
  | some fd => exact closeFd_own h

end closing

@[simp] theorem closeFd_fields (s : Acceptor P) (fd : Option Nat) :
    (s.closeFd fd).sock = s.sock ∧ (s.closeFd fd).idleFd = s.idleFd ∧
      (s.closeFd fd).backlog = s.backlog ∧ (s.closeFd fd).arrived = s.arrived ∧
      (s.closeFd fd).handed = s.handed ∧ (s.closeFd fd).refused = s.refused ∧
      (s.closeFd fd).aborted = s.aborted ∧ (s.closeFd fd).opened = s.opened ∧
      (s.closeFd fd).closed = s.closed ∧ (s.closeFd fd).futile = s.futile := by
  cases fd <;> exact ⟨rfl, rfl, rfl, rfl, rfl, rfl, rfl, rfl, rfl, rfl⟩

theorem fates_iff : s.arrived.Perm (s.backlog ++ s.inHand ++ s.handed ++ s.refused ++ s.aborted) ↔
    ∀ q, s.arrived.count q = s.backlog.count q + s.inHand.count q + s.handed.count q +
      s.refused.count q + s.aborted.count q := by
  simp only [List.perm_iff_count, List.count_append]

theorem Books.step (h : s.Books) (hs : AcceptStep s a t) : t.Books := by
  obtain ⟨hown, hfor, hfates, hfail⟩ := h
  rw [fates_iff] at hfates
  cases effect_of_exec hs with
  | arrive hst =>
      refine ⟨hown, hfor, fates_iff.mpr fun q => ?_, hfail⟩
      have hq := hfates q
      simp only [List.count_append, inHand] at hq ⊢
      omega
  | @abort p hp =>
      refine ⟨hown, hfor, fates_iff.mpr fun q => ?_, hfail⟩
      have hq := hfates q
      have herase := (List.perm_cons_erase hp).count_eq q
      rw [List.count_cons] at herase
      simp only [List.count_append, List.count_singleton, inHand] at hq ⊢
      omega
  | otherOpen hin =>
      exact ⟨hown.install_other hin (by simp), hfor, fates_iff.mpr hfates, hfail⟩
  | otherClose hfd =>
      exact ⟨hown.close_other hfd (by simp), hfor, fates_iff.mpr hfates, hfail⟩
  | accept hst hq hin =>
      simp only [Acceptor.own, inHand, hst, hq] at hown hfates
      refine ⟨hown.install hin (by simp), hfor, fates_iff.mpr fun q => ?_, by simp⟩
      have hq := hfates q
      simp only [List.count_cons, List.count_nil, inHand] at hq ⊢
      omega
  | emfile hst hfree =>
      simp only [Acceptor.own, inHand, hst] at hown hfates
      exact ⟨hown, hfor, fates_iff.mpr hfates, by simp⟩
  | nothing => exact ⟨hown, hfor, fates_iff.mpr hfates, hfail⟩
  | hand hst hcb =>
      simp only [Acceptor.own, inHand, hst] at hown hfates
      refine ⟨hown.give (by simp), hfor, fates_iff.mpr fun q => ?_, by simp⟩
      have hq := hfates q
      simp only [List.count_append, List.count_nil, inHand] at hq ⊢
      omega
  | drop hst hcb =>
      simp only [Acceptor.own, inHand, hst] at hown hfates
      obtain ⟨hown', hfor'⟩ := closeFd_own hown
      refine ⟨hown', hfor'.trans hfor, fates_iff.mpr fun q => ?_, by simp⟩
      have hq := hfates q
      simp only [closeFd_fields, List.count_append, List.count_nil, inHand] at hq ⊢
      omega
  | closeIdle hst =>
      simp only [Acceptor.own, inHand, hst] at hown hfates
      obtain ⟨hown', hfor'⟩ := closeFd_toList hown
      refine ⟨by simpa only [Acceptor.own, closeFd_fields] using hown', hfor'.trans hfor, ?_,
        by simp⟩
      exact fates_iff.mpr fun q => by simpa only [closeFd_fields, inHand] using hfates q
  | acceptAgain hst hq hin =>
      simp only [Acceptor.own, inHand, hst, hq] at hown hfates
      refine ⟨hown.install hin (by simp), hfor, fates_iff.mpr fun q => ?_, by simp⟩
      have hq := hfates q
      simp only [List.count_cons, List.count_nil, inHand, Option.toList] at hq ⊢
      omega
  | failAgain hst hf =>
      simp only [Acceptor.own, inHand, hst] at hown hfates
      exact ⟨hown, hfor, fates_iff.mpr hfates, fun _ => rfl⟩
  | @closePeer peer hst =>
      have hown' : Lists (· ≠ .rest) (s.closeFd s.idleFd).table [(s.sock, .listening)] ∧
          (s.closeFd s.idleFd).foreign = s.foreign := by
        cases peer with
        | none =>
            simp only [Acceptor.own, hst] at hown
            rw [hfail hst]
            exact ⟨hown, rfl⟩
        | some p =>
            simp only [Acceptor.own, hst] at hown
            exact closeFd_toList hown
      refine ⟨by simpa only [Acceptor.own, closeFd_fields] using hown'.1, hown'.2.trans hfor, ?_,
        by simp⟩
      refine fates_iff.mpr fun q => ?_
      have hq := hfates q
      simp only [closeFd_fields, List.count_append, List.count_nil, inHand, hst] at hq ⊢
      omega
  | reopen hst hin =>
      simp only [Acceptor.own, inHand, hst] at hown hfates
      exact ⟨hown.install hin (by simp), hfor, fates_iff.mpr hfates, by simp⟩
  | lose hst hl =>
      simp only [Acceptor.own, inHand, hst] at hown hfates
      exact ⟨hown, hfor, fates_iff.mpr hfates, by simp⟩
  | destroy hst =>
      simp only [Acceptor.own, inHand, hst] at hown hfates
      obtain ⟨hown', hfor'⟩ := closeFd_toList hown
      obtain ⟨hown'', hfor''⟩ := closeFd_own hown'
      refine ⟨hown'', hfor''.trans (hfor'.trans hfor), ?_, by simp⟩
      exact fates_iff.mpr fun q => by simpa only [closeFd_fields, inHand] using hfates q

omit [DecidableEq P] in
theorem openIdle_lists {table table' : FileTable (Holder P)} {idleFd : Option Nat}
    {rest : List (Nat × Holder P)} (h : Lists (· ≠ .rest) table rest)
    (hopen : openIdle table enfile = (idleFd, table')) :
    Lists (· ≠ .rest) table' (idleFd.toList.map (·, .idle) ++ rest) := by
  unfold openIdle at hopen
  split at hopen
  next fd table'' hin =>
      cases hopen
      cases enfile with
      | true => cases hin
      | false => exact h.install hin (by simp)
  · cases hopen
    exact h

section run

variable {callback : Bool} {table : FileTable (Holder P)} {s₀ : Acceptor P}
  {ls : List (AcceptAct P)} (hnew : new callback table enfile = some s₀)
  (htable : ∀ fd f, table.file fd = some f → f = .rest)
include hnew htable

omit [DecidableEq P] in
theorem Books.new : s₀.Books := by
  unfold Acceptor.new at hnew
  cases hopen : openIdle table enfile with
  | mk idleFd table' =>
      rw [hopen] at hnew
      have hown := openIdle_lists (Lists.nil fun fd f hf => not_not.mpr (htable fd f hf)) hopen
      cases hin : table'.install .listening with
      | none => simp only [hin, reduceCtorEq] at hnew
      | some r =>
          obtain ⟨sock, table''⟩ := r
          simp only [hin, Option.some.injEq] at hnew
          subst hnew
          refine ⟨(hown.install hin (by simp)).perm ?_, rfl, List.Perm.refl _, by simp⟩
          rw [List.append_nil]
          exact (List.perm_append_singleton _ _).symm

/-- **The acceptor's books.** Whatever other threads open and close between
any two of its calls, and however the calls fail, the acceptor has open what
it is to close and nothing else, and closes nothing of anybody else; every
connection that has come is waiting, in hand, handed on, closed or given up
by its peer, and is one of these only. -/
theorem books_balance (hr : Run AcceptStep s₀ ls s) : s.Books :=
  hr.invariant (fun _ _ _ h hs => h.step hs) (Books.new hnew htable)

end run

/-- A table of three: the acceptor takes what is left of it. -/
def tight : FileTable (Holder Nat) := [some .rest, none, none]

theorem tight_rest : ∀ fd f, tight.file fd = some f → f = .rest := by
  intro fd f hf
  rcases fd with _ | _ | _ | fd
  · exact (Option.some.inj hf).symm
  all_goals cases hf

def tightStart : Acceptor Nat :=
  ⟨true, [some .rest, some .idle, some .listening], 2, some 1, .idle, [], [], [], [], [], 0, 0, 0, 0⟩

theorem new_tight : new true tight false = some tightStart := rfl

/-- A connection for which there is no descriptor. -/
def refusal : List (AcceptAct Nat) :=
  [.arrive 7, .accept false, .closeIdle, .acceptAgain false, .closePeer, .reopen false]

theorem books_balance_refusal : new true tight false = some tightStart ∧
    ∃ s, Run AcceptStep tightStart refusal s ∧ s.refused = [7] ∧ s.Books := by
  obtain ⟨s, hr, hs⟩ := Run.exists_of_foldlM exec tightStart refusal
    (fun s => decide (s.refused = [7])) (by decide)
  exact ⟨new_tight, s, hr, of_decide_eq_true hs, books_balance new_tight tight_rest hr⟩

/-! ## The spare descriptor -/

/-- Between two calls the spare is there, and no second `accept` has been
without a descriptor. -/
def HasSpare (s : Acceptor P) : Prop := (s.stage = .idle → s.idleFd.isSome) ∧ s.futile = 0

/-- When the free place is used, by the second `accept` or for the spare, the
system has a file for it, and the other threads have not opened more than
they have closed since the table was full. -/
def Unclaimed (s : Acceptor P) : AcceptAct P → Prop
  | .acceptAgain enfile | .reopen enfile => enfile = false ∧ s.opened ≤ s.closed
  | _ => True

/-- The places that are free in the course of a call; all but those that
others have made free are the spare's. -/
def Counted (s : Acceptor P) : Prop :=
  match s.stage with
  | .outOfFds => s.table.free + s.opened = s.closed
  | .closedIdle | .refusing none | .closedPeer => s.table.free + s.opened = s.closed + 1
  | .refusing (some _) => s.table.free + s.opened = s.closed
  | _ => True

/-- `m_idleFd` stands for a descriptor. -/
def FdSet (s : Acceptor P) : Prop :=
  match s.stage with
  | .idle | .accepted _ _ | .outOfFds | .refusing (some _) => s.idleFd.isSome
  | _ => True

structure Spared (s : Acceptor P) : Prop where
  books : s.Books
  fdSet : s.FdSet
  futile : s.futile = 0
  counted : s.Counted

omit [DecidableEq P] in
theorem Spared.hasSpare (h : s.Spared) : s.HasSpare := by
  refine ⟨fun hst => ?_, h.futile⟩
  have hfd := h.fdSet
  simpa only [FdSet, hst] using hfd

omit [DecidableEq P] in
theorem Counted.of_eq (h : s.Counted) (hst : t.stage = s.stage)
    (heq : t.table.free + t.opened + s.closed = s.table.free + s.opened + t.closed) :
    t.Counted := by
  unfold Counted at h ⊢
  rw [hst]
  split <;> simp_all <;> omega

theorem free_closeFd {fd : Nat} {f : Holder P} (h : s.table.file fd = some f) :
    (s.closeFd (some fd)).table.free = s.table.free + 1 :=
  free_close h

theorem Spared.step (h : s.Spared) (hC : s.Unclaimed a) (hs : AcceptStep s a t) : t.Spared := by
  have hbooks := h.books.step hs
  obtain ⟨hb, hfd, hfu, hc⟩ := h
  cases effect_of_exec hs with
  | arrive hst => exact ⟨hbooks, hfd, hfu, hc⟩
  | abort hp => exact ⟨hbooks, hfd, hfu, hc⟩
  | otherOpen hin =>
      have hfree := free_install hin
      exact ⟨hbooks, hfd, hfu, hc.of_eq rfl (by simp only; omega)⟩
  | otherClose hfile =>
      have hfree := free_close hfile
      exact ⟨hbooks, hfd, hfu, hc.of_eq rfl (by simp only; omega)⟩
  | accept hst hq hin =>
      simp only [FdSet, hst] at hfd
      exact ⟨hbooks, hfd, hfu, trivial⟩
  | emfile hst hfree =>
      simp only [FdSet, hst] at hfd
      exact ⟨hbooks, hfd, hfu, by simp only [Counted]; omega⟩
  | nothing => exact ⟨hbooks, hfd, hfu, hc⟩
  | hand hst hcb =>
      simp only [FdSet, hst] at hfd
      exact ⟨hbooks, hfd, hfu, trivial⟩
  | drop hst hcb =>
      simp only [FdSet, hst] at hfd
      exact ⟨hbooks, hfd, hfu, trivial⟩
  | closeIdle hst =>
      simp only [FdSet, Counted, hst] at hfd hc
      obtain ⟨fd, hsome⟩ := Option.isSome_iff_exists.mp hfd
      have hown := hb.own
      simp only [Acceptor.own, hst, hsome] at hown
      have hfree := free_closeFd hown.file_head
      refine ⟨hbooks, trivial, (closeFd_fields s _).2.2.2.2.2.2.2.2.2.trans hfu, ?_⟩
      simp only [Counted, closeFd_fields, hsome, hfree]
      omega
  | acceptAgain hst hq hin =>
      simp only [Counted, hst] at hc
      have hfree := free_install hin
      refine ⟨hbooks, rfl, hfu, ?_⟩
      simp only [Counted]
      omega
  | failAgain hst hf =>
      simp only [Counted, Unclaimed, hst] at hc hC
      cases hf with
      | EMFILE hfree => omega
      | ENFILE _ hen => exact absurd (hC.1.symm.trans hen) Bool.false_ne_true
      | EAGAIN hfree hen hq => exact ⟨hbooks, trivial, hfu, hc⟩
  | @closePeer peer hst =>
      refine ⟨hbooks, trivial, (closeFd_fields s _).2.2.2.2.2.2.2.2.2.trans hfu, ?_⟩
      cases peer with
      | none =>
          simp only [Counted, hst] at hc
          simpa only [Counted, closeFd_fields, hb.failed hst, closeFd] using hc
      | some p =>
          simp only [FdSet, Counted, hst] at hfd hc
          obtain ⟨fd, hsome⟩ := Option.isSome_iff_exists.mp hfd
          have hown := hb.own
          simp only [Acceptor.own, hst, hsome] at hown
          have hfree := free_closeFd hown.file_head
          simp only [Counted, closeFd_fields, hsome, hfree]
          omega
  | reopen hst hin => exact ⟨hbooks, rfl, hfu, trivial⟩
  | lose hst hl =>
      simp only [Counted, Unclaimed, hst] at hc hC
      rcases hl with hen | hfree
      · exact absurd (hC.1.symm.trans hen) Bool.false_ne_true
      · omega
  | destroy hst =>
      refine ⟨hbooks, trivial, ?_, trivial⟩
      simpa only [closeFd_fields] using hfu

theorem Spared.not_hasSpare (h : s.Spared) (hC : ¬ s.Unclaimed a) (hs : AcceptStep s a t) :
    ¬ t.HasSpare := by
  obtain ⟨-, -, -, hc⟩ := h
  rintro ⟨hidle, hfutile⟩
  cases effect_of_exec hs with
  | acceptAgain hst _ hin =>
      have hfree := free_install hin
      simp only [Counted, hst] at hc
      exact hC ⟨rfl, by omega⟩
  | failAgain hst hf =>
      simp only [Counted, hst] at hc
      cases hf with
      | EMFILE => simp at hfutile
      | ENFILE => simp at hfutile
      | EAGAIN hfree hen => exact hC ⟨hen, by omega⟩
  | reopen hst hin =>
      have hfree := free_install hin
      simp only [Counted, hst] at hc
      exact hC ⟨rfl, by omega⟩
  | lose hst hl => exact absurd (hidle rfl) (by simp)
  | _ => exact hC trivial

omit [DecidableEq P] in
theorem new_idleFd {callback : Bool} {table : FileTable (Holder P)}
    (h : new callback table false = some s) :
    s.idleFd.isSome ∧ s.stage = .idle ∧ s.futile = 0 := by
  unfold new openIdle at h
  cases hidle : table.install .idle with
  | none =>
      -- then there is no descriptor for the socket either
      have hsock : table.install .listening = none := install_eq_none.mpr (install_eq_none.mp hidle)
      simp [hidle, hsock] at h
  | some r =>
      simp only [hidle, Bool.false_eq_true, if_false] at h
      split at h
      · cases h
        exact ⟨rfl, rfl, rfl⟩
      · cases h

/-- **The spare descriptor.** It is there between any two calls, and no call
fails to get rid of a connection for want of it, exactly if whenever the
acceptor comes back to the place, neither call fails with `ENFILE` and other
threads have not taken the place: since the table was full they have not
opened more descriptors than they have closed. -/
theorem spare_kept_iff {callback : Bool} {table : FileTable (Holder P)} {s₀ : Acceptor P}
    (hnew : new callback table false = some s₀)
    (htable : ∀ fd f, table.file fd = some f → f = .rest) (ls : List (AcceptAct P)) :
    Throughout AcceptStep HasSpare s₀ ls ↔ EveryStep AcceptStep Unclaimed s₀ ls := by
  obtain ⟨hfd, hst, hfu⟩ := new_idleFd hnew
  have h0 : s₀.Spared := ⟨Books.new hnew htable, by simpa only [FdSet, hst] using hfd, hfu,
    by simp only [Counted, hst]⟩
  exact throughout_iff_everyStep (I := Spared) h0 (fun _ _ _ h hC hs => h.step hC hs)
    (fun _ h => h.hasSpare) fun _ _ _ h hC hs => h.not_hasSpare hC hs

instance (s : Acceptor P) (a : AcceptAct P) : Decidable (s.Unclaimed a) := by
  cases a <;> unfold Unclaimed <;> infer_instance

theorem spare_kept_refusal : new true tight false = some tightStart ∧
    Throughout AcceptStep HasSpare tightStart refusal :=
  ⟨new_tight, (spare_kept_iff new_tight tight_rest refusal).mpr
    (everyStep_of_stepsMeet (f := exec) (by decide))⟩

/-! ## Without the spare -/

/-- The table is full and the spare is not in it. -/
structure Lost (s : Acceptor P) : Prop where
  full : s.table.free = 0
  idleFd : s.idleFd = none
  accepted : ∀ fd p, s.stage ≠ .accepted fd p
  refusing : ∀ p, s.stage ≠ .refusing (some p)

theorem Lost.step (h : s.Lost) (ha : a ≠ .destroy ∧ ∀ fd, a ≠ .otherClose fd)
    (hs : AcceptStep s a t) : t.Lost ∧ t.handed = s.handed ∧ t.refused = s.refused := by
  obtain ⟨hfull, hfd, hacc, href⟩ := h
  have hnone : ∀ f, s.table.install f = none := fun f => install_eq_none.mpr hfull
  cases effect_of_exec hs with
  | arrive => exact ⟨⟨hfull, hfd, hacc, href⟩, rfl, rfl⟩
  | abort => exact ⟨⟨hfull, hfd, hacc, href⟩, rfl, rfl⟩
  | otherOpen hin => cases (hnone _).symm.trans hin
  | otherClose => exact absurd rfl (ha.2 _)
  | accept _ _ hin => cases (hnone _).symm.trans hin
  | emfile => exact ⟨⟨hfull, hfd, by simp, by simp⟩, rfl, rfl⟩
  | nothing => exact ⟨⟨hfull, hfd, hacc, href⟩, rfl, rfl⟩
  | hand hst => exact absurd hst (hacc _ _)
  | drop hst => exact absurd hst (hacc _ _)
  | closeIdle =>
      rw [hfd]
      exact ⟨⟨hfull, hfd, by simp, by simp⟩, rfl, rfl⟩
  | acceptAgain _ _ hin => cases (hnone _).symm.trans hin
  | failAgain => exact ⟨⟨hfull, rfl, by simp, by simp⟩, rfl, rfl⟩
  | @closePeer peer hst =>
      cases peer with
      | none =>
          rw [hfd]
          exact ⟨⟨hfull, hfd, by simp, by simp⟩, rfl, List.append_nil _⟩
      | some p => exact absurd hst (href p)
  | reopen _ hin => cases (hnone _).symm.trans hin
  | lose => exact ⟨⟨hfull, rfl, by simp, by simp⟩, rfl, rfl⟩
  | destroy => exact absurd rfl ha.1

/-- **Without the spare.** Once it is lost and the table is full, no
connection is handed on or closed, however often the loop calls `handleRead`
for it, and the spare does not come back, until somebody else closes a
descriptor. -/
theorem stuck_until_close (hst : s.stage = .idle) (hfd : s.idleFd = none)
    (hfull : s.table.free = 0) {ls : List (AcceptAct P)} (hr : Run AcceptStep s ls t)
    (hls : ∀ a ∈ ls, a ≠ .destroy ∧ ∀ fd, a ≠ .otherClose fd) :
    t.handed = s.handed ∧ t.refused = s.refused ∧ t.idleFd = none ∧ t.table.free = 0 := by
  have hlost : s.Lost := ⟨hfull, hfd, by simp [hst], by simp [hst]⟩
  have hinv : t.Lost ∧ t.handed = s.handed ∧ t.refused = s.refused := by
    refine hr.invariant_of_labels
      (I := fun u => u.Lost ∧ u.handed = s.handed ∧ u.refused = s.refused)
      (fun u a v ha hu hs => ?_) hls ⟨hlost, rfl, rfl⟩
    obtain ⟨hl, hh, hre⟩ := hu.1.step ha hs
    exact ⟨hl, hh.trans hu.2.1, hre.trans hu.2.2⟩
  exact ⟨hinv.2.1, hinv.2.2, hinv.1.idleFd, hinv.1.full⟩

/-- Another thread has taken the place of the spare. -/
def claimed : List (AcceptAct Nat) := refusal.take 5 ++ [.otherOpen, .reopen false]

theorem stuck_claimed : ∃ s t, Run AcceptStep tightStart claimed s ∧
    Run AcceptStep s refusal t ∧ t.refused = s.refused ∧ t.backlog = [7] := by
  obtain ⟨s, hs, hlost⟩ := Run.exists_of_foldlM exec tightStart claimed
    (fun s => decide (s.stage = .idle ∧ s.idleFd = none ∧ s.table.free = 0) &&
      (refusal.foldlM exec s).any fun t : Acceptor Nat => decide (t.backlog = [7])) (by decide)
  obtain ⟨hlost, hnext⟩ := Bool.and_eq_true_iff.mp hlost
  obtain ⟨hst, hfd, hfull⟩ := of_decide_eq_true hlost
  obtain ⟨t, ht, hback⟩ := Run.exists_of_foldlM exec s refusal _ hnext
  exact ⟨s, t, hs, ht,
    (stuck_until_close hst hfd hfull ht (by simp [refusal])).2.1, of_decide_eq_true hback⟩

end Acceptor

end Netpoll
