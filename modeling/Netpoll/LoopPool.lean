import Mathlib.Data.Int.CardIntervalMod
import Mathlib.Data.Set.Subsingleton
import Netpoll.Runs
import Netpoll.TcpServer

/-!
# The loops of a pool

`EventLoopThreadPool::getNextLoop` hands out the loops of a pool in turn.
It reads and writes `m_loopIndex` with nothing to protect it, and a pool may
be shared: copies of an `EventLoopWrap` have one pool, and each server that
is served on it calls `getNextLoop` on a thread of its own. The calls are
taken apart here into the accesses of the index.

As long as no two calls overlap, they are the calls of the pool in
`Netpoll.TcpServer`, and no loop gets more than one connection more than
another (`turns_balanced`). A set of threads that may call at any time stays
inside the array exactly if there is one thread in it
(`in_range_iff_one_caller`).

Even calls that do not overlap are not enough for `TcpServer::start`, which
puts a timing wheel on the server's own loop and then goes once round the
pool to put one on each loop there: a connection finds its wheel for sure
exactly if the server has met each loop but its own (`wheel_found_iff`), and
it does if nobody uses the pool in between (`wheels_of_start`).
-/

namespace Netpoll

/-! ## The code -/

/-- Where a thread stands in `getNextLoop`. A loop is its place in
`m_loopThreadList`. -/
inductive PickStage
  | idle
  | picked (loop : Nat)
  /-- `++m_loopIndex` has loaded the index. -/
  | loaded (loop index : Nat)
  | stored (loop : Nat)
  /-- The index was not below the size. -/
  | tested (loop : Nat)
  deriving DecidableEq

inductive PickAct
  | pick
  | load
  | store
  | test
  | reset
  deriving DecidableEq

/-- A pool and the threads that use it. `given` records what was returned to
whom, `wild` that an element was read which the array does not have. -/
structure SharedPool (T : Type*) where
  size : Nat
  loopIndex : Nat
  stage : T → PickStage
  given : List (T × Nat)
  wild : Bool

namespace SharedPool

variable {T : Type*}

def new (size : Nat) : SharedPool T := ⟨size, 0, fun _ => .idle, [], false⟩

variable [DecidableEq T]

def setStage (s : SharedPool T) (t : T) (stage : PickStage) : SharedPool T :=
  { s with stage := Function.update s.stage t stage }

/-- `return loop`. -/
def give (s : SharedPool T) (t : T) (loop : Nat) : SharedPool T :=
  { s.setStage t .idle with given := s.given ++ [(t, loop)] }

/-- One access of `getNextLoop` on a pool that is not empty. -/
def exec (s : SharedPool T) (t : T) : PickAct → Option (SharedPool T)
  | .pick =>
    if s.stage t = .idle ∧ s.size ≠ 0 then
      some { s.setStage t (.picked s.loopIndex) with wild := s.wild || s.size ≤ s.loopIndex }
    else none
  | .load =>
    match s.stage t with
    | .picked loop => some (s.setStage t (.loaded loop s.loopIndex))
    | _ => none
  | .store =>
    match s.stage t with
    | .loaded loop index => some { s.setStage t (.stored loop) with loopIndex := index + 1 }
    | _ => none
  | .test =>
    match s.stage t with
    | .stored loop =>
      if s.loopIndex ≥ s.size then some (s.setStage t (.tested loop)) else some (s.give t loop)
    | _ => none
  | .reset =>
    match s.stage t with
    | .tested loop => some { s.give t loop with loopIndex := 0 }
    | _ => none

end SharedPool

def PickStep {T : Type*} [DecidableEq T] (s : SharedPool T) (l : T × PickAct) (s' : SharedPool T) :
    Prop :=
  s.exec l.1 l.2 = some s'

theorem next_turn {n : Nat} (hn : 0 < n) (k : Nat) :
    (k + 1) % n = if k % n + 1 ≥ n then 0 else k % n + 1 := by
  have hlt := Nat.mod_lt k hn
  rw [← Nat.mod_add_mod]
  split
  next hge => rw [show k % n + 1 = n by omega, Nat.mod_self]
  next hnge => exact Nat.mod_eq_of_lt (by omega)

namespace SharedPool

variable {T : Type*}

/-- A call begins when no other one is under way. -/
def Serial (s : SharedPool T) (l : T × PickAct) : Prop := l.2 = .pick → ∀ u, s.stage u = .idle

/-! ## Calls one after the other -/

/-- What a thread in the `k`-th call has seen, and what the index is. -/
inductive At (n k index : Nat) : PickStage → Prop
  | picked : index = k % n → At n k index (.picked (k % n))
  | loaded : index = k % n → At n k index (.loaded (k % n) (k % n))
  | stored : index = k % n + 1 → At n k index (.stored (k % n))
  | tested : k % n + 1 = n → At n k index (.tested (k % n))

/-- Nobody is in a call, or one thread is. -/
inductive Turn (n k : Nat) (s : SharedPool T) : Prop
  | idle : (∀ u, s.stage u = .idle) → s.loopIndex = k % n → Turn n k s
  | busy (t : T) : 0 < n → (∀ u ≠ t, s.stage u = .idle) → At n k s.loopIndex (s.stage t) →
      Turn n k s

/-- The loops have been given out in turn. -/
structure InTurn (n : Nat) (s : SharedPool T) : Prop where
  size : s.size = n
  wild : s.wild = false
  given : s.given.map Prod.snd = (List.range s.given.length).map (· % n)
  turn : Turn n s.given.length s

theorem InTurn.new {n : Nat} : InTurn n (.new n : SharedPool T) :=
  ⟨rfl, rfl, rfl, .idle (fun _ => rfl) (Nat.zero_mod n).symm⟩

variable [DecidableEq T] {n : Nat} {s s' : SharedPool T} {t : T} {a : PickAct}

theorem stage_setStage_of_ne (s : SharedPool T) {u : T} (hu : u ≠ t) (stage : PickStage) :
    (s.setStage t stage).stage u = s.stage u :=
  Function.update_of_ne hu _ _

theorem stage_setStage_self (s : SharedPool T) (t : T) (stage : PickStage) :
    (s.setStage t stage).stage t = stage :=
  Function.update_self _ _ _

theorem Turn.busy_of_ne {k : Nat} (h : Turn n k s) (hne : s.stage t ≠ .idle) :
    0 < n ∧ (∀ u ≠ t, s.stage u = .idle) ∧ At n k s.loopIndex (s.stage t) := by
  cases h with
  | idle hall => exact absurd (hall t) hne
  | busy u hn hall hat =>
      obtain rfl : t = u := by
        by_contra htu
        exact hne (hall t htu)
      exact ⟨hn, hall, hat⟩

theorem InTurn.goOn (h : InTurn n s) (hn : 0 < n) (hidle : ∀ u ≠ t, s.stage u = .idle)
    {stage : PickStage} {index : Nat} (hat : At n s.given.length index stage) :
    InTurn n { s.setStage t stage with loopIndex := index } := by
  refine ⟨h.size, h.wild, h.given, .busy t hn (fun u hu => ?_) ?_⟩
  · exact (stage_setStage_of_ne s hu stage).trans (hidle u hu)
  · simpa [setStage] using hat

theorem InTurn.give (h : InTurn n s) (hidle : ∀ u ≠ t, s.stage u = .idle) {index : Nat}
    (hindex : index = (s.given.length + 1) % n) :
    InTurn n { s.give t (s.given.length % n) with loopIndex := index } := by
  refine ⟨h.size, h.wild, ?_, .idle (fun u => ?_) ?_⟩
  · simp [SharedPool.give, h.given, List.range_succ]
  · by_cases hu : u = t
    · subst hu
      exact stage_setStage_self s u .idle
    · exact (stage_setStage_of_ne s hu .idle).trans (hidle u hu)
  · simpa [SharedPool.give] using hindex

theorem InTurn.step (h : InTurn n s) (hC : s.Serial (t, a)) (hs : PickStep s (t, a) s') :
    InTurn n s' := by
  have hturn := h.turn
  unfold PickStep exec at hs
  cases a with
  | pick =>
      simp only [Option.ite_none_right_eq_some, Option.some.injEq] at hs
      obtain ⟨⟨-, hsize⟩, rfl⟩ := hs
      have hidle := hC rfl
      have hindex : s.loopIndex = s.given.length % n := by
        cases hturn with
        | idle _ hindex => exact hindex
        | busy u _ _ hat =>
            rw [hidle u] at hat
            cases hat
      have hn : 0 < n := Nat.pos_of_ne_zero (h.size ▸ hsize)
      have hwild : (s.wild || decide (s.size ≤ s.loopIndex)) = s.wild := by
        have hlt : s.loopIndex < s.size := by
          rw [hindex, h.size]
          exact Nat.mod_lt _ hn
        simp [Nat.not_le.mpr hlt]
      have hgo := h.goOn (t := t) hn (fun u _ => hidle u) (At.picked hindex)
      rw [← hindex] at hgo
      rw [hwild]
      exact hgo
  | load =>
      simp only at hs
      split at hs
      next loop hst =>
          cases hs
          obtain ⟨hn, hidle, hat⟩ := hturn.busy_of_ne (t := t) (by simp [hst])
          rw [hst] at hat
          cases hat with
          | picked hindex => exact h.goOn hn hidle (hindex ▸ At.loaded hindex)
      · cases hs
  | store =>
      simp only at hs
      split at hs
      next loop index hst =>
          cases hs
          obtain ⟨hn, hidle, hat⟩ := hturn.busy_of_ne (t := t) (by simp [hst])
          rw [hst] at hat
          cases hat with
          | loaded => exact h.goOn hn hidle (At.stored rfl)
      · cases hs
  | test =>
      simp only at hs
      split at hs
      next loop hst =>
          obtain ⟨hn, hidle, hat⟩ := hturn.busy_of_ne (t := t) (by simp [hst])
          rw [hst] at hat
          cases hat with
          | stored hindex =>
              have hlt := Nat.mod_lt s.given.length hn
              split at hs
              next hge =>
                  cases hs
                  rw [h.size] at hge
                  exact h.goOn hn hidle (At.tested (by omega))
              next hnge =>
                  cases hs
                  rw [h.size] at hnge
                  have hnext : s.loopIndex = (s.given.length + 1) % n := by
                    rw [next_turn hn, if_neg (by omega), hindex]
                  exact h.give hidle hnext
      · cases hs
  | reset =>
      simp only at hs
      split at hs
      next loop hst =>
          cases hs
          obtain ⟨hn, hidle, hat⟩ := hturn.busy_of_ne (t := t) (by simp [hst])
          rw [hst] at hat
          cases hat with
          | tested hlast =>
              have hnext : 0 = (s.given.length + 1) % n := by
                rw [next_turn hn, if_pos hlast.ge]
              exact h.give hidle hnext
      · cases hs

/-- What the pool of `Netpoll.TcpServer` gives out in `k` calls. -/
def takeLoops : Nat → EventLoopThreadPool Nat → List (Option Nat) × EventLoopThreadPool Nat
  | 0, p => ([], p)
  | k + 1, p =>
    let (loops, p) := takeLoops k p
    let (loop, p) := p.getNextLoop
    (loops ++ [loop], p)

omit [DecidableEq T] in
theorem takeLoops_eq (hn : 0 < n) (k : Nat) :
    takeLoops k ⟨List.range n, 0⟩ =
      ((List.range k).map fun i => some (i % n), ⟨List.range n, k % n⟩) := by
  induction k with
  | zero => simp [takeLoops]
  | succ k ih =>
      have hlt := Nat.mod_lt k hn
      have hne : List.range n ≠ [] := by simp; omega
      simp only [takeLoops, ih, EventLoopThreadPool.getNextLoop, if_pos hne, List.length_range,
        next_turn hn, List.range_succ, List.map_append, List.map_singleton]
      rw [List.getElem?_range hlt]

theorem count_turns (hn : 0 < n) (k : Nat) {i : Nat} (hi : i < n) :
    ((List.range k).map (· % n)).count i = k / n + if i < k % n then 1 else 0 := by
  have hmod : i % n = i := Nat.mod_eq_of_lt hi
  have hcard := Nat.count_modEq_card k hn i
  rw [hmod, Nat.count] at hcard
  rw [← hcard, List.count, List.countP_map]
  refine List.countP_congr fun x _ => ?_
  simp [Nat.ModEq, hmod]

/-- **The loops take turns.** As long as no two calls overlap, no element is
read that the array does not have, what was given out is what the pool of
`Netpoll.TcpServer` gives out, and no loop was given out more than once more
than another. -/
theorem turns_balanced (hn : 0 < n) {ls : List (T × PickAct)}
    (hr : Run (Guarded PickStep Serial) (.new n) ls s) :
    s.wild = false ∧
      s.given.map (fun g => some g.2) = (takeLoops s.given.length ⟨List.range n, 0⟩).1 ∧
      ∀ i < n, ∀ j < n, (s.given.map Prod.snd).count i ≤ (s.given.map Prod.snd).count j + 1 := by
  have h : InTurn n s := hr.invariant (fun _ _ _ h hs => h.step hs.2 hs.1) .new
  refine ⟨h.wild, ?_, fun i hi j hj => ?_⟩
  · rw [takeLoops_eq hn]
    have hg := congrArg (List.map some) h.given
    rwa [List.map_map, List.map_map] at hg
  · rw [h.given, count_turns hn _ hi, count_turns hn _ hj]
    split <;> split <;> omega

/-- Two threads that call once each. -/
def twoCalls : List (Bool × PickAct) :=
  [(true, .pick), (true, .load), (true, .store), (true, .test),
    (false, .pick), (false, .load), (false, .store), (false, .test), (false, .reset)]

instance (s : SharedPool Bool) (l : Bool × PickAct) : Decidable (s.Serial l) :=
  inferInstanceAs (Decidable (l.2 = .pick → ∀ u, s.stage u = .idle))

theorem turns_balanced_twoCalls : ∃ s : SharedPool Bool,
    Run (Guarded PickStep Serial) (.new 2) twoCalls s ∧ s.given = [(true, 0), (false, 1)] ∧
      s.wild = false := by
  obtain ⟨s, hr, hs⟩ := Run.exists_of_foldlM (fun s l => exec s l.1 l.2) (.new 2) twoCalls
    (fun s => decide (s.given = [(true, 0), (false, 1)])) (by decide)
  have hguard : Run (Guarded PickStep Serial) (.new 2) twoCalls s :=
    (everyStep_of_stepsMeet (by decide)).guarded List.prefix_rfl hr
  exact ⟨s, hguard, of_decide_eq_true hs, (turns_balanced (by decide) hguard).1⟩

/-! ## Calls at any time -/

theorem stage_of_step (hs : PickStep s (t, a) s') {u : T} (hu : u ≠ t) :
    s'.stage u = s.stage u := by
  unfold PickStep exec at hs
  cases a with
  | pick =>
      simp only [Option.ite_none_right_eq_some, Option.some.injEq] at hs
      rw [← hs.2]
      exact stage_setStage_of_ne s hu _
  | _ =>
      simp only at hs
      repeat' split at hs
      all_goals first | (cases hs; exact stage_setStage_of_ne s hu _) | cases hs

section calls

variable (hidle : s.stage t = .idle) (hsize : s.size ≠ 0)
include hidle hsize

theorem exists_stored : ∃ s', Run PickStep s [(t, .pick), (t, .load), (t, .store)] s' ∧
    s'.size = s.size ∧ s'.loopIndex = s.loopIndex + 1 ∧ s'.stage t = .stored s.loopIndex ∧
      ∀ u ≠ t, s'.stage u = s.stage u := by
  let s₁ : SharedPool T :=
    { s.setStage t (.picked s.loopIndex) with wild := s.wild || s.size ≤ s.loopIndex }
  let s₂ := s₁.setStage t (.loaded s.loopIndex s.loopIndex)
  let s₃ := { s₂.setStage t (.stored s.loopIndex) with loopIndex := s.loopIndex + 1 }
  have h₁ : PickStep s (t, .pick) s₁ := by
    simp [PickStep, exec, hidle, hsize, s₁]
  have h₂ : PickStep s₁ (t, .load) s₂ := by
    simp [PickStep, exec, s₁, s₂, setStage]
  have h₃ : PickStep s₂ (t, .store) s₃ := by
    simp [PickStep, exec, s₁, s₂, s₃, setStage]
  refine ⟨s₃, .cons h₁ (.cons h₂ (.cons h₃ (.nil _))), rfl, rfl, ?_, fun u hu => ?_⟩
  · exact stage_setStage_self s₂ t _
  · rw [stage_of_step h₃ hu, stage_of_step h₂ hu, stage_of_step h₁ hu]

theorem exists_call (hlt : s.loopIndex + 1 < s.size) :
    ∃ ls s', (∀ l ∈ ls, l.1 = t) ∧ Run PickStep s ls s' ∧ s'.size = s.size ∧
      s'.loopIndex = s.loopIndex + 1 ∧ s'.stage t = .idle ∧ ∀ u ≠ t, s'.stage u = s.stage u := by
  obtain ⟨s', hr, hsz, hindex, hst, hothers⟩ := exists_stored hidle hsize
  have hs : PickStep s' (t, .test) (s'.give t s.loopIndex) := by
    have hnge : ¬ s'.loopIndex ≥ s'.size := by omega
    simp only [PickStep, exec, hst, if_neg hnge]
  refine ⟨_, _, ?_, hr.snoc hs, hsz, hindex, stage_setStage_self s' t _, fun u hu => ?_⟩
  · simp
  · rw [stage_of_step hs hu, hothers u hu]

end calls

theorem exists_calls (t : T) {m : Nat} (hm : m < n) :
    ∃ ls s, (∀ l ∈ ls, l.1 = t) ∧ Run PickStep (.new n) ls s ∧ s.size = n ∧
      s.loopIndex = m ∧ ∀ u, s.stage u = .idle := by
  induction m with
  | zero => exact ⟨[], _, by simp, .nil _, rfl, rfl, fun _ => rfl⟩
  | succ m ih =>
      obtain ⟨ls, s, hls, hr, hsize, hindex, hidle⟩ := ih (by omega)
      obtain ⟨ls', s', hls', hr', hsize', hindex', hst, hothers⟩ :=
        exists_call (hidle t) (by omega) (by omega)
      refine ⟨ls ++ ls', s', ?_, hr.append hr', by omega, by omega, fun u => ?_⟩
      · intro l hl
        rcases List.mem_append.mp hl with h | h
        · exact hls l h
        · exact hls' l h
      · by_cases hu : u = t
        · rw [hu, hst]
        · rw [hothers u hu, hidle u]

/-- **Who may call.** Threads that may call `getNextLoop` at any time never
read an element that the array does not have exactly if there is one such
thread at most. -/
theorem in_range_iff_one_caller (n : Nat) (U : Set T) :
    (∀ ls s, (∀ l ∈ ls, l.1 ∈ U) → Run PickStep (.new n) ls s → s.wild = false) ↔
      n = 0 ∨ U.Subsingleton := by
  constructor
  · intro h
    rw [or_iff_not_imp_left]
    intro hn t ht u hu
    by_contra htu
    -- the first thread stands before its reset when the second one looks
    obtain ⟨ls, s, hls, hr, hsize, hindex, hidle⟩ :=
      exists_calls t (show n - 1 < n by omega)
    obtain ⟨s', hr', hsize', hindex', -, hothers⟩ := exists_stored (hidle t) (by omega)
    have hst : s'.stage u = .idle := (hothers u (Ne.symm htu)).trans (hidle u)
    have hpick : PickStep s' (u, .pick)
        { s'.setStage u (.picked s'.loopIndex) with
          wild := s'.wild || s'.size ≤ s'.loopIndex } := by
      have hne : s'.size ≠ 0 := by omega
      simp [PickStep, exec, hst, hne]
    have hwild := h _ _ ?_ ((hr.append hr').snoc hpick)
    · have hle : s'.size ≤ s'.loopIndex := by omega
      simp [hle] at hwild
    · intro l hl
      simp only [List.append_assoc, List.mem_append, List.mem_cons, List.not_mem_nil,
        or_false] at hl
      rcases hl with hl | (rfl | rfl | rfl) | rfl
      · exact hls l hl ▸ ht
      all_goals assumption
  · rintro hU ls s hls hr
    have hinv : InTurn n s ∧ ∀ u ∉ U, s.stage u = .idle := by
      refine hr.invariant_of_labels (I := fun s => InTurn n s ∧ ∀ u ∉ U, s.stage u = .idle)
        (P := fun l => l.1 ∈ U) ?_ hls ⟨.new, fun _ _ => rfl⟩
      rintro s ⟨t, a⟩ s' ht ⟨hin, hout⟩ hs
      refine ⟨hin.step ?_ hs, fun u hu => ?_⟩
      · intro ha u
        obtain rfl : a = .pick := ha
        unfold PickStep exec at hs
        simp only [Option.ite_none_right_eq_some, hin.size] at hs
        by_cases hu : u ∈ U
        · rcases hU with hzero | hsub
          · exact absurd hzero hs.1.2
          · rw [hsub hu ht]
            exact hs.1.1
        · exact hout u hu
      · have hne : u ≠ t := by
          rintro rfl
          exact hu ht
        rw [stage_of_step hs hne]
        exact hout u hu
    exact hinv.1.wild

end SharedPool

/-! ## A wheel for every loop -/

/-- Where a server with an idle timeout stands. -/
inductive StartStage
  | created
  /-- In the loop of `start`, `loopNum` loops are still to come. -/
  | starting (loopNum : Nat)
  | listening
  deriving DecidableEq

/-- A server: its own loop, `m_loop`, which is one of the pool's or has a
number past them; the loops that it has met in `start`, one entry for each
round; and whether a connection has been given to a loop without a wheel,
where the assertion of `newConnection` fails. -/
structure WheelServer where
  home : Nat
  stage : StartStage
  met : List Nat
  failed : Bool
  deriving DecidableEq

/-- The loops in `m_timingWheelMap`, once `start` runs. -/
def WheelServer.wheels (x : WheelServer) : List Nat := x.home :: x.met

/-- The servers that share a pool. -/
structure WheelPool (S : Type*) where
  pool : EventLoopThreadPool Nat
  server : S → WheelServer

inductive PoolWheelAct (S : Type*)
  | start (k : S)
  | visit (k : S)
  | listen (k : S)
  | newConnection (k : S)
  /-- Somebody else takes a loop, for a client. -/
  | serveDialer
  deriving DecidableEq

namespace WheelPool

variable {S : Type*}

/-- A pool of `n` loops, and servers that were not started. -/
def new (n : Nat) (home : S → Nat) : WheelPool S :=
  ⟨⟨List.range n, 0⟩, fun k => ⟨home k, .created, [], false⟩⟩

def size (s : WheelPool S) : Nat := s.pool.loopThreadList.length

variable [DecidableEq S]

def setServer (s : WheelPool S) (k : S) (x : WheelServer) : WheelPool S :=
  { s with server := Function.update s.server k x }

/-- The loop that `newConnection` chooses. -/
def ioLoop (s : WheelPool S) (k : S) : Option Nat × EventLoopThreadPool Nat :=
  if 0 < s.size then s.pool.getNextLoop else (some (s.server k).home, s.pool)

/-- Every call of `getNextLoop` is one step here: the calls do not overlap. -/
def exec (s : WheelPool S) : PoolWheelAct S → Option (WheelPool S)
  | .start k =>
    match s.server k with
    | ⟨home, .created, met, failed⟩ => some (s.setServer k ⟨home, .starting s.size, met, failed⟩)
    | _ => none
  | .visit k =>
    match s.server k, s.pool.getNextLoop with
    | ⟨home, .starting (loopNum + 1), met, failed⟩, (some loop, pool) =>
      some ({ s with pool }.setServer k ⟨home, .starting loopNum, met ++ [loop], failed⟩)
    | _, _ => none
  | .listen k =>
    match s.server k with
    | ⟨home, .starting 0, met, failed⟩ => some (s.setServer k ⟨home, .listening, met, failed⟩)
    | _ => none
  | .newConnection k =>
    match s.server k, s.ioLoop k with
    | ⟨home, .listening, met, failed⟩, (some loop, pool) =>
      some ({ s with pool }.setServer k
        ⟨home, .listening, met, failed || loop ∉ (s.server k).wheels⟩)
    | _, _ => none
  | .serveDialer =>
    match s.pool.getNextLoop with
    | (some _, pool) => some { s with pool }
    | _ => none

end WheelPool

def PoolWheelStep {S : Type*} [DecidableEq S] (s : WheelPool S) (a : PoolWheelAct S)
    (s' : WheelPool S) : Prop :=
  s.exec a = some s'

namespace WheelPool

variable {S : Type*}

/-- What is known of a server. -/
structure Known (n home : Nat) (x : WheelServer) : Prop where
  home_eq : x.home = home
  lt : ∀ loop ∈ x.met, loop < n
  created : x.stage = .created → x.met = []
  starting : ∀ loopNum, x.stage = .starting loopNum → x.met.length + loopNum = n
  listening : x.stage = .listening → x.met.length = n
  failed : x.failed = true → x.stage = .listening ∧ ∃ loop < n, loop ∉ x.wheels

structure Sound (n : Nat) (home : S → Nat) (s : WheelPool S) : Prop where
  loops : s.pool.loopThreadList = List.range n
  index : s.pool.loopIndex = s.pool.loopIndex % n
  server : ∀ k, Known n (home k) (s.server k)

theorem Sound.new (n : Nat) (home : S → Nat) : Sound n home (.new n home) := by
  refine ⟨rfl, (Nat.zero_mod n).symm, fun k => ⟨rfl, ?_, fun _ => rfl, ?_, ?_, ?_⟩⟩
  all_goals simp [WheelPool.new]

variable {n : Nat} {home : S → Nat} {s s' : WheelPool S} {a : PoolWheelAct S} {loop : Nat}
  {pool : EventLoopThreadPool Nat} {k : S}

theorem Sound.takes (h : Sound n home s) (hp : s.pool.getNextLoop = (some loop, pool)) :
    loop < n ∧ loop = s.pool.loopIndex ∧ pool = ⟨List.range n, (loop + 1) % n⟩ := by
  unfold EventLoopThreadPool.getNextLoop at hp
  rw [h.loops] at hp
  split at hp
  next hne =>
      have hn : 0 < n := Nat.pos_of_ne_zero fun h0 => hne (by simp [h0])
      have hlt : s.pool.loopIndex < n := by
        rw [h.index]
        exact Nat.mod_lt _ hn
      rw [List.getElem?_range hlt] at hp
      obtain ⟨hloop, rfl⟩ := Prod.mk.inj hp
      obtain rfl := Option.some.inj hloop
      refine ⟨hlt, rfl, ?_⟩
      rw [next_turn hn, ← h.index, List.length_range]
  · cases hp

theorem Sound.exists_takes (h : Sound n home s) (hn : 0 < n) :
    ∃ pool, s.pool.getNextLoop = (some s.pool.loopIndex, pool) := by
  have hlt : s.pool.loopIndex < n := by
    rw [h.index]
    exact Nat.mod_lt _ hn
  have hne : List.range n ≠ [] := by simp; omega
  refine ⟨s.pool.getNextLoop.2, Prod.ext ?_ rfl⟩
  unfold EventLoopThreadPool.getNextLoop
  rw [h.loops, if_pos hne, List.getElem?_range hlt]

theorem Sound.size_eq (h : Sound n home s) : s.size = n := by
  rw [size, h.loops, List.length_range]

theorem Sound.ioLoop (h : Sound n home s) (hp : s.ioLoop k = (some loop, pool)) :
    0 < n ∧ s.pool.getNextLoop = (some loop, pool) ∨
      loop = (s.server k).home ∧ pool = s.pool := by
  unfold WheelPool.ioLoop at hp
  rw [h.size_eq] at hp
  split at hp
  next hn => exact Or.inl ⟨hn, hp⟩
  · cases hp
    exact Or.inr ⟨rfl, rfl⟩

variable [DecidableEq S]

inductive Effect (s : WheelPool S) : PoolWheelAct S → WheelPool S → Prop
  | start {k : S} {home : Nat} {met : List Nat} {failed : Bool} :
      s.server k = ⟨home, .created, met, failed⟩ →
      Effect s (.start k) (s.setServer k ⟨home, .starting s.size, met, failed⟩)
  | visit {k : S} {home loopNum loop : Nat} {met : List Nat} {failed : Bool}
      {pool : EventLoopThreadPool Nat} :
      s.server k = ⟨home, .starting (loopNum + 1), met, failed⟩ →
      s.pool.getNextLoop = (some loop, pool) →
      Effect s (.visit k)
        ({ s with pool }.setServer k ⟨home, .starting loopNum, met ++ [loop], failed⟩)
  | listen {k : S} {home : Nat} {met : List Nat} {failed : Bool} :
      s.server k = ⟨home, .starting 0, met, failed⟩ →
      Effect s (.listen k) (s.setServer k ⟨home, .listening, met, failed⟩)
  | newConnection {k : S} {home loop : Nat} {met : List Nat} {failed : Bool}
      {pool : EventLoopThreadPool Nat} :
      s.server k = ⟨home, .listening, met, failed⟩ → s.ioLoop k = (some loop, pool) →
      Effect s (.newConnection k)
        ({ s with pool }.setServer k ⟨home, .listening, met, failed || loop ∉ home :: met⟩)
  | serveDialer {loop : Nat} {pool : EventLoopThreadPool Nat} :
      s.pool.getNextLoop = (some loop, pool) → Effect s .serveDialer { s with pool }

theorem effect_of_step (h : PoolWheelStep s a s') : Effect s a s' := by
  unfold PoolWheelStep exec at h
  cases a with
  | start k =>
      simp only at h
      split at h
      next hk =>
          cases h
          exact .start hk
      · cases h
  | visit k =>
      simp only at h
      split at h
      next hk hp =>
          cases h
          exact .visit hk hp
      · cases h
  | listen k =>
      simp only at h
      split at h
      next hk =>
          cases h
          exact .listen hk
      · cases h
  | newConnection k =>
      simp only at h
      split at h
      next hk hp =>
          cases h
          rw [hk]
          exact .newConnection hk hp
      · cases h
  | serveDialer =>
      simp only at h
      split at h
      next hp =>
          cases h
          exact .serveDialer hp
      · cases h

omit [DecidableEq S] in
theorem Sound.setPool (h : Sound n home s) (hp : s.pool.getNextLoop = (some loop, pool)) :
    Sound n home { s with pool } := by
  obtain ⟨-, -, rfl⟩ := h.takes hp
  exact ⟨rfl, (Nat.mod_mod _ _).symm, h.server⟩

omit [DecidableEq S] in
theorem Sound.connects (h : Sound n home s) (hp : s.ioLoop k = (some loop, pool)) :
    Sound n home { s with pool } ∧ (loop ∉ (s.server k).wheels → loop < n) := by
  rcases h.ioLoop hp with ⟨-, hp⟩ | ⟨rfl, rfl⟩
  · exact ⟨h.setPool hp, fun _ => (h.takes hp).1⟩
  · exact ⟨h, fun hout => absurd (List.mem_cons_self ..) hout⟩

theorem Sound.setServer (h : Sound n home s) {x : WheelServer} (hx : Known n (home k) x) :
    Sound n home (s.setServer k x) := by
  refine ⟨h.loops, h.index, fun j => ?_⟩
  by_cases hj : j = k
  · subst hj
    simpa [WheelPool.setServer] using hx
  · simpa [WheelPool.setServer, hj] using h.server j

theorem Sound.step (h : Sound n home s) (hs : PoolWheelStep s a s') : Sound n home s' := by
  cases effect_of_step hs with
  | @start k home met failed hk =>
      have hx := h.server k
      rw [hk] at hx
      obtain rfl : met = [] := hx.created rfl
      refine h.setServer
        ⟨hx.home_eq, hx.lt, by simp, ?_, by simp, fun hf => by cases (hx.failed hf).1⟩
      rintro loopNum ⟨⟩
      simp [h.size_eq]
  | @visit k home loopNum loop met failed pool hk hp =>
      have hx := h.server k
      rw [hk] at hx
      have hlen := hx.starting _ rfl
      have hlt := (h.takes hp).1
      refine (h.setPool hp).setServer
        ⟨hx.home_eq, ?_, by simp, ?_, by simp, fun hf => by cases (hx.failed hf).1⟩
      · intro l hl
        rcases List.mem_append.mp hl with hl | hl
        · exact hx.lt l hl
        · exact List.mem_singleton.mp hl ▸ hlt
      · rintro m ⟨⟩
        simp only [List.length_append, List.length_singleton] at hlen ⊢
        omega
  | @listen k home met failed hk =>
      have hx := h.server k
      rw [hk] at hx
      refine h.setServer
        ⟨hx.home_eq, hx.lt, by simp, by simp, fun _ => ?_, fun hf => by cases (hx.failed hf).1⟩
      simpa using hx.starting 0 rfl
  | @newConnection k home loop met failed pool hk hp =>
      have hx := h.server k
      obtain ⟨hpool, hlt⟩ := h.connects hp
      rw [hk] at hx hlt
      refine hpool.setServer ⟨hx.home_eq, hx.lt, by simp, by simp, hx.listening, fun hf => ?_⟩
      rcases Bool.or_eq_true_iff.mp hf with hf | hf
      · exact hx.failed hf
      · exact ⟨rfl, loop, hlt (of_decide_eq_true hf), of_decide_eq_true hf⟩
  | serveDialer hp => exact h.setPool hp

theorem server_setServer_of_ne (s : WheelPool S) {j : S} (hj : j ≠ k) (x : WheelServer) :
    (s.setServer k x).server j = s.server j :=
  Function.update_of_ne hj _ _

theorem server_setServer_self (s : WheelPool S) (k : S) (x : WheelServer) :
    (s.setServer k x).server k = x :=
  Function.update_self _ _ _

theorem wheels_step (hk : (s.server k).stage = .listening) (hs : PoolWheelStep s a s') :
    (s'.server k).stage = .listening ∧ (s'.server k).wheels = (s.server k).wheels := by
  have hne : ∀ j, (s.server j).stage ≠ .listening → k ≠ j := fun j hj heq => hj (heq ▸ hk)
  cases effect_of_step hs with
  | @start j _ _ _ hj =>
      rw [server_setServer_of_ne s (hne j (by simp [hj]))]
      exact ⟨hk, rfl⟩
  | @visit j _ _ _ _ _ _ hj hp =>
      rw [server_setServer_of_ne _ (hne j (by simp [hj]))]
      exact ⟨hk, rfl⟩
  | @listen j _ _ _ hj =>
      rw [server_setServer_of_ne s (hne j (by simp [hj]))]
      exact ⟨hk, rfl⟩
  | @newConnection j _ _ _ _ _ hj hp =>
      by_cases heq : k = j
      · subst heq
        rw [server_setServer_self, hj]
        exact ⟨rfl, rfl⟩
      · rw [server_setServer_of_ne _ heq]
        exact ⟨hk, rfl⟩
  | serveDialer hp => exact ⟨hk, rfl⟩

theorem exists_newConnection (h : Sound n home s) (hk : (s.server k).stage = .listening)
    (hn : 0 < n) :
    ∃ s', PoolWheelStep s (.newConnection k) s' ∧ s'.pool.loopIndex = (s.pool.loopIndex + 1) % n ∧
      (s.pool.loopIndex ∉ (s.server k).wheels → (s'.server k).failed = true) := by
  obtain ⟨pool, hp⟩ := h.exists_takes hn
  obtain ⟨-, -, hpool⟩ := h.takes hp
  have hio : s.ioLoop k = (some s.pool.loopIndex, pool) := by
    rw [WheelPool.ioLoop, h.size_eq, if_pos hn, hp]
  cases hx : s.server k with
  | mk home stage met failed =>
      rw [hx] at hk
      obtain rfl : stage = .listening := hk
      refine ⟨{ s with pool }.setServer k
        ⟨home, .listening, met, failed || s.pool.loopIndex ∉ (s.server k).wheels⟩, ?_, ?_,
        fun hout => ?_⟩
      · simp only [PoolWheelStep, exec, hx, hio]
      · simp [setServer, hpool]
      · rw [server_setServer_self, hx]
        simp [hout]

/-- The turn of a loop comes, if only this server goes on. -/
theorem exists_failing (h : Sound n home s) (hk : (s.server k).stage = .listening) (hn : 0 < n)
    (hloop : loop ∉ (s.server k).wheels) (d : Nat) (hd : (s.pool.loopIndex + d) % n = loop) :
    ∃ ls t, Run PoolWheelStep s ls t ∧ (t.server k).failed = true := by
  induction d generalizing s with
  | zero =>
      obtain ⟨s', hs, -, hfail⟩ := exists_newConnection h hk hn
      rw [Nat.add_zero, ← h.index] at hd
      exact ⟨_, s', .cons hs (.nil s'), hfail (hd ▸ hloop)⟩
  | succ d ih =>
      obtain ⟨s', hs, hindex, -⟩ := exists_newConnection h hk hn
      obtain ⟨hk', hwheels⟩ := wheels_step hk hs
      have hd' : (s'.pool.loopIndex + d) % n = loop := by
        rw [hindex, Nat.mod_add_mod, ← hd, Nat.add_assoc, Nat.add_comm 1 d]
      obtain ⟨ls, t, hr, hfail⟩ := ih (h.step hs) hk' (hwheels ▸ hloop) hd'
      exact ⟨_, t, .cons hs hr, hfail⟩

/-- **A connection finds its wheel.** Once a server listens, none of its
connections will ever be given to a loop without a wheel, whatever all the
servers do as long as the calls of `getNextLoop` do not overlap, exactly if
the server has met every loop of the pool but its own in `start`. -/
theorem wheel_found_iff {ls : List (PoolWheelAct S)} (hr : Run PoolWheelStep (.new n home) ls s)
    (hk : (s.server k).stage = .listening) :
    (∀ ls' t, Run PoolWheelStep s ls' t → (t.server k).failed = false) ↔
      ∀ loop < n, loop ≠ home k → loop ∈ (s.server k).met := by
  have hsound : Sound n home s := hr.invariant (fun _ _ _ h hs => h.step hs) (.new n home)
  have hwheels : ∀ loop, loop ∈ (s.server k).wheels ↔ loop = home k ∨ loop ∈ (s.server k).met := by
    intro loop
    rw [WheelServer.wheels, List.mem_cons, (hsound.server k).home_eq]
  constructor
  · intro hnever loop hl hhome
    by_contra hloop
    have hturn : (s.pool.loopIndex + (n - s.pool.loopIndex % n + loop)) % n = loop := by
      have hlt := Nat.mod_lt s.pool.loopIndex (show 0 < n by omega)
      rw [hsound.index, Nat.mod_mod, show s.pool.loopIndex % n +
        (n - s.pool.loopIndex % n + loop) = n + loop by omega, Nat.add_mod_left,
        Nat.mod_eq_of_lt hl]
    have hout : loop ∉ (s.server k).wheels := by
      rw [hwheels]
      exact not_or.mpr ⟨hhome, hloop⟩
    obtain ⟨ls', t, ht, hfail⟩ := exists_failing hsound hk (by omega) hout _ hturn
    rw [hnever ls' t ht] at hfail
    cases hfail
  · intro hcovers ls' t ht
    have hinv : Sound n home t ∧ (t.server k).stage = .listening ∧
        (t.server k).wheels = (s.server k).wheels := by
      refine ht.invariant (I := fun u => Sound n home u ∧ (u.server k).stage = .listening ∧
        (u.server k).wheels = (s.server k).wheels) (fun u a v hu hs => ?_) ⟨hsound, hk, rfl⟩
      obtain ⟨hst, hw⟩ := wheels_step hu.2.1 hs
      exact ⟨hu.1.step hs, hst, hw.trans hu.2.2⟩
    rw [Bool.eq_false_iff]
    intro hfail
    obtain ⟨-, loop, hl, hout⟩ := (hinv.1.server k).failed hfail
    rw [hinv.2.2, hwheels] at hout
    exact hout (or_iff_not_imp_left.mpr (hcovers loop hl))

/-- A server on the first loop of its pool. Somebody takes a loop before it
goes round and once more on its way, so that it meets the second loop twice. -/
def startHome : List (PoolWheelAct Unit) :=
  [.start (), .serveDialer, .visit (), .serveDialer, .visit (), .listen ()]

/-- On the loop that it has not met it has a wheel all the same. -/
theorem wheel_found_startHome : ∃ s, Run PoolWheelStep (.new 2 fun _ => 0) startHome s ∧
    (s.server ()).met = [1, 1] ∧
      ∀ ls t, Run PoolWheelStep s ls t → (t.server ()).failed = false := by
  obtain ⟨s, hr, hs⟩ := Run.exists_of_foldlM exec (.new 2 fun _ => 0) startHome
    (fun s => decide (s.server () = ⟨0, .listening, [1, 1], false⟩)) (by decide)
  have hserver := of_decide_eq_true hs
  refine ⟨s, hr, by rw [hserver], (wheel_found_iff hr (by rw [hserver])).mpr ?_⟩
  rw [hserver]
  decide

/-! ### A start that nobody interferes with -/

/-- The server has met some of the loops and not all. -/
def Between (x : WheelServer) : Prop := x.met ≠ [] ∧ ∃ loopNum, x.stage = .starting (loopNum + 1)

/-- Nobody else uses the pool while a server goes round it. -/
def Alone (s : WheelPool S) : PoolWheelAct S → Prop
  | .visit k | .newConnection k => ∀ j ≠ k, ¬ Between (s.server j)
  | .serveDialer => ∀ j, ¬ Between (s.server j)
  | _ => True

omit [DecidableEq S] in
/-- As many rounds as loops: if no loop was met twice, all of them were met. -/
theorem covers_of_nodup {met : List Nat} (hlt : ∀ loop ∈ met, loop < n) (hlen : met.length = n)
    (hnodup : met.Nodup) : ∀ loop < n, loop ∈ met := by
  have hsub : met.toFinset ⊆ Finset.range n := fun loop hl =>
    Finset.mem_range.mpr (hlt loop (List.mem_toFinset.mp hl))
  have heq : met.toFinset = Finset.range n := by
    refine Finset.eq_of_subset_of_card_le hsub ?_
    rw [Finset.card_range, List.toFinset_card_of_nodup hnodup, hlen]
  intro loop hl
  exact List.mem_toFinset.mp (heq ▸ Finset.mem_range.mpr hl)

/-- The loops from `first` on. -/
def turnsFrom (n first len : Nat) : List Nat := (List.range len).map fun i => (first + i) % n

theorem turnsFrom_nodup {first len : Nat} (hlen : len ≤ n) : (turnsFrom n first len).Nodup := by
  refine List.Nodup.map_on (fun i hi j hj heq => ?_) List.nodup_range
  rw [List.mem_range] at hi hj
  have hmod : i ≡ j [MOD n] := Nat.ModEq.add_left_cancel' first heq
  exact hmod.eq_of_lt_of_lt (by omega) (by omega)

theorem turnsFrom_succ (n first len : Nat) :
    turnsFrom n first (len + 1) = turnsFrom n first len ++ [(first + len) % n] := by
  rw [turnsFrom, List.range_succ, List.map_append]
  rfl

/-- A server has met loops in a row; on the way, the next one is next. -/
def InRow (n index : Nat) (x : WheelServer) : Prop :=
  ∃ first, x.met = turnsFrom n first x.met.length ∧
    (Between x → index = (first + x.met.length) % n)

theorem InRow.of_not_between {index index' : Nat} {x y : WheelServer} (h : InRow n index x)
    (hw : y.met = x.met) (hy : ¬ Between y) : InRow n index' y := by
  obtain ⟨first, hrow, -⟩ := h
  exact ⟨first, by rw [hw, ← hrow], fun hb => absurd hb hy⟩

theorem InRow.visit {index own loopNum : Nat} {met : List Nat} {failed : Bool}
    (h : InRow n index ⟨own, .starting (loopNum + 1), met, failed⟩) (hindex : index = index % n) :
    InRow n ((index + 1) % n) ⟨own, .starting loopNum, met ++ [index], failed⟩ := by
  obtain ⟨first, hrow, hnext⟩ := h
  by_cases hnil : met = []
  · subst hnil
    exact ⟨index, by simpa [turnsFrom] using hindex, fun _ => by simp⟩
  · have heq : index = (first + met.length) % n := hnext ⟨hnil, loopNum, rfl⟩
    refine ⟨first, ?_, fun _ => ?_⟩
    · simp only [List.length_append, List.length_singleton] at hrow ⊢
      rw [turnsFrom_succ, ← hrow, ← heq]
    · rw [heq, Nat.mod_add_mod, List.length_append, List.length_singleton, Nat.add_assoc]

structure Rows (n : Nat) (home : S → Nat) (s : WheelPool S) : Prop where
  sound : Sound n home s
  row : ∀ k, InRow n s.pool.loopIndex (s.server k)

theorem Rows.step (h : Rows n home s) (hC : s.Alone a) (hs : PoolWheelStep s a s') :
    Rows n home s' := by
  refine ⟨h.sound.step hs, fun j => ?_⟩
  have hj := h.row j
  cases effect_of_step hs with
  | @start k _ met failed hk =>
      by_cases hjk : j = k
      · subst hjk
        have hnil := (h.sound.server j).created (by rw [hk])
        rw [server_setServer_self]
        refine hj.of_not_between (by rw [hk]) fun hb => hb.1 ?_
        rwa [hk] at hnil
      · rwa [server_setServer_of_ne s hjk]
  | @visit k _ loopNum loop met failed pool hk hp =>
      obtain ⟨-, rfl, rfl⟩ := h.sound.takes hp
      by_cases hjk : j = k
      · subst hjk
        rw [server_setServer_self]
        rw [hk] at hj
        exact hj.visit h.sound.index
      · rw [server_setServer_of_ne _ hjk]
        exact hj.of_not_between rfl (hC j hjk)
  | @listen k _ met failed hk =>
      by_cases hjk : j = k
      · subst hjk
        rw [server_setServer_self]
        refine hj.of_not_between (by rw [hk]) ?_
        rintro ⟨-, loopNum, ⟨⟩⟩
      · rwa [server_setServer_of_ne s hjk]
  | @newConnection k _ loop met failed pool hk hp =>
      by_cases hjk : j = k
      · subst hjk
        rw [server_setServer_self]
        refine hj.of_not_between (by rw [hk]) ?_
        rintro ⟨-, loopNum, ⟨⟩⟩
      · rw [server_setServer_of_ne _ hjk]
        exact hj.of_not_between rfl (hC j hjk)
  | serveDialer hp => exact hj.of_not_between rfl (hC j)

/-- **A start that nobody interferes with.** If the calls of `getNextLoop` do
not overlap and the pool is used by nobody else while a server goes round
it, every server that listens has met each loop of the pool, and every
connection has been given to a loop with a wheel. -/
theorem wheels_of_start {ls : List (PoolWheelAct S)}
    (hr : Run (Guarded PoolWheelStep Alone) (.new n home) ls s) (k : S) :
    (s.server k).failed = false ∧
      ((s.server k).stage = .listening → ∀ loop < n, loop ∈ (s.server k).met) := by
  have hrows : Rows n home s := by
    refine hr.invariant (fun _ _ _ h hs => h.step hs.2 hs.1) ⟨.new n home, fun _ => ⟨0, rfl, ?_⟩⟩
    rintro ⟨-, loopNum, ⟨⟩⟩
  have hx := hrows.sound.server k
  have hcovers : (s.server k).stage = .listening → ∀ loop < n, loop ∈ (s.server k).met := by
    intro hk
    obtain ⟨first, hrow, -⟩ := hrows.row k
    refine covers_of_nodup hx.lt (hx.listening hk) ?_
    rw [hrow]
    exact turnsFrom_nodup (hx.listening hk).le
  refine ⟨Bool.eq_false_iff.mpr fun hfail => ?_, hcovers⟩
  obtain ⟨hk, loop, hl, hout⟩ := hx.failed hfail
  exact hout (List.mem_cons_of_mem _ (hcovers hk loop hl))

/-- A server that starts on a pool of two loops; its own loop is another one. -/
def startTwo : List (PoolWheelAct Unit) := [.start (), .visit (), .visit (), .listen ()]

theorem wheels_of_startTwo :
    ∃ s, Run (Guarded PoolWheelStep Alone) (.new 2 fun _ => 2) startTwo s ∧
      (s.server ()).stage = .listening ∧ ∀ loop < 2, loop ∈ (s.server ()).met := by
  obtain ⟨s, hr, hs⟩ := Run.exists_of_foldlM exec (.new 2 fun _ => 2) startTwo
    (fun s => decide ((s.server ()).stage = .listening)) (by decide)
  have halone : EveryStep PoolWheelStep Alone (.new 2 fun _ => 2) startTwo :=
    everyStep_of_labels (by simp [startTwo, Alone])
  have hguard := halone.guarded List.prefix_rfl hr
  have hlisten := of_decide_eq_true hs
  exact ⟨s, hguard, hlisten, (wheels_of_start hguard ()).2 hlisten⟩

end WheelPool

end Netpoll
