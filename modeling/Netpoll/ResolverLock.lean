import Netpoll.Mutex
import Netpoll.Resolver

/-!
# The resolver's mutex and its callbacks

`globalMutex()` is not recursive, and `resolve` calls the callback in four
places: both lookups call it inside the scope of their `lock_guard`, the
two calls after `getaddrinfo` are outside. A callback that calls `resolve`
again therefore waits for its own thread if it was called by a lookup
(`SelfLocked`), and for ever: nobody else can release the mutex. From the
other two places it goes through.

What carries a run is how many frames of each thread are in the scope of
the lock (`depth`): one on the owner's stack, none elsewhere (`Held`).
That is so in every run. As long as no callback of a lookup calls
`resolve`, that frame is moreover the innermost one (`Shallow`), so the
owner never waits for the mutex.
-/

namespace Netpoll

namespace Resolvers

variable {T A : Type}

/-- `x` waits for the mutex. -/
def waits (s : Resolvers T A) (x : Option T) : Bool :=
  match s.frames x with
  | [] => false
  | f :: _ => f.locked.isSome

/-- `x` tries to lock the mutex while it has it. -/
def SelfLocked (s : Resolvers T A) (x : Option T) : Prop := s.owner = some x ∧ s.waits x = true

/-- `x` is in a callback that a lookup called. -/
def inCached (s : Resolvers T A) (x : Option T) : Bool :=
  match s.frames x with
  | .cached :: _ => true
  | _ => false

/-- The step is no call of `resolve` by a callback that a lookup called. -/
def callsOutside (s : Resolvers T A) : ResolveAct T A → Bool
  | .call x _ => !s.inCached x
  | _ => true

/-- The number of calls of `x` that are in the scope of the lock. -/
def depth (s : Resolvers T A) (x : Option T) : Nat := (s.frames x).countP (·.holds)

/-- Only the innermost call may be in the scope of the lock. -/
def Shallow (frames : List (ResolveFrame A)) : Prop := ∀ f ∈ frames.tail, f.holds = false

theorem holds_of_locked {f g : ResolveFrame A} (h : f.locked = some g) :
    f.holds = false ∧ g.holds = true := by
  cases f <;> simp [ResolveFrame.locked] at h <;> subst h <;> exact ⟨rfl, rfl⟩

theorem depth_of_frames {s : Resolvers T A} {x : Option T} {f : ResolveFrame A}
    {rest : List (ResolveFrame A)} (hf : s.frames x = f :: rest) :
    s.depth x = rest.countP (·.holds) + if f.holds then 1 else 0 := by
  rw [depth, hf, List.countP_cons]

theorem Shallow.rest {f : ResolveFrame A} {rest : List (ResolveFrame A)}
    (h : Shallow (f :: rest)) : Shallow rest :=
  fun g hg => h g (List.mem_of_mem_tail hg)

theorem frames_of_inCached {s : Resolvers T A} {x : Option T} (h : s.inCached x = true) :
    ∃ rest, s.frames x = .cached :: rest := by
  unfold inCached at h
  split at h
  next rest hf => exact ⟨rest, hf⟩
  · cases h

theorem frames_of_waits {s : Resolvers T A} {x : Option T} (h : s.waits x = true) :
    ∃ f g rest, s.frames x = f :: rest ∧ f.locked = some g := by
  unfold waits at h
  split at h
  · cases h
  next f rest hf =>
      obtain ⟨g, hg⟩ := Option.isSome_iff_exists.mp h
      exact ⟨f, g, rest, hf, hg⟩

/-- User code outside of the callbacks of lookups is not in the scope of the lock. -/
theorem holds_of_userCode {s : Resolvers T A} {x : Option T} (h : s.userCode x = true)
    (hout : s.inCached x = false) : ∀ f ∈ (s.frames x).head?, f.holds = false := by
  intro f hf
  obtain ⟨rest, hrest⟩ := List.head?_eq_some_iff.mp hf
  simp only [userCode, hrest] at h
  simp only [inCached, hrest] at hout
  cases f with
  | cached => exact absurd hout.symm Bool.false_ne_true
  | failed | answered => rfl
  | _ => cases h

variable [DecidableEq T]

theorem depth_setFrames (s : Resolvers T A) (x : Option T) (fs : List (ResolveFrame A)) :
    (s.setFrames x fs).depth = Function.update s.depth x (fs.countP (·.holds)) := by
  funext y
  by_cases hy : y = x
  · subst hy
    simp [depth, setFrames]
  · simp [depth, setFrames, hy]

theorem shallow_setFrames {s : Resolvers T A} {x : Option T} {fs : List (ResolveFrame A)}
    (h : ∀ y, Shallow (s.frames y)) (hfs : Shallow fs) (y : Option T) :
    Shallow ((s.setFrames x fs).frames y) := by
  by_cases hy : y = x
  · subst hy
    rwa [setFrames_self]
  · rw [setFrames_of_ne hy]
    exact h y

/-! ## What the steps do to the lock -/

variable {s t : Resolvers T A} {x : Option T} {f g : ResolveFrame A}
  {rest fs : List (ResolveFrame A)}

theorem held_replace (h : Held s.owner s.depth) (hf : s.frames x = f :: rest)
    (hg : g.holds = f.holds) : Held s.owner (s.setFrames x (g :: rest)).depth := by
  rw [depth_setFrames]
  refine h.goOn ?_
  rw [depth_of_frames hf, List.countP_cons, hg]

theorem held_pop (h : Held s.owner s.depth) (hf : s.frames x = f :: rest)
    (hout : f.holds = false) : Held s.owner (s.setFrames x rest).depth := by
  rw [depth_setFrames]
  refine h.goOn ?_
  rw [depth_of_frames hf, hout]
  rfl

theorem held_release (h : Held s.owner s.depth) (hf : s.frames x = f :: rest)
    (hin : f.holds = true) (hfs : fs.countP (·.holds) = rest.countP (·.holds)) :
    Held none (s.setFrames x fs).depth := by
  rw [depth_setFrames]
  refine h.release ?_
  rw [depth_of_frames hf, hin, hfs]
  rfl

theorem held_lookup {r : Request} {key : List Byte} {next : ResolveFrame A}
    (h : Held s.owner s.depth) (hf : s.frames x = f :: rest) (hin : f.holds = true)
    (hnext : next.holds = false) (he : LookupEffect s x r key next rest t) :
    Held t.owner t.depth := by
  cases he with
  | hit hc => exact held_replace h hf hin.symm
  | miss => exact held_release h hf hin (by rw [List.countP_cons, hnext]; rfl)

theorem shallow_replace (h : ∀ y, Shallow (s.frames y)) (hf : s.frames x = f :: rest)
    (y : Option T) : Shallow ((s.setFrames x (g :: rest)).frames y) :=
  have hrest : Shallow (f :: rest) := hf ▸ h x
  shallow_setFrames h (show Shallow (g :: rest) from hrest) y

theorem shallow_pop (h : ∀ y, Shallow (s.frames y)) (hf : s.frames x = f :: rest)
    (y : Option T) : Shallow ((s.setFrames x rest).frames y) :=
  have hrest : Shallow (f :: rest) := hf ▸ h x
  shallow_setFrames h hrest.rest y

theorem shallow_lookup {r : Request} {key : List Byte} {next : ResolveFrame A}
    (h : ∀ y, Shallow (s.frames y)) (hf : s.frames x = f :: rest)
    (he : LookupEffect s x r key next rest t) (y : Option T) : Shallow (t.frames y) := by
  cases he with
  | hit hc => exact shallow_replace h hf y
  | miss => exact shallow_replace h hf y

variable [Inhabited A] {a : ResolveAct T A}

omit [DecidableEq T] [Inhabited A] in
theorem callback_frame_holds (r : Request) (addr : A) (b : Bool) :
    (if b then ResolveFrame.answered r addr else .failed).holds = false := by
  cases b <;> rfl

/-- The mutex belongs to the one call that is in its scope, whatever the callbacks do. -/
theorem held_step (h : Held s.owner s.depth) (hs : ResolveStep s a t) :
    Held t.owner t.depth := by
  cases effect_of_step hs with
  | @call x r _ =>
      change Held s.owner (s.setFrames x (.lock r :: s.frames x)).depth
      rw [depth_setFrames]
      exact h.goOn (List.countP_cons_of_neg Bool.false_ne_true)
  | retCached hf => exact held_release h hf rfl rfl
  | retFailed hf => exact held_pop h hf rfl
  | retAnswered hf => exact held_replace h hf rfl
  | @take r _ hf _ =>
      change Held s.owner (s.setFrames none [.taskLock r]).depth
      rw [depth_setFrames]
      exact h.goOn (by rw [depth, hf]; rfl)
  | @lock x f g rest hf hg ho =>
      obtain ⟨hout, hin⟩ := holds_of_locked hg
      change Held (some x) (s.setFrames x (g :: rest)).depth
      rw [depth_setFrames]
      rw [ho] at h
      refine h.acquire ?_
      rw [depth_of_frames hf, List.countP_cons, hout, hin]
      rfl
  | overrun => exact h
  | lookup hf _ he => exact held_lookup h hf rfl rfl he
  | runTask hf => exact held_pop h hf rfl
  | taskLookup hf he => exact held_lookup h hf rfl rfl he
  | store hf => exact held_release h hf rfl rfl
  | answer hf => exact held_replace h hf (callback_frame_holds _ _ _)

theorem shallow_step (h : ∀ y, Shallow (s.frames y)) (hout : s.callsOutside a = true)
    (hs : ResolveStep s a t) (y : Option T) : Shallow (t.frames y) := by
  cases effect_of_step hs with
  | @call x r hx =>
      refine shallow_setFrames h ?_ y
      intro f hf
      cases hfr : s.frames x with
      | nil => simp [hfr] at hf
      | cons g rest =>
          have hin : s.inCached x = false := by simpa [callsOutside] using hout
          have hg : g.holds = false := holds_of_userCode hx hin g (by simp [hfr])
          rw [List.tail_cons, hfr] at hf
          rcases List.mem_cons.mp hf with rfl | hf
          · exact hg
          · exact h x f (by rwa [hfr])
  | retCached hf => exact shallow_pop h hf y
  | retFailed hf => exact shallow_pop h hf y
  | retAnswered hf => exact shallow_replace h hf y
  | take => exact shallow_setFrames h (fun _ hf => absurd hf List.not_mem_nil) y
  | lock hf _ _ => exact shallow_replace h hf y
  | overrun => exact h y
  | lookup hf _ he => exact shallow_lookup h hf he y
  | runTask hf => exact shallow_pop h hf y
  | taskLookup hf he => exact shallow_lookup h hf he y
  | store hf => exact shallow_pop h hf y
  | answer hf => exact shallow_replace h hf y

/-! ## Waiting for oneself -/

omit [Inhabited A] in
theorem not_selfLocked (h : Held s.owner s.depth) (hsh : ∀ y, Shallow (s.frames y)) :
    ¬ s.SelfLocked x := by
  rintro ⟨ho, hw⟩
  obtain ⟨f, g, rest, hf, hg⟩ := frames_of_waits hw
  have hrest : rest.countP (·.holds) = 0 := by
    rw [List.countP_eq_zero]
    intro k hk
    have hk' : k.holds = false := hsh x k (by rw [hf]; exact hk)
    rw [hk']
    exact Bool.false_ne_true
  have hone : s.depth x = 1 := (ho ▸ h : Held (some x) s.depth).depth_owner
  rw [depth_of_frames hf, (holds_of_locked hg).1, hrest] at hone
  cases hone

theorem selfLocked_of_call {r : Request} (h : Held s.owner s.depth) (hin : s.inCached x = true)
    (hs : ResolveStep s (.call x r) t) : t.SelfLocked x := by
  obtain ⟨rest, hf⟩ := frames_of_inCached hin
  have ho : s.owner = some x := h.owner_of_pos (by rw [depth_of_frames hf]; exact Nat.succ_pos _)
  cases effect_of_step hs with
  | call _ => exact ⟨ho, by simp [waits, ResolveFrame.locked]⟩

omit [DecidableEq T] [Inhabited A] in
theorem SelfLocked.of_eq (h : s.SelfLocked x) (ho : t.owner = s.owner)
    (hf : t.frames x = s.frames x) : t.SelfLocked x ∧ t.frames x = s.frames x := by
  have hw : t.waits x = s.waits x := by rw [waits, waits, hf]
  exact ⟨⟨ho.trans h.1, hw.trans h.2⟩, hf⟩

omit [DecidableEq T] [Inhabited A] in
theorem SelfLocked.ne {y : Option T} (h : s.SelfLocked x) (hf : s.frames y = f :: rest)
    (hl : f.locked = none) : x ≠ y := by
  rintro rfl
  obtain ⟨f', g, rest', hf', hg⟩ := frames_of_waits h.2
  rw [hf] at hf'
  obtain ⟨rfl, -⟩ := List.cons.inj hf'
  rw [hl] at hg
  cases hg

omit [Inhabited A] in
/-- The call that has the mutex is buried, so no thread can release it. -/
theorem SelfLocked.holds_top {y : Option T} (h : s.SelfLocked x) (hheld : Held s.owner s.depth)
    (hf : s.frames y = f :: rest) : f.holds = false := by
  by_contra hin
  rw [Bool.not_eq_false] at hin
  have ho : s.owner = some y :=
    hheld.owner_of_pos (by rw [depth_of_frames hf, hin]; exact Nat.succ_pos _)
  have hl : f.locked = none := by
    cases f with
    | lock | taskLock | storeLock => cases hin
    | _ => rfl
  exact h.ne hf hl (Option.some.inj (h.1.symm.trans ho))

theorem SelfLocked.step (h : s.SelfLocked x) (hheld : Held s.owner s.depth)
    (hs : ResolveStep s a t) : t.SelfLocked x ∧ t.frames x = s.frames x := by
  cases effect_of_step hs with
  | @call y r hy =>
      have hne : x ≠ y := by
        rintro rfl
        obtain ⟨f, g, rest, hf, hg⟩ := frames_of_waits h.2
        rw [userCode, hf] at hy
        cases f with
        | cached | failed | answered => cases hg
        | _ => cases hy
      exact h.of_eq rfl (setFrames_of_ne hne)
  | retCached hf => exact nomatch h.holds_top hheld hf
  | retFailed hf => exact h.of_eq rfl (setFrames_of_ne (h.ne hf rfl))
  | retAnswered hf => exact h.of_eq rfl (setFrames_of_ne (h.ne hf rfl))
  | take hf _ =>
      have hne : x ≠ none := by
        rintro rfl
        have hw := h.2
        rw [waits, hf] at hw
        cases hw
      exact h.of_eq rfl (setFrames_of_ne hne)
  | lock _ _ ho => exact nomatch h.1.symm.trans ho
  | overrun hf _ => exact nomatch h.holds_top hheld hf
  | lookup hf _ _ => exact nomatch h.holds_top hheld hf
  | runTask hf => exact h.of_eq rfl (setFrames_of_ne (h.ne hf rfl))
  | taskLookup hf _ => exact nomatch h.holds_top hheld hf
  | store hf => exact nomatch h.holds_top hheld hf
  | answer hf => exact h.of_eq rfl (setFrames_of_ne (h.ne hf rfl))

omit [Inhabited A] in
theorem held_new (cache : List Byte → Option (A × Int)) :
    Held (new (T := T) cache).owner (new (T := T) cache).depth :=
  fun _ => rfl

end Resolvers

open Resolvers

/-- No thread ever waits for a mutex that it has exactly if no callback that
a lookup called calls `resolve`. A thread that does wait for itself stays
where it is, with the mutex. -/
theorem resolve_again_iff {T A : Type} [DecidableEq T] [Inhabited A]
    (cache : List Byte → Option (A × Int)) (acts : List (ResolveAct T A)) :
    (Throughout ResolveStep (fun s => ∀ x, ¬ s.SelfLocked x) (new cache) acts ↔
      EveryStep ResolveStep (fun s a => s.callsOutside a = true) (new cache) acts) ∧
    ∀ s x, Run ResolveStep (new cache) acts s → s.SelfLocked x →
      ∀ later t, Run ResolveStep s later t → t.SelfLocked x ∧ t.frames x = s.frames x := by
  constructor
  · refine throughout_iff_everyStep
      (I := fun s => Held s.owner s.depth ∧ ∀ y, Shallow (s.frames y))
      ⟨held_new cache, fun _ _ hf => absurd hf List.not_mem_nil⟩ ?_ ?_ ?_
    · intro s a t h hout hs
      exact ⟨held_step h.1 hs, shallow_step h.2 hout hs⟩
    · intro s h x
      exact not_selfLocked h.1 h.2
    · intro s a t h hin hs hno
      cases a with
      | call x r => exact hno x (selfLocked_of_call h.1 (by simpa [callsOutside] using hin) hs)
      | _ => exact hin rfl
  · intro s x hrun hself later t hlater
    have hheld : Held s.owner s.depth :=
      hrun.invariant (fun _ _ _ h hs => held_step h hs) (held_new cache)
    have hinv := hlater.invariant
      (I := fun u => Held u.owner u.depth ∧ u.SelfLocked x ∧ u.frames x = s.frames x)
      (fun u a v h hs => by
        obtain ⟨hu, hself', hf⟩ := h
        obtain ⟨hv, hf'⟩ := hself'.step hu hs
        exact ⟨held_step hu hs, hv, hf'.trans hf⟩) ⟨hheld, hself, rfl⟩
    exact hinv.2

/-- A request for a name of one character, by a resolver without timeout. -/
def shortRequest : Request := ⟨⟨[97], [0]⟩, 0⟩

/-- A thread asks for a name that is not cached, up to the callback. -/
def askUncached : List (ResolveAct Unit Nat) :=
  [.call (some ()) shortRequest, .lock (some ()), .step (some ()) 0, .step (some ()) 0,
    .take, .lock none, .step none 0, .answer (some (.inet 7))]

/-- The callback of a new answer asks again, before the answer is stored. -/
def askAgain : List (ResolveAct Unit Nat) :=
  askUncached ++ [.call none shortRequest, .lock none, .step none 0, .step none 0, .ret none,
    .lock none, .step none 0]

theorem resolve_again_uncached :
    Throughout ResolveStep (fun s => ∀ x, ¬ s.SelfLocked x) (new fun _ => none) askAgain ∧
      ∃ s, Run ResolveStep (new fun _ => none) askAgain s :=
  ⟨(resolve_again_iff (fun _ => none) askAgain).1.mpr (everyStep_of_stepsMeet (f := exec) rfl),
    _, Run.of_foldlM (f := exec) rfl⟩

/-- The callback of a cached answer asks again. -/
def askAgainCached : List (ResolveAct Unit Nat) :=
  askUncached ++ [.ret none, .lock none, .step none 0, .call (some ()) shortRequest,
    .lock (some ()), .step (some ()) 0, .call (some ()) shortRequest]

theorem resolve_again_cached_locks :
    ∃ s, Run ResolveStep (new fun _ => none) askAgainCached s ∧ s.SelfLocked (some ()) :=
  ⟨_, Run.of_foldlM (f := exec) rfl, rfl, rfl⟩

end Netpoll
