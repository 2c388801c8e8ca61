import Netpoll.Resolver

/-!
# The resolver answers for the name that was asked

An address may reach a callback from either lookup or from `getaddrinfo`,
and the cache is filled by all resolvers. The property over whole runs from
the empty cache is `Answers`: each address passed to a callback is what
`getaddrinfo` returned for the characters of that call's view, a call looks
up one key, and no lookup reads past the object behind its view.

It holds for the views that have a NUL right behind them and none inside
(`HostView.Exact`), and only for those. `Sound` is the invariant: the cache
maps a name to an address that was returned for it, and so do the calls that
still have an address to store. Any other view is looked up under another
key than the one it is stored under, so that a call gets the address of the
longer, or shorter, name once that is cached.
-/

namespace Netpoll

namespace Resolvers

variable {T A : Type}

/-- All calls of `resolve` are for views in `allowed`. -/
def AsksOnly (allowed : HostView → Prop) (acts : List (ResolveAct T A)) : Prop :=
  ∀ x r, ResolveAct.call x r ∈ acts → allowed r.host

variable [Inhabited A]

/-- The address is that of a result of `getaddrinfo` for the name. -/
def Returned (s : Resolvers T A) (name : List Byte) (addr : A) : Prop :=
  ∃ result, (name, result) ∈ s.resolved ∧ AddrInfo.address result = addr

/-- Each callback got an address that was returned for the view's characters. -/
def AnswersMatch (s : Resolvers T A) : Prop := ∀ p ∈ s.answers, s.Returned p.1.chars p.2

structure Answers (s : Resolvers T A) : Prop where
  answers : s.AnswersMatch
  /-- The two lookups of a view use the same key. -/
  oneKey : ∀ v key key', (v, key) ∈ s.lookups → (v, key') ∈ s.lookups → key = key'
  fault : s.fault = false

end Resolvers

/-! ## Exact views -/

/-- The call is for an exact view, and its address was returned for the name. -/
def ResolveFrame.Sound {A : Type} (returned : List Byte → A → Prop) : ResolveFrame A → Prop
  | .lock r | .lookup r | .runTask r | .taskLock r | .taskLookup r | .resolving r => r.host.Exact
  | .answered r addr | .storeLock r addr | .store r addr => r.host.Exact ∧ returned r.name addr
  | .cached | .failed => True

theorem ResolveFrame.Sound.mono {A : Type} {P Q : List Byte → A → Prop} {f : ResolveFrame A}
    (h : f.Sound P) (hPQ : ∀ name addr, P name addr → Q name addr) : f.Sound Q := by
  cases f with
  | answered | storeLock | store => exact h.imp_right (hPQ _ _)
  | _ => exact h

theorem ResolveFrame.Sound.locked {A : Type} {P : List Byte → A → Prop} {f g : ResolveFrame A}
    (h : f.Sound P) (hg : f.locked = some g) : g.Sound P := by
  cases f with
  | lock | taskLock | storeLock => cases hg; exact h
  | _ => cases hg

namespace Resolvers

variable {T A : Type} [Inhabited A]

structure Sound (s : Resolvers T A) : Prop where
  cache : ∀ key addr time, s.cache key = some (addr, time) → s.Returned key addr
  frames : ∀ x, ∀ f ∈ s.frames x, f.Sound s.Returned
  tasks : ∀ r ∈ s.tasks, r.host.Exact
  lookups : ∀ p ∈ s.lookups, p.2 = p.1.chars
  answers : s.AnswersMatch
  fault : s.fault = false

theorem Sound.toAnswers {s : Resolvers T A} (h : Sound s) : Answers s where
  answers := h.answers
  oneKey _ _ _ hk hk' := (h.lookups _ hk).trans (h.lookups _ hk').symm
  fault := h.fault

theorem sound_new : Sound (new (T := T) (A := A) fun _ => none) where
  cache _ _ _ h := nomatch h
  frames _ _ hf := absurd hf List.not_mem_nil
  tasks _ hr := absurd hr List.not_mem_nil
  lookups _ hp := absurd hp List.not_mem_nil
  answers _ hp := absurd hp List.not_mem_nil
  fault := rfl

variable {s t : Resolvers T A} {x : Option T} {f g : ResolveFrame A}
  {rest fs : List (ResolveFrame A)}

theorem Sound.top (h : Sound s) (hf : s.frames x = f :: rest) : f.Sound s.Returned :=
  h.frames x f (hf ▸ List.mem_cons_self)

variable [DecidableEq T]

theorem Sound.setFrames (h : Sound s) (hfs : ∀ f ∈ fs, f.Sound s.Returned) :
    Sound (s.setFrames x fs) :=
  { h with
    frames := fun y f hf => by
      by_cases hy : y = x
      · subst hy
        rw [setFrames_self] at hf
        exact hfs f hf
      · rw [setFrames_of_ne hy] at hf
        exact h.frames y f hf }

theorem Sound.pop (h : Sound s) (hf : s.frames x = f :: rest) : Sound (s.setFrames x rest) :=
  h.setFrames fun k hk => h.frames x k (hf ▸ List.mem_cons_of_mem f hk)

theorem Sound.replace (h : Sound s) (hf : s.frames x = f :: rest) (hg : g.Sound s.Returned) :
    Sound (s.setFrames x (g :: rest)) :=
  h.setFrames fun k hk => by
    rcases List.mem_cons.mp hk with rfl | hk
    · exact hg
    · exact h.frames x k (hf ▸ List.mem_cons_of_mem f hk)

theorem Sound.lookup {r : Request} {next : ResolveFrame A} (h : Sound s)
    (hf : s.frames x = f :: rest) (hnext : next.Sound s.Returned)
    (he : LookupEffect s x r r.host.chars next rest t) : Sound t := by
  have hkeys : ∀ p ∈ s.lookups ++ [(r.host, r.host.chars)], p.2 = p.1.chars := by
    intro p hp
    rcases List.mem_append.mp hp with hp | hp
    · exact h.lookups p hp
    · rw [List.mem_singleton.mp hp]
  cases he with
  | @hit addr time hc =>
      have ht : Sound (s.setFrames x (.cached :: rest)) := h.replace hf trivial
      refine { ht with lookups := hkeys, answers := fun p hp => ?_ }
      rcases List.mem_append.mp hp with hp | hp
      · exact h.answers p hp
      · rw [List.mem_singleton.mp hp]
        exact h.cache _ _ _ hc
  | miss =>
      have ht : Sound (s.setFrames x (next :: rest)) := h.replace hf hnext
      exact { ht with lookups := hkeys }

omit [DecidableEq T] in
theorem Sound.log (h : Sound s) (p : List Byte × Option (AddrInfo A)) :
    Sound { s with resolved := s.resolved ++ [p] } := by
  have hmono : ∀ name addr, s.Returned name addr →
      Returned { s with resolved := s.resolved ++ [p] } name addr :=
    fun _ _ ⟨result, hmem, haddr⟩ => ⟨result, List.mem_append_left _ hmem, haddr⟩
  exact { h with
    cache := fun key addr time hc => hmono key addr (h.cache key addr time hc)
    frames := fun x f hf => (h.frames x f hf).mono hmono
    answers := fun q hq => hmono _ _ (h.answers q hq) }

theorem Sound.callback {r : Request} (h : Sound s) (hf : s.frames none = .resolving r :: rest)
    (result : Option (AddrInfo A)) : Sound (s.callback r rest result) := by
  have hr : r.host.Exact := h.top hf
  let u : Resolvers T A := { s with resolved := s.resolved ++ [(cStr r.name, result)] }
  have hu : Sound u := h.log (cStr r.name, result)
  have hnew : u.Returned r.host.chars (AddrInfo.address result) := by
    refine ⟨result, List.mem_append_right _ ?_, rfl⟩
    rw [Request.name, cStr_eq_self hr.1]
    exact List.mem_singleton_self _
  have hframe : (if result.isSome then ResolveFrame.answered r (AddrInfo.address result)
      else .failed).Sound u.Returned := by
    split
    · exact ⟨hr, hnew⟩
    · trivial
  refine { hu.replace hf hframe with answers := fun p hp => ?_ }
  rcases List.mem_append.mp hp with hp | hp
  · exact hu.answers p hp
  · rw [List.mem_singleton.mp hp]
    exact hnew

theorem Sound.store {r : Request} {addr : A} {now : Int} (h : Sound s)
    (hf : s.frames x = .store r addr :: rest) :
    Sound { s.setFrames x rest with
      owner := none
      cache := Function.update s.cache r.name (some (addr, now)) } := by
  have ht : Sound (s.setFrames x rest) := h.pop hf
  refine { ht with cache := fun key addr' time hc => ?_ }
  by_cases hkey : key = r.name
  · subst hkey
    have heq : some (addr, now) = some (addr', time) := by simpa using hc
    obtain ⟨rfl, -⟩ := Prod.mk.inj (Option.some.inj heq)
    exact (h.top hf).2
  · exact h.cache key addr' time (by simpa [hkey] using hc)

variable {a : ResolveAct T A}

theorem Sound.step (h : Sound s) (ha : ∀ x r, a = .call x r → r.host.Exact)
    (hs : ResolveStep s a t) : Sound t := by
  cases effect_of_step hs with
  | @call x r _ =>
      refine h.setFrames fun k hk => ?_
      rcases List.mem_cons.mp hk with rfl | hk
      · exact ha x r rfl
      · exact h.frames x k hk
  | retCached hf => exact { h.pop hf with }
  | retFailed hf => exact h.pop hf
  | @retAnswered _ r addr _ hf =>
      have htop : r.host.Exact ∧ s.Returned r.name addr := h.top hf
      exact h.replace hf (show (ResolveFrame.storeLock r addr).Sound s.Returned from htop)
  | @take r tasks hf ht =>
      have hr : r.host.Exact := h.tasks r (ht ▸ List.mem_cons_self)
      have hframe : Sound (s.setFrames none [.taskLock r]) :=
        h.setFrames fun k hk => List.mem_singleton.mp hk ▸ hr
      exact { hframe with tasks := fun q hq => h.tasks q (ht ▸ List.mem_cons_of_mem r hq) }
  | lock hf hg _ => exact { h.replace hf ((h.top hf).locked hg) with }
  | @overrun _ _ r _ hf hk =>
      have hr : r.host.Exact := h.top hf
      rw [HostView.exact_iff, hk] at hr
      cases hr
  | @lookup _ _ r key _ _ hf hk he =>
      have hr : r.host.Exact := h.top hf
      obtain rfl : key = r.host.chars :=
        Option.some.inj (hk.symm.trans (HostView.exact_iff.mp hr))
      exact h.lookup hf (show (ResolveFrame.runTask r).Sound s.Returned from hr) he
  | @runTask x _ r _ hf =>
      have hr : r.host.Exact := h.top hf
      refine { h.pop hf with tasks := fun q hq => ?_ }
      rcases List.mem_append.mp hq with hq | hq
      · exact h.tasks q hq
      · rw [List.mem_singleton.mp hq]
        exact hr
  | @taskLookup _ _ r _ _ hf he =>
      have hr : r.host.Exact := h.top hf
      exact h.lookup hf (show (ResolveFrame.resolving r).Sound s.Returned from hr) he
  | store hf => exact h.store hf
  | answer hf => exact h.callback hf _

theorem throughout_answers {acts : List (ResolveAct T A)} (h : AsksOnly HostView.Exact acts) :
    Throughout ResolveStep Answers (new fun _ => none) acts := by
  intro pre t hpre hrun
  have hsound : Sound t :=
    hrun.invariant_of_labels (P := fun a => ∀ x r, a = .call x r → r.host.Exact)
      (fun _ _ _ ha h hs => h.step ha hs)
      (fun a ha x r heq => h x r (heq ▸ hpre.subset ha)) sound_new
  exact hsound.toAnswers

end Resolvers

/-! ## Other views -/

namespace Resolvers

variable {T A : Type}

/-- `x` calls `resolve`, up to the end of the first lookup. -/
def askActs (x : Option T) (r : Request) : List (ResolveAct T A) :=
  [.call x r, .lock x, .step x 0]

/-- The lookup misses; up to the end of the second one. -/
def missActs (x : Option T) (r : Request) : List (ResolveAct T A) :=
  askActs x r ++ [.step x 0, .take, .lock none, .step none 0]

/-- Both lookups miss and the name has the address; up to the store. -/
def storeActs (x : Option T) (r : Request) (addr : A) : List (ResolveAct T A) :=
  missActs x r ++ [.answer (some (.inet addr)), .ret none, .lock none, .step none 0]

/-- The state after the store. -/
def stored (r : Request) (key : List Byte) (addr : A) : Resolvers T A :=
  { new (T := T) (A := A) (Function.update (fun _ => none) r.name (some (addr, 0))) with
    lookups := [(r.host, key), (r.host, r.name)]
    resolved := [(cStr r.name, some (.inet addr))]
    answers := [(r.host, addr)] }

theorem asksOnly_store_ask {x : Option T} {q r : Request} {addr : A} {allowed : HostView → Prop}
    (hq : allowed q.host) (hr : allowed r.host) :
    AsksOnly allowed (storeActs x q addr ++ askActs x r) := by
  intro y p hp
  have hp' : (y = x ∧ p = q) ∨ (y = x ∧ p = r) := by
    simpa [storeActs, missActs, askActs] using hp
  rcases hp' with ⟨-, rfl⟩ | ⟨-, rfl⟩
  · exact hq
  · exact hr

variable [DecidableEq T] [Inhabited A]

theorem run_overrun (u : T) {r : Request} (hk : r.host.cString = none) :
    Run ResolveStep (new fun _ => none) (askActs (A := A) (some u) r)
      { new (T := T) (A := A) fun _ => none with
        owner := some (some u)
        frames := Function.update (fun _ => []) (some u) [.lookup r]
        fault := true } := by
  refine Run.of_foldlM (f := exec) ?_
  simp [askActs, exec, userCode, new, Resolvers.setFrames, ResolveFrame.locked, hk]

theorem run_miss (u : T) {r : Request} {key : List Byte} (hk : r.host.cString = some key) :
    Run ResolveStep (new fun _ => none) (missActs (A := A) (some u) r)
      { new (T := T) (A := A) fun _ => none with
        frames := Function.update (fun _ => []) none [.resolving r]
        lookups := [(r.host, key), (r.host, r.name)] } := by
  refine Run.of_foldlM (f := exec) ?_
  simp [missActs, askActs, exec, userCode, new, Resolvers.setFrames, ResolveFrame.locked, lookup,
    hk]

theorem run_stored (u : T) {r : Request} {key : List Byte} (addr : A)
    (hk : r.host.cString = some key) :
    Run ResolveStep (new fun _ => none) (storeActs (some u) r addr) (stored r key addr) := by
  refine (run_miss u hk).append (Run.of_foldlM (f := exec) ?_)
  simp [exec, new, stored, callback, Resolvers.setFrames, ResolveFrame.locked, AddrInfo.address]

theorem run_cached (u : T) {q r : Request} {key : List Byte} (addr : A)
    (hk : r.host.cString = some q.name) (h0 : r.timeout = 0) :
    Run ResolveStep (stored q key addr) (askActs (some u) r)
      { stored (T := T) q key addr with
        owner := some (some u)
        frames := Function.update (fun _ => []) (some u) [.cached]
        lookups := [(q.host, key), (q.host, q.name), (r.host, q.name)]
        answers := [(q.host, addr), (r.host, addr)] } := by
  refine Run.of_foldlM (f := exec) ?_
  simp [askActs, exec, userCode, new, stored, Resolvers.setFrames, ResolveFrame.locked, lookup, hk,
    Request.fresh, h0]

/-- A view whose key is another name gets the address of that name. -/
theorem answered_for_key (u : T) {v : HostView} {key : List Byte} (addr : A)
    (hk : v.cString = some key) (hne : key ≠ v.chars) :
    ∃ (acts : List (ResolveAct T A)) (s : Resolvers T A),
      AsksOnly (fun w => w = v ∨ w.Exact) acts ∧ Run ResolveStep (new fun _ => none) acts s ∧
        (v, addr) ∈ s.answers ∧ ∀ result, (v.chars, result) ∉ s.resolved := by
  -- the key itself is asked for first, through an exact view
  let q : Request := ⟨⟨key, [0]⟩, 0⟩
  have hzero : 0 ∉ key := zero_notMem_cText hk
  have hq : q.host.Exact := ⟨hzero, rfl⟩
  have hstored := run_stored u addr (HostView.exact_iff.mp hq)
  have hcached : Run ResolveStep (stored q key addr) (askActs (some u) ⟨v, 0⟩) _ :=
    run_cached u addr hk rfl
  refine ⟨_, _, asksOnly_store_ask (Or.inr hq) (Or.inl rfl), hstored.append hcached, ?_, ?_⟩
  · exact List.mem_cons_of_mem _ List.mem_cons_self
  · intro result hmem
    obtain ⟨hname, -⟩ := Prod.mk.inj (List.mem_singleton.mp hmem)
    rw [Request.name, cStr_eq_self hzero] at hname
    exact hne hname.symm

theorem not_answers_of_ask (u : T) {v : HostView} (hv : ¬ v.Exact) :
    ¬ Throughout ResolveStep Answers (new fun _ => none) (missActs (A := A) (some u) ⟨v, 0⟩) := by
  intro h
  rw [HostView.exact_iff] at hv
  cases hk : v.cString with
  | none =>
      have hrun := run_overrun (A := A) u (r := ⟨v, 0⟩) hk
      exact nomatch (h _ _ (List.prefix_append _ _) hrun).fault
  | some key =>
      have hrun := run_miss (A := A) u (r := ⟨v, 0⟩) hk
      have heq := (h _ _ List.prefix_rfl hrun).oneKey v key v.chars List.mem_cons_self
        (List.mem_cons_of_mem _ List.mem_cons_self)
      exact hv (hk.trans (congrArg some heq))

end Resolvers

open Resolvers

/-- The resolver answers for the names that it is asked for, with one key for
each, exactly if all views are exact. For a view whose key is another name,
any address may be passed to the callback without `getaddrinfo` ever being
asked for the view's characters. -/
theorem resolver_answers_iff {T A : Type} [DecidableEq T] [Inhabited A] [Nonempty T]
    (allowed : HostView → Prop) :
    ((∀ acts : List (ResolveAct T A), AsksOnly allowed acts →
        Throughout ResolveStep Answers (new fun _ => none) acts) ↔
      ∀ v, allowed v → v.Exact) ∧
    ∀ (v : HostView) (key : List Byte) (addr : A), v.cString = some key → key ≠ v.chars →
      ∃ (acts : List (ResolveAct T A)) (s : Resolvers T A),
        AsksOnly (fun w => w = v ∨ w.Exact) acts ∧ Run ResolveStep (new fun _ => none) acts s ∧
          (v, addr) ∈ s.answers ∧ ∀ result, (v.chars, result) ∉ s.resolved := by
  obtain ⟨u⟩ := ‹Nonempty T›
  refine ⟨⟨fun h v hv => ?_, fun h acts hacts => ?_⟩, fun v key addr => answered_for_key u addr⟩
  · by_contra hexact
    refine not_answers_of_ask u hexact (h _ fun x r hr => ?_)
    obtain ⟨-, rfl⟩ : x = some u ∧ r = ⟨v, 0⟩ := by simpa [missActs, askActs] using hr
    exact hv
  · exact throughout_answers fun x r hr => h _ (hacts x r hr)

theorem resolver_answers_one_name :
    (∀ v, v = HostView.mk [97] [0] → v.Exact) ∧
      ∀ acts : List (ResolveAct Unit Nat), AsksOnly (· = HostView.mk [97] [0]) acts →
        Throughout ResolveStep Answers (new fun _ => none) acts :=
  have h : ∀ v, v = HostView.mk [97] [0] → v.Exact := by
    rintro _ rfl
    exact ⟨nofun, rfl⟩
  ⟨h, (resolver_answers_iff (· = HostView.mk [97] [0])).1.mpr h⟩

/-- `"ab"` is resolved, then `"a"` is asked for through a view into `"ab"`. -/
def askInside : List (ResolveAct Unit Nat) :=
  storeActs (some ()) ⟨⟨[97, 98], [0]⟩, 0⟩ 7 ++ askActs (some ()) ⟨⟨[97], [98, 0]⟩, 0⟩

theorem resolver_answers_for_longer_name :
    ∃ s, Run ResolveStep (new fun _ => none) askInside s ∧
      (HostView.mk [97] [98, 0], 7) ∈ s.answers ∧
        s.resolved.map (·.1) = [[97, 98]] ∧ ¬ s.AnswersMatch := by
  refine ⟨_, Run.of_foldlM (f := exec) rfl, List.mem_cons_of_mem _ List.mem_cons_self, rfl, ?_⟩
  intro h
  obtain ⟨result, hmem, -⟩ := h (HostView.mk [97] [98, 0], 7)
    (List.mem_cons_of_mem _ List.mem_cons_self)
  obtain ⟨hname, -⟩ := Prod.mk.inj (List.mem_singleton.mp hmem)
  exact nomatch hname

end Netpoll
