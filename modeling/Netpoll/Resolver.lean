import Mathlib.Data.List.TakeWhile
import Mathlib.Logic.Function.Basic
import Netpoll.MessageBuffer
import Netpoll.Runs

/-!
# The resolver

`ResolverImpl::resolve` (`net/inner/resolver_impl.cc`) on any number of
threads, with the one worker of the `Dns Queue`. All resolvers share the
cache, its mutex and that worker, so there is one state for all of them
and a resolver is the timeout of its requests.

User code runs in the callbacks. It is not modelled by what it computes:
while a thread is in a callback, the next step may be another call of
`resolve` on that thread, or the return of the callback. `frames` holds
the call stack of each thread, the innermost call first. The steps are
those between which the threads interleave: the lock, a lookup with what
follows it inside the scope of the lock, the queueing, `getaddrinfo`, and
the store into the cache.

The two lookups build their keys differently. The worker has `name`, the
characters of the view; the first lookup converts `hostname.data()`, which
reads from the first character of the view to the next NUL, wherever the
view ends (`HostView.cString`).
-/

namespace Netpoll

/-! ## Host names -/

/-- The text of a NUL-terminated array; `none` if there is no NUL in it. -/
def cText : List Byte → Option (List Byte)
  | [] => none
  | b :: bs => if b = 0 then some [] else (cText bs).map (b :: ·)

/-- A view with what can be read behind it, to the end of the object that
it points into. A null view has nothing at all. -/
structure HostView where
  chars : List Byte
  behind : List Byte
  deriving DecidableEq

/-- `std::string(hostname.data())` -/
def HostView.cString (v : HostView) : Option (List Byte) := cText (v.chars ++ v.behind)

/-- The view has no NUL inside and one right behind it. -/
def HostView.Exact (v : HostView) : Prop := 0 ∉ v.chars ∧ v.behind.head? = some 0

instance (v : HostView) : Decidable v.Exact :=
  inferInstanceAs (Decidable (0 ∉ v.chars ∧ v.behind.head? = some 0))

theorem cText_append_eq_some_iff {cs bs : List Byte} :
    cText (cs ++ bs) = some cs ↔ 0 ∉ cs ∧ bs.head? = some 0 := by
  induction cs with
  | nil =>
      cases bs with
      | nil => simp [cText]
      | cons b bs =>
          by_cases hb : b = 0
          · simp [cText, hb]
          · simp [cText, hb]
  | cons c cs ih =>
      by_cases hc : c = 0
      · simp [cText, hc]
      · simp [cText, hc, Ne.symm hc, ih]

theorem HostView.exact_iff {v : HostView} : v.Exact ↔ v.cString = some v.chars :=
  cText_append_eq_some_iff.symm

theorem zero_notMem_cText {bs text : List Byte} (h : cText bs = some text) : 0 ∉ text := by
  induction bs generalizing text with
  | nil => cases h
  | cons b bs ih =>
      by_cases hb : b = 0
      · simp only [cText, hb, if_true, Option.some.injEq] at h
        simp [← h]
      · simp only [cText, hb, if_false, Option.map_eq_some_iff] at h
        obtain ⟨rest, hrest, rfl⟩ := h
        simp [Ne.symm hb, ih hrest]

/-- `std::string::c_str()`, as a function that takes a C string reads it. -/
def cStr (name : List Byte) : List Byte := name.takeWhile (· ≠ 0)

theorem cStr_eq_self {name : List Byte} (h : 0 ∉ name) : cStr name = name := by
  rw [cStr, List.takeWhile_eq_self_iff]
  intro b hb
  simpa using fun h0 : b = 0 => h (h0 ▸ hb)

/-! ## Requests and answers -/

/-- A call of `resolve`: its argument, and `m_timeout` of the resolver. -/
structure Request where
  host : HostView
  timeout : Nat

/-- `std::string name{hostname.data(), hostname.size()}` -/
def Request.name (r : Request) : List Byte := r.host.chars

/-- The test of a cached entry that was stored at `time`. The clock may show
anything, so each outcome for a positive timeout is that of some `now`. -/
def Request.fresh (r : Request) (time now : Int) : Bool :=
  r.timeout = 0 ∨ time + r.timeout * 1000000 > now

/-- The first entry of the list that `getaddrinfo` returns: the address that
the constructor of `InetAddress` makes of it, or another family. -/
inductive AddrInfo (A : Type)
  | inet (addr : A)
  | inet6 (addr : A)
  | other

/-- What the callback gets for a result of `getaddrinfo`; `default` is `InetAddress{}`. -/
def AddrInfo.address {A : Type} [Inhabited A] : Option (AddrInfo A) → A
  | some (.inet addr) | some (.inet6 addr) => addr
  | some .other | none => default

/-! ## The threads -/

/-- Where a call of `resolve`, or the worker's task, stands. -/
inductive ResolveFrame (A : Type)
  /-- About to lock the mutex in `resolve`. -/
  | lock (r : Request)
  /-- About to look `hostname.data()` up. -/
  | lookup (r : Request)
  /-- Out of the scope of the lock, about to queue the task. -/
  | runTask (r : Request)
  /-- The same for the task. -/
  | taskLock (r : Request)
  | taskLookup (r : Request)
  | resolving (r : Request)
  /-- In a callback, called inside the scope of the lock in either lookup. -/
  | cached
  /-- In a callback, called because `getaddrinfo` failed. -/
  | failed
  /-- In a callback, called with a new address. -/
  | answered (r : Request) (addr : A)
  /-- About to lock the mutex for the store. -/
  | storeLock (r : Request) (addr : A)
  | store (r : Request) (addr : A)

namespace ResolveFrame

variable {A : Type}

/-- User code runs. -/
def isCallback : ResolveFrame A → Bool
  | .cached | .failed | .answered _ _ => true
  | _ => false

/-- The frame is in the scope of a `lock_guard`. -/
def holds : ResolveFrame A → Bool
  | .lookup _ | .taskLookup _ | .cached | .store _ _ => true
  | _ => false

/-- How a frame that waits for the mutex goes on with it. -/
def locked : ResolveFrame A → Option (ResolveFrame A)
  | .lock r => some (.lookup r)
  | .taskLock r => some (.taskLookup r)
  | .storeLock r addr => some (.store r addr)
  | _ => none

end ResolveFrame

/-- What the resolvers share. The threads are those that call `resolve`, and
the worker, which is `none`. -/
structure Resolvers (T A : Type) where
  /-- The thread that has `globalMutex()`. -/
  owner : Option (Option T)
  cache : List Byte → Option (A × Int)
  /-- The tasks that wait for the worker. -/
  tasks : List Request
  frames : Option T → List (ResolveFrame A)
  /-- A lookup read past the end of the object behind a view. -/
  fault : Bool
  /-- History: the keys that were looked up, with the view asked for. -/
  lookups : List (HostView × List Byte)
  /-- History: the names that `getaddrinfo` was asked for, with its results. -/
  resolved : List (List Byte × Option (AddrInfo A))
  /-- History: the addresses passed to callbacks, with the view asked for. -/
  answers : List (HostView × A)

inductive ResolveAct (T A : Type)
  /-- User code on `x` calls `resolve`. -/
  | call (x : Option T) (r : Request)
  /-- The callback that `x` runs returns. -/
  | ret (x : Option T)
  /-- The worker takes a task. -/
  | take
  /-- `x` gets the mutex. -/
  | lock (x : Option T)
  /-- The next step of `x`, with the time it reads. -/
  | step (x : Option T) (now : Int)
  /-- `getaddrinfo` returns. -/
  | answer (result : Option (AddrInfo A))

namespace Resolvers

variable {T A : Type}

def new (cache : List Byte → Option (A × Int)) : Resolvers T A where
  owner := none
  cache := cache
  tasks := []
  frames _ := []
  fault := false
  lookups := []
  resolved := []
  answers := []

/-- User code runs on `x`: outside of all calls, or in a callback. The worker
only runs it in callbacks. -/
def userCode (s : Resolvers T A) (x : Option T) : Bool :=
  match s.frames x with
  | [] => x.isSome
  | f :: _ => f.isCallback

variable [DecidableEq T]

def setFrames (s : Resolvers T A) (x : Option T) (fs : List (ResolveFrame A)) : Resolvers T A :=
  { s with frames := Function.update s.frames x fs }

@[simp]
theorem setFrames_self (s : Resolvers T A) (x : Option T) (fs : List (ResolveFrame A)) :
    (s.setFrames x fs).frames x = fs :=
  Function.update_self ..

theorem setFrames_of_ne {s : Resolvers T A} {x y : Option T} {fs : List (ResolveFrame A)}
    (h : y ≠ x) : (s.setFrames x fs).frames y = s.frames y :=
  Function.update_of_ne h ..

/-- A lookup under the lock. On a hit the callback is called there; otherwise
the lock is released and the frame goes on as `next`. -/
def lookup (s : Resolvers T A) (x : Option T) (r : Request) (key : List Byte)
    (next : ResolveFrame A) (rest : List (ResolveFrame A)) (now : Int) : Resolvers T A :=
  let s := { s with lookups := s.lookups ++ [(r.host, key)] }
  match s.cache key with
  | some (addr, time) =>
      if r.fresh time now then
        { s.setFrames x (.cached :: rest) with answers := s.answers ++ [(r.host, addr)] }
      else { s.setFrames x (next :: rest) with owner := none }
  | none => { s.setFrames x (next :: rest) with owner := none }

variable [Inhabited A]

/-- The callback is called with what `getaddrinfo` gave for the task's name. -/
def callback (s : Resolvers T A) (r : Request) (rest : List (ResolveFrame A))
    (result : Option (AddrInfo A)) : Resolvers T A :=
  let addr := AddrInfo.address result
  let frame := if result.isSome then .answered r addr else .failed
  { s.setFrames none (frame :: rest) with
    resolved := s.resolved ++ [(cStr r.name, result)]
    answers := s.answers ++ [(r.host, addr)] }

def exec (s : Resolvers T A) : ResolveAct T A → Option (Resolvers T A)
  | .call x r => if s.userCode x then some (s.setFrames x (.lock r :: s.frames x)) else none
  | .ret x =>
    match s.frames x with
    | .cached :: rest => some { s.setFrames x rest with owner := none }
    | .failed :: rest => some (s.setFrames x rest)
    | .answered r addr :: rest => some (s.setFrames x (.storeLock r addr :: rest))
    | _ => none
  | .take =>
    match s.frames none, s.tasks with
    | [], r :: tasks => some { s.setFrames none [.taskLock r] with tasks }
    | _, _ => none
  | .lock x =>
    match s.frames x, s.owner with
    | f :: rest, none => f.locked.map fun f => { s.setFrames x (f :: rest) with owner := some x }
    | _, _ => none
  | .step x now =>
    match s.frames x with
    | .lookup r :: rest =>
      match r.host.cString with
      | some key => some (s.lookup x r key (.runTask r) rest now)
      | none => some { s with fault := true }
    | .runTask r :: rest => some { s.setFrames x rest with tasks := s.tasks ++ [r] }
    | .taskLookup r :: rest => some (s.lookup x r r.name (.resolving r) rest now)
    | .store r addr :: rest =>
      some { s.setFrames x rest with
        owner := none
        cache := Function.update s.cache r.name (some (addr, now)) }
    | _ => none
  | .answer result =>
    match s.frames none with
    | .resolving r :: rest => some (s.callback r rest result)
    | _ => none

end Resolvers

def ResolveStep {T A : Type} [DecidableEq T] [Inhabited A] (s : Resolvers T A)
    (a : ResolveAct T A) (t : Resolvers T A) : Prop :=
  s.exec a = some t

namespace Resolvers

variable {T A : Type} [DecidableEq T]

/-! ## What a step does -/

/-- The outcome of a lookup. -/
inductive LookupEffect (s : Resolvers T A) (x : Option T) (r : Request) (key : List Byte)
    (next : ResolveFrame A) (rest : List (ResolveFrame A)) : Resolvers T A → Prop
  | hit {addr : A} {time : Int} : s.cache key = some (addr, time) →
      LookupEffect s x r key next rest
        { s.setFrames x (.cached :: rest) with
          lookups := s.lookups ++ [(r.host, key)]
          answers := s.answers ++ [(r.host, addr)] }
  | miss : LookupEffect s x r key next rest
      { s.setFrames x (next :: rest) with
        lookups := s.lookups ++ [(r.host, key)]
        owner := none }

theorem lookupEffect (s : Resolvers T A) (x : Option T) (r : Request) (key : List Byte)
    (next : ResolveFrame A) (rest : List (ResolveFrame A)) (now : Int) :
    LookupEffect s x r key next rest (s.lookup x r key next rest now) := by
  cases hc : s.cache key with
  | none =>
      simp only [lookup, hc]
      exact .miss
  | some entry =>
      obtain ⟨addr, time⟩ := entry
      simp only [lookup, hc]
      split
      · exact .hit hc
      · exact .miss

variable [Inhabited A]

/-- The outcome of each step, with what it found. -/
inductive Effect (s : Resolvers T A) : ResolveAct T A → Resolvers T A → Prop
  | call {x : Option T} {r : Request} : s.userCode x = true →
      Effect s (.call x r) (s.setFrames x (.lock r :: s.frames x))
  | retCached {x : Option T} {rest : List (ResolveFrame A)} : s.frames x = .cached :: rest →
      Effect s (.ret x) { s.setFrames x rest with owner := none }
  | retFailed {x : Option T} {rest : List (ResolveFrame A)} : s.frames x = .failed :: rest →
      Effect s (.ret x) (s.setFrames x rest)
  | retAnswered {x : Option T} {r : Request} {addr : A} {rest : List (ResolveFrame A)} :
      s.frames x = .answered r addr :: rest →
      Effect s (.ret x) (s.setFrames x (.storeLock r addr :: rest))
  | take {r : Request} {tasks : List Request} : s.frames none = [] → s.tasks = r :: tasks →
      Effect s .take { s.setFrames none [.taskLock r] with tasks }
  | lock {x : Option T} {f g : ResolveFrame A} {rest : List (ResolveFrame A)} :
      s.frames x = f :: rest → f.locked = some g → s.owner = none →
      Effect s (.lock x) { s.setFrames x (g :: rest) with owner := some x }
  | overrun {x : Option T} {now : Int} {r : Request} {rest : List (ResolveFrame A)} :
      s.frames x = .lookup r :: rest → r.host.cString = none →
      Effect s (.step x now) { s with fault := true }
  | lookup {x : Option T} {now : Int} {r : Request} {key : List Byte}
      {rest : List (ResolveFrame A)} {t : Resolvers T A} : s.frames x = .lookup r :: rest →
      r.host.cString = some key → LookupEffect s x r key (.runTask r) rest t →
      Effect s (.step x now) t
  | runTask {x : Option T} {now : Int} {r : Request} {rest : List (ResolveFrame A)} :
      s.frames x = .runTask r :: rest →
      Effect s (.step x now) { s.setFrames x rest with tasks := s.tasks ++ [r] }
  | taskLookup {x : Option T} {now : Int} {r : Request} {rest : List (ResolveFrame A)}
      {t : Resolvers T A} : s.frames x = .taskLookup r :: rest →
      LookupEffect s x r r.name (.resolving r) rest t → Effect s (.step x now) t
  | store {x : Option T} {now : Int} {r : Request} {addr : A} {rest : List (ResolveFrame A)} :
      s.frames x = .store r addr :: rest →
      Effect s (.step x now) { s.setFrames x rest with
        owner := none
        cache := Function.update s.cache r.name (some (addr, now)) }
  | answer {r : Request} {rest : List (ResolveFrame A)} {result : Option (AddrInfo A)} :
      s.frames none = .resolving r :: rest →
      Effect s (.answer result) (s.callback r rest result)

theorem effect_of_step {s t : Resolvers T A} {a : ResolveAct T A} (h : ResolveStep s a t) :
    Effect s a t := by
  change s.exec a = some t at h
  cases a with
  | call x r =>
      simp only [exec] at h
      split at h
      next hx => exact Option.some.inj h ▸ .call hx
      · cases h
  | ret x =>
      simp only [exec] at h
      split at h
      next hf => exact Option.some.inj h ▸ .retCached hf
      next hf => exact Option.some.inj h ▸ .retFailed hf
      next hf => exact Option.some.inj h ▸ .retAnswered hf
      · cases h
  | take =>
      simp only [exec] at h
      split at h
      next hf ht => exact Option.some.inj h ▸ .take hf ht
      · cases h
  | lock x =>
      simp only [exec] at h
      split at h
      next hf ho =>
          obtain ⟨g, hg, rfl⟩ := Option.map_eq_some_iff.mp h
          exact .lock hf hg ho
      · cases h
  | step x now =>
      simp only [exec] at h
      split at h
      next hf =>
          split at h
          next hk => exact Option.some.inj h ▸ .lookup hf hk (lookupEffect ..)
          next hk => exact Option.some.inj h ▸ .overrun hf hk
      next hf => exact Option.some.inj h ▸ .runTask hf
      next hf => exact Option.some.inj h ▸ .taskLookup hf (lookupEffect ..)
      next hf => exact Option.some.inj h ▸ .store hf
      · cases h
  | answer result =>
      simp only [exec] at h
      split at h
      next hf => exact Option.some.inj h ▸ .answer hf
      · cases h

end Resolvers

end Netpoll
