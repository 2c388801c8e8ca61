import Netpoll.Threads
import Netpoll.WriteList

/-!
# `m_sendNumMutex` on the loop thread

Every way to send locks `m_sendNumMutex`, which is not recursive. Two
overloads of `send` keep it while they run `sendInLoop`, and `sendInLoop`
may call the high-water-mark callback of the user.

The machine is that of `Connection.lean` with what it leaves out there: the
mutex, `m_sendNum` and the functors that are queued while it is positive,
and the calls of a stream callback, where user code runs in the middle of
`sendFileInLoop`. `stack` is the call stack of the loop thread. `locks`
records for each attempt of that thread to lock the mutex whether it had it
already; if so it waits for ever.
-/

namespace Netpoll

/-! ## Streams, up to the next call of the callback -/

namespace Conn

/-- The `while` loop of the stream case until it calls the callback (then
the last component is `true`) or returns. -/
def streamUntilAsk (c : Conn) (filePtr : BufferNode) : Conn × BufferNode × Bool :=
  if filePtr.fileBytesToSend > 0 ∨ c.fileBuffer ≠ [] then
    if c.fileBuffer = [] then (c, filePtr, true)
    else
      match c.writeInLoop c.fileBuffer with
      | (.count nWritten, c) =>
          if nWritten < c.fileBuffer.length then
            ({ c with fileBuffer := c.fileBuffer.drop nWritten }.startWriting, filePtr, false)
          else if filePtr.fileBytesToSend > 0 then ({ c with fileBuffer := [] }, filePtr, true)
          else ({ c with fileBuffer := [] }.startWriting, filePtr, false)
      | (.failed e, c) =>
          if writeSocketError e then (c, filePtr, false) else (c.startWriting, filePtr, false)
  else (c.startWriting, filePtr, false)

/-- The loop goes on with what the callback returned. -/
def streamAfterAsk (c : Conn) (filePtr : BufferNode) : Conn × BufferNode × Bool :=
  let next := c.fetch filePtr
  if next.1.fileBuffer = [] then (next.1.startWriting, next.2, false)
  else next.1.streamUntilAsk next.2

/-- All of the loop, with callbacks that do nothing else. -/
def streamByAsks : Nat → Conn × BufferNode × Bool → Conn × BufferNode
  | fuel + 1, (c, filePtr, true) => streamByAsks fuel (c.streamAfterAsk filePtr)
  | _, (c, filePtr, _) => (c, filePtr)

theorem streamUntilAsk_of_nil {c : Conn} (h : c.fileBuffer = []) (filePtr : BufferNode) :
    c.streamUntilAsk filePtr =
      if filePtr.fileBytesToSend > 0 then (c, filePtr, true)
      else (c.startWriting, filePtr, false) := by
  simp only [streamUntilAsk, h, ne_eq, not_true_eq_false, or_false, if_true]

theorem streamByAsks_done (n : Nat) (c : Conn) (filePtr : BufferNode) :
    streamByAsks n (c, filePtr, false) = (c, filePtr) := by
  cases n <;> rfl

theorem streamByAsks_write {fuel n : Nat} {c c' : Conn} {filePtr filePtr' : BufferNode}
    (hne : c.fileBuffer ≠ [])
    (ih : ∀ {c : Conn} {filePtr : BufferNode}, streamLoop fuel c filePtr = .ok (c', filePtr') →
      streamByAsks n (c.streamUntilAsk filePtr) = (c', filePtr'))
    (h : c.streamWrite filePtr (streamLoop fuel) = .ok (c', filePtr')) :
    streamByAsks n (c.streamUntilAsk filePtr) = (c', filePtr') := by
  unfold streamUntilAsk
  rw [if_pos (Or.inr hne), if_neg hne]
  unfold streamWrite at h
  generalize c.writeInLoop c.fileBuffer = answer at h ⊢
  obtain ⟨r, c₁⟩ := answer
  cases r with
  | count nWritten =>
      simp only at h ⊢
      by_cases hlt : nWritten < c₁.fileBuffer.length
      · rw [if_pos hlt] at h ⊢
        cases h
        exact streamByAsks_done ..
      · rw [if_neg hlt] at h ⊢
        have hall := ih h
        rwa [streamUntilAsk_of_nil rfl] at hall
  | failed e =>
      simp only at h ⊢
      by_cases he : writeSocketError e = true
      · rw [if_pos he] at h ⊢
        cases h
        exact streamByAsks_done ..
      · rw [if_neg he] at h ⊢
        cases h
        exact streamByAsks_done ..

/-- Run from call to call, the loop is `streamLoop`. -/
theorem streamByAsks_eq {fuel n : Nat} (hn : fuel ≤ n) {c c' : Conn}
    {filePtr filePtr' : BufferNode} (h : streamLoop fuel c filePtr = .ok (c', filePtr')) :
    streamByAsks n (c.streamUntilAsk filePtr) = (c', filePtr') := by
  induction fuel generalizing c filePtr n with
  | zero => cases h
  | succ fuel ih =>
      obtain ⟨m, rfl⟩ : ∃ m, n = m + 1 := ⟨n - 1, by omega⟩
      unfold streamLoop at h
      by_cases hfb : c.fileBuffer = []
      · rw [streamUntilAsk_of_nil hfb]
        by_cases hpos : filePtr.fileBytesToSend > 0
        · rw [if_pos (Or.inl hpos)] at h
          simp only [if_pos hfb] at h
          rw [if_pos hpos, streamByAsks, streamAfterAsk]
          by_cases hend : (c.fetch filePtr).1.fileBuffer = []
          · rw [if_pos hend] at h
            simp only [if_pos hend]
            cases h
            exact streamByAsks_done ..
          · rw [if_neg hend] at h
            simp only [if_neg hend]
            exact streamByAsks_write hend (fun h => ih (by omega) h) h
        · rw [if_neg (by simp [hfb, hpos])] at h
          rw [if_neg hpos]
          cases h
          rfl
      · rw [if_pos (Or.inr hfb)] at h
        simp only [if_neg hfb] at h
        exact streamByAsks_write hfb (fun h => ih (by omega) h) h

end Conn

/-! ## The machine -/

/-- The ways to send, with what they are given. -/
inductive SendCall where
  | stringView (msg : List Byte)
  | sharedPtr (msg : List Byte)
  | constBuffer (msg : List Byte)
  | movedBuffer (msg : List Byte)
  | file (data : Option (List Byte)) (offset length : Nat)
  | stream (callback : Option (List Chunk))
deriving DecidableEq

def SendCall.overload : SendCall → Overload
  | .stringView _ => .stringView
  | .sharedPtr _ => .sharedPtr
  | .constBuffer _ => .constBuffer
  | .movedBuffer _ => .movedBuffer
  | .file .. => .file
  | .stream _ => .stream

/-- `sendFile` returns at once if the file cannot be opened. -/
def SendCall.opens : SendCall → Bool
  | .file none _ _ => false
  | _ => true

/-- What is left to do once what is above it on the stack returns. -/
inductive LockFrame where
  /-- A frame of the connection. -/
  | conn (f : Frame)
  /-- The loop of the stream case, after its callback. -/
  | stream
  /-- The end of a call, with that of its `lock_guard`. -/
  | ret (k : SendCall)
  /-- The end of a queued functor: `--m_sendNum`. -/
  | task
deriving DecidableEq

/-- The call has `m_sendNumMutex` until it returns. -/
def LockFrame.guards : LockFrame → Bool
  | .ret k => k.overload.locks
  | _ => false

/-- `sendFileInLoop` on the front node. A stream callback that is called goes
on the stack. -/
def runAsking (c : Conn) (above : List LockFrame) (node : BufferNode) (rest : List BufferNode) :
    Except Fault (Conn × List LockFrame) :=
  if node.streamCallback.isSome then
    let (c, node, asks) := c.streamUntilAsk node
    .ok ({ c with writeBufferList := node :: rest },
      if asks then .conn .callback :: .stream :: above else above)
  else do
    let c ← c.sendFileFront node rest
    return (c, above)

/-- What a call does with `m_sendNum` at 0. -/
def SendCall.run (c : Conn) : SendCall → Except Fault (Conn × List LockFrame)
  | .stringView msg | .sharedPtr msg | .constBuffer msg | .movedBuffer msg => do
      let c ← c.sendInLoop msg
      return (c, [])
  | .file none _ _ => .ok (c, [])
  | .file (some data) offset length =>
      c.sendFileWith runAsking [] data offset (fileLength data length)
  | .stream callback => c.sendStreamWith runAsking [] callback

structure Locking where
  conn : Conn
  sendNum : Nat
  /-- The queued functors. -/
  queue : List SendCall
  /-- The loop thread has `m_sendNumMutex`. -/
  mutex : Bool
  stack : List LockFrame
  locks : List Bool

inductive LockAct where
  | call (k : SendCall)
  /-- A call in another thread. -/
  | post (k : SendCall)
  | runTask
  | event (revents : BitVec 32)
  | resume
deriving DecidableEq

structure LockLabel where
  act : LockAct
  env : Env
deriving DecidableEq

namespace Locking

/-- A connection that nobody is sending on, with what is queued for it. -/
def start (c : Conn) (sendNum : Nat) (queue : List SendCall) : Locking :=
  { conn := { c with frames := [] }, sendNum, queue, mutex := false,
    stack := c.frames.map .conn, locks := [] }

/-- The frames that a function leaves go on the stack. -/
def leave (s : Locking) (r : Conn × List LockFrame) : Locking :=
  { s with
    conn := { r.1 with frames := [] }
    stack := r.2 ++ (r.1.frames.map .conn ++ s.stack) }

def lock (s : Locking) : Locking := { s with locks := s.locks ++ [s.mutex] }

def plusSendNum (s : Locking) (k : SendCall) : Locking :=
  { s with sendNum := s.sendNum + 1, queue := s.queue ++ [k] }

/-- `--m_sendNum`, which would wrap at 0. -/
def minusSendNum (s : Locking) : Locking :=
  { s with sendNum := if s.sendNum = 0 then sizeMod - 1 else s.sendNum - 1 }

/-- A call on the loop thread. Those that do not keep the mutex lock it again
for `++m_sendNum`. -/
def call (s : Locking) (k : SendCall) : Except Fault Locking :=
  if k.opens then
    let s := s.lock
    if s.mutex then .ok s
    else if s.sendNum = 0 then do
      let r ← k.run s.conn
      return { s with mutex := k.overload.locks, stack := .ret k :: s.stack }.leave r
    else if k.overload.locks then .ok (s.plusSendNum k)
    else .ok (s.lock.plusSendNum k)
  else .ok s

/-- The frame on top, which has been popped, goes on. -/
def resume (s : Locking) : LockFrame → Except Fault Locking
  | .conn (.dispatch (.write :: todo)) => do
      let r ← s.conn.handleWriteWith runAsking []
      return { s with stack := .conn (.dispatch todo) :: s.stack }.leave r
  | .conn f => do
      let c ← s.conn.resume f
      return s.leave (c, [])
  | .stream =>
      match s.conn.writeBufferList with
      | [] => .error .nullPointer
      | node :: rest =>
          let (c, node, asks) := s.conn.streamAfterAsk node
          .ok (s.leave ({ c with writeBufferList := node :: rest },
            if asks then [.conn .callback, .stream] else []))
  | .ret k => .ok { s with mutex := if k.overload.locks then false else s.mutex }
  | .task =>
      let s := s.lock
      if s.mutex then .ok s else .ok s.minusSendNum

def exec (s : Locking) : LockAct → Except Fault Locking
  | .call k => s.call k
  | .post k => .ok (if k.opens then s.plusSendNum k else s)
  | .runTask =>
      match s.queue with
      | [] => .ok s
      | k :: queue => do
          let r ← k.run s.conn
          return { s with queue, stack := .task :: s.stack }.leave r
  | .event revents =>
      let ch := s.conn.channel.setRevents revents
      .ok { s with
        conn := { s.conn with channel := ch }
        stack := .conn (.dispatch ch.handleEvent) :: s.stack }
  | .resume =>
      match s.stack with
      | [] => .ok s
      | f :: stack => { s with stack }.resume f

/-- No attempt to lock the mutex was made by a thread that had it. -/
def NoSelfLock (s : Locking) : Prop := true ∉ s.locks

/-- User code runs in the loop's own functors or inside a callback. The other
threads get the mutex when the loop thread does not have it. -/
def Enabled (s : Locking) (a : LockAct) : Prop :=
  s.NoSelfLock ∧
    match a with
    | .call _ => s.stack = [] ∨ s.stack.head? = some (.conn .callback)
    | .post _ => s.mutex = false
    | .runTask => s.stack = [] ∧ s.queue ≠ []
    | .event _ => s.stack = []
    | .resume => s.stack ≠ []

instance (s : Locking) (a : LockAct) : Decidable (s.Enabled a) := by
  unfold Enabled NoSelfLock
  cases a <;> infer_instance

def next (s : Locking) (l : LockLabel) : Option Locking :=
  if s.Enabled l.act then ({ s with conn := { s.conn with env := l.env } }.exec l.act).toOption
  else none

/-- Nothing is sent out of the high-water-mark callback of a call that keeps
the mutex. -/
def Outside (s : Locking) (l : LockLabel) : Prop :=
  match l.act with
  | .call k => k.opens = true → ∀ f ∈ s.stack, f.guards = false
  | _ => True

end Locking

def LockStep (s : Locking) (l : LockLabel) (s' : Locking) : Prop := s.next l = some s'

/-! ## Who has the mutex -/

/-- At most one call on the stack keeps the mutex, and a functor is at the
bottom. -/
def GuardOnce : List LockFrame → Prop
  | [] => True
  | f :: stack => (f.guards = true → stack.any LockFrame.guards = false) ∧
      (f = .task → stack = []) ∧ GuardOnce stack

/-- Frames in the middle of a function. -/
def LockFrame.inner : LockFrame → Bool
  | .conn _ | .stream => true
  | _ => false

def InnerFrames (fs : List LockFrame) : Prop := ∀ f ∈ fs, f.inner = true

theorem guardOnce_append {fs stack : List LockFrame} (hfs : InnerFrames fs)
    (h : GuardOnce stack) : GuardOnce (fs ++ stack) := by
  induction fs with
  | nil => exact h
  | cons f fs ih =>
      have hf := hfs f List.mem_cons_self
      refine ⟨fun hg => ?_, fun ht => ?_, ih fun f' hf' => hfs f' (List.mem_cons_of_mem _ hf')⟩
      · cases f <;> simp_all [LockFrame.guards, LockFrame.inner]
      · rw [ht] at hf
        cases hf

theorem any_guards_append {fs : List LockFrame} (hfs : InnerFrames fs)
    (stack : List LockFrame) : (fs ++ stack).any LockFrame.guards = stack.any LockFrame.guards := by
  have hnone : fs.any LockFrame.guards = false := by
    refine List.any_eq_false.mpr fun f hf => ?_
    have hin := hfs f hf
    cases f with
    | ret k => cases hin
    | task => cases hin
    | _ => exact Bool.false_ne_true
  rw [List.any_append, hnone, Bool.false_or]

theorem inner_nil : InnerFrames [] := fun _ h => absurd h List.not_mem_nil

theorem inner_conn (fs : List Frame) : InnerFrames (fs.map .conn) := by
  intro f hf
  obtain ⟨f', -, rfl⟩ := List.mem_map.mp hf
  rfl

theorem InnerFrames.asking {fs : List LockFrame} (h : InnerFrames fs) :
    InnerFrames (.conn .callback :: .stream :: fs) := by
  intro f hf
  rcases List.mem_cons.mp hf with rfl | hf
  · rfl
  rcases List.mem_cons.mp hf with rfl | hf
  · rfl
  exact h f hf

theorem runAsking_inner : Conn.KeepsData runAsking InnerFrames := by
  intro c fs node rest hfs
  unfold runAsking
  split
  · simp only [post_ok]
    split
    · exact hfs.asking
    · exact hfs
  · exact (Post.true _).bind fun _ _ => hfs

theorem SendCall.run_inner (c : Conn) (k : SendCall) :
    Post (fun _ => True) (fun r => InnerFrames r.2) (k.run c) := by
  cases k with
  | file data offset length =>
      cases data with
      | none => exact inner_nil
      | some data =>
          unfold SendCall.run Conn.sendFileWith
          simp only
          split
          · exact Conn.pushNodeWith_data runAsking_inner _ inner_nil _
          · trivial
  | stream callback => exact Conn.pushNodeWith_data runAsking_inner _ inner_nil _
  | _ => exact (Post.true _).bind fun _ _ => inner_nil

namespace Locking

structure Inv (s : Locking) : Prop where
  held : s.mutex = s.stack.any LockFrame.guards
  nested : GuardOnce s.stack
  free : s.NoSelfLock

variable {s s' : Locking}

theorem Inv.start (c : Conn) (sendNum : Nat) (queue : List SendCall) :
    Inv (start c sendNum queue) := by
  refine ⟨?_, ?_, List.not_mem_nil⟩
  · have hany := any_guards_append (inner_conn c.frames) []
    rw [List.append_nil] at hany
    exact hany.symm
  · have hnested : GuardOnce (c.frames.map .conn ++ []) :=
      guardOnce_append (inner_conn c.frames) trivial
    rwa [List.append_nil] at hnested

theorem Inv.leave (h : Inv s) {r : Conn × List LockFrame} (hr : InnerFrames r.2) : Inv (s.leave r) where
  held := by
    rw [Locking.leave, any_guards_append hr, any_guards_append (inner_conn _)]
    exact h.held
  nested := guardOnce_append hr (guardOnce_append (inner_conn _) h.nested)
  free := h.free

theorem Inv.pop (h : Inv s) {f : LockFrame} {stack : List LockFrame} (hs : s.stack = f :: stack)
    (hf : f.guards = false) : Inv { s with stack } := by
  have hnested := h.nested
  rw [hs] at hnested
  refine ⟨?_, hnested.2.2, h.free⟩
  rw [h.held, hs, List.any_cons, hf, Bool.false_or]

theorem Inv.lock (h : Inv s) (hs : s.mutex = false) : Inv s.lock := by
  refine ⟨h.held, h.nested, fun hmem => ?_⟩
  rcases List.mem_append.mp hmem with hmem | hmem
  · exact h.free hmem
  · rw [hs] at hmem
    cases List.mem_singleton.mp hmem

theorem Inv.push (h : Inv s) {f : LockFrame} (hf : f.inner = true) :
    Inv { s with stack := f :: s.stack } := by
  have hfs : InnerFrames [f] := fun f' hf' => by rwa [List.mem_singleton.mp hf']
  exact ⟨h.held.trans (any_guards_append hfs _).symm, guardOnce_append hfs h.nested, h.free⟩

theorem Inv.plusSendNum (h : Inv s) (k : SendCall) : Inv (s.plusSendNum k) :=
  ⟨h.held, h.nested, h.free⟩

theorem Inv.call (h : Inv s) {k : SendCall} (hk : k.opens = true → s.mutex = false) :
    Post (fun _ => True) Inv (s.call k) := by
  unfold Locking.call
  by_cases hopens : k.opens = true
  · have hfree := hk hopens
    have hlock := h.lock hfree
    have hmutex : s.lock.mutex = false := hfree
    have hany : s.stack.any LockFrame.guards = false := h.held.symm.trans hfree
    simp only [hopens, hmutex, if_true, Bool.false_eq_true, if_false]
    have hcall : Inv { s.lock with mutex := k.overload.locks, stack := .ret k :: s.stack } := by
      refine ⟨?_, ⟨fun _ => hany, fun hret => (by cases hret), h.nested⟩, hlock.free⟩
      show k.overload.locks = (k.overload.locks || s.stack.any LockFrame.guards)
      rw [hany, Bool.or_false]
    split
    · exact (SendCall.run_inner _ k).bind fun r hr => hcall.leave hr
    · split
      · exact hlock.plusSendNum k
      · exact (hlock.lock hmutex).plusSendNum k
  · rw [if_neg hopens]
    exact h

theorem Inv.resume (h : Inv s) {f : LockFrame} {stack : List LockFrame}
    (hs : s.stack = f :: stack) : Post (fun _ => True) Inv ({ s with stack }.resume f) := by
  have hnested := h.nested
  rw [hs] at hnested
  cases f with
  | conn f =>
      have hpop := h.pop hs rfl
      unfold Locking.resume
      split
      · refine (Conn.handleWriteWith_data runAsking_inner _ inner_nil).bind fun r hr => ?_
        exact (hpop.push rfl).leave hr
      · exact (Post.true _).bind fun _ _ => hpop.leave inner_nil
      all_goals contradiction
  | stream =>
      have hpop := h.pop hs rfl
      unfold Locking.resume
      simp only
      split
      · trivial
      · refine hpop.leave ?_
        split
        · exact inner_nil.asking
        · exact inner_nil
  | ret k =>
      refine ⟨?_, hnested.2.2, h.free⟩
      show (if k.overload.locks then false else s.mutex) = stack.any LockFrame.guards
      split
      next hk => exact (hnested.1 hk).symm
      next hk =>
        rw [h.held, hs, List.any_cons, LockFrame.guards, Bool.eq_false_iff.mpr hk, Bool.false_or]
  | task =>
      have hpop := h.pop hs rfl
      have hfree : s.mutex = false := by rw [h.held, hs, hnested.2.1 rfl]; rfl
      have hlock := hpop.lock hfree
      have hmutex : ({ s with stack } : Locking).lock.mutex = false := hfree
      unfold Locking.resume
      simp only [hmutex, Bool.false_eq_true, if_false]
      exact ⟨hlock.held, hlock.nested, hlock.free⟩

theorem Inv.exec (h : Inv s) {a : LockAct} (ha : s.Enabled a)
    (hout : ∀ k, a = .call k → k.opens = true → s.mutex = false) :
    Post (fun _ => True) Inv (s.exec a) := by
  cases a with
  | call k => exact h.call (hout k rfl)
  | post k =>
      unfold Locking.exec
      simp only [post_ok]
      split
      · exact h.plusSendNum k
      · exact h
  | runTask =>
      unfold Locking.exec
      simp only
      split
      · exact h
      next k queue _ =>
        have hempty : s.stack = [] := ha.2.1
        have htask : Inv { s with queue, stack := .task :: s.stack } := by
          refine ⟨h.held.trans rfl, ⟨fun hg => (by cases hg), fun _ => hempty, h.nested⟩, h.free⟩
        exact (SendCall.run_inner _ k).bind fun r hr => htask.leave hr
  | event revents =>
      have hch : Inv { s with conn := { s.conn with channel := s.conn.channel.setRevents revents } } :=
        ⟨h.held, h.nested, h.free⟩
      exact hch.push rfl
  | resume =>
      unfold Locking.exec
      simp only
      split
      · exact h
      next f stack hs => exact h.resume hs

theorem next_eq_some {l : LockLabel} (hstep : LockStep s l s') :
    s.Enabled l.act ∧ { s with conn := { s.conn with env := l.env } }.exec l.act = .ok s' := by
  unfold LockStep next at hstep
  split at hstep
  next hen =>
    refine ⟨hen, ?_⟩
    cases hx : ({ s with conn := { s.conn with env := l.env } } : Locking).exec l.act with
    | ok t =>
        rw [hx] at hstep
        cases hstep
        rfl
    | error f =>
        rw [hx] at hstep
        cases hstep
  next => cases hstep

theorem Inv.step (h : Inv s) {l : LockLabel} (hout : s.Outside l) (hstep : LockStep s l s') :
    Inv s' := by
  obtain ⟨hen, hx⟩ := next_eq_some hstep
  have henv : Inv { s with conn := { s.conn with env := l.env } } := ⟨h.held, h.nested, h.free⟩
  refine (henv.exec hen fun k hk hopens => ?_).of_ok hx
  unfold Outside at hout
  rw [hk] at hout
  show s.mutex = false
  rw [h.held]
  exact List.any_eq_false.mpr fun f hf => by rw [hout hopens f hf]; exact Bool.false_ne_true

/-- A call out of a guarded one finds the mutex taken by its own thread. -/
theorem Inv.breaks (h : Inv s) {l : LockLabel} (hout : ¬ s.Outside l) (hstep : LockStep s l s') :
    ¬ s'.NoSelfLock := by
  obtain ⟨-, hx⟩ := next_eq_some hstep
  unfold Outside at hout
  split at hout
  next k hk =>
    rw [hk] at hx
    simp only [not_forall, Bool.not_eq_false] at hout
    obtain ⟨hopens, f, hf, hguards⟩ := hout
    have hmutex : s.mutex = true := by
      rw [h.held]
      exact List.any_eq_true.mpr ⟨f, hf, hguards⟩
    simp only [Locking.exec, Locking.call, Locking.lock, hopens, hmutex, if_true,
      Except.ok.injEq] at hx
    subst hx
    exact fun hno => hno (List.mem_append_right _ List.mem_cons_self)
  next => exact absurd trivial hout

/-- The loop thread never locks the mutex twice exactly when nothing is sent
out of the high-water-mark callback of a call that keeps it. -/
theorem noSelfLock_iff_outside (c : Conn) (sendNum : Nat) (queue : List SendCall)
    (ls : List LockLabel) :
    Throughout LockStep NoSelfLock (start c sendNum queue) ls ↔
      EveryStep LockStep Outside (start c sendNum queue) ls :=
  throughout_iff_everyStep (I := Inv) (Inv.start c sendNum queue)
    (fun _ _ _ h hout hstep => h.step hout hstep) (fun _ h => h.free)
    (fun _ _ _ h hout hstep => h.breaks hout hstep)

/-- A socket buffer that is full. -/
def fullSocket : Env := ⟨[], .failed .wouldBlock, 0, false, false⟩

/-- A connection with a high-water mark of one byte. -/
def marked : Conn := Conn.established .blank ⟨false, false, false, false, some 1⟩ fullSocket

/-- The high-water-mark callback of a call sends one byte. -/
def answered (k : SendCall) : List LockLabel :=
  [⟨.call k, fullSocket⟩, ⟨.call (.stringView [0]), fullSocket⟩]

/-- Of the four overloads of `send`, two lock the mutex again. -/
theorem selfLock_in_callback :
    ([.stringView [1, 2], .sharedPtr [1, 2], .constBuffer [1, 2], .movedBuffer [1, 2]].map fun k =>
        ((answered k).foldlM next (start marked 0 [])).map locks) =
      [some [false, false], some [false, true], some [false, true], some [false, false]] ∧
      ¬ Throughout LockStep NoSelfLock (start marked 0 []) (answered (.constBuffer [1, 2])) := by
  have hruns :
      ([.stringView [1, 2], .sharedPtr [1, 2], .constBuffer [1, 2], .movedBuffer [1, 2]].map fun k =>
          ((answered k).foldlM next (start marked 0 [])).map locks) =
        [some [false, false], some [false, true], some [false, true], some [false, false]] := by
    decide +kernel
  refine ⟨hruns, fun h => ?_⟩
  have hconst := congrArg (fun rs => rs[2]?) hruns
  obtain ⟨t, ht, hlocks⟩ := Option.map_eq_some_iff.mp (Option.some.inj hconst)
  have hno := h _ t (List.prefix_refl _) (.of_foldlM ht)
  rw [NoSelfLock, hlocks] at hno
  exact hno (by decide)

end Locking

end Netpoll
