import Netpoll.SendPath

/-!
# Runs of sends and write events

The connection machine restricted to what the send path is about: sends,
files and streams from the user (also out of callbacks), writable events,
and the machine's own continuations.

Two results about such runs. At every moment the bytes that the kernel
accepted, followed by the pending ones, are the payloads in the order of
the calls. And a non-empty write list always has write interest, exactly
when every `sendFile` that starts on an empty list is answered by a
positive count at its first `sendfile`; unlike the stream case, that path
does not enable writing when the socket is full.
-/

namespace Netpoll

open Conn

/-! ## What output does to the rest of the connection -/

/-- Events of the output side that take over no payload. -/
def Event.IsOutput : Event → Prop
  | .sent _ | .insertEntry _ | .highWaterMark _ | .writeComplete => True
  | _ => False

/-- `c'` comes from `c` by output: the status and the settings stay, and
only callbacks of the output side have been invoked. -/
structure Outputs (c c' : Conn) : Prop where
  status : c'.status = c.status
  callbacks : c'.callbacks = c.callbacks
  idleTimeout : c'.idleTimeout = c.idleTimeout
  frames : ∃ fs, c'.frames = fs ++ c.frames ∧ ∀ f ∈ fs, f = .callback ∨ f = .handleWriteRest
  trace : ∃ evs, c'.trace = c.trace ++ evs ∧ ∀ e ∈ evs, e.IsOutput

namespace Outputs

variable {c c₁ c₂ c₃ : Conn}

theorem refl (c : Conn) : Outputs c c :=
  ⟨rfl, rfl, rfl, ⟨[], rfl, by simp⟩, ⟨[], by simp, by simp⟩⟩

theorem trans (h₁ : Outputs c₁ c₂) (h₂ : Outputs c₂ c₃) : Outputs c₁ c₃ := by
  obtain ⟨hs, hc, hi, ⟨fs, hf, hfs⟩, ⟨evs, ht, hevs⟩⟩ := h₁
  obtain ⟨hs', hc', hi', ⟨fs', hf', hfs'⟩, ⟨evs', ht', hevs'⟩⟩ := h₂
  refine ⟨hs'.trans hs, hc'.trans hc, hi'.trans hi, ⟨fs' ++ fs, ?_, ?_⟩, ⟨evs ++ evs', ?_, ?_⟩⟩
  · rw [hf', hf, List.append_assoc]
  · intro f hf
    rcases List.mem_append.mp hf with hf | hf
    · exact hfs' f hf
    · exact hfs f hf
  · rw [ht', ht, List.append_assoc]
  · intro e he
    rcases List.mem_append.mp he with he | he
    · exact hevs e he
    · exact hevs' e he

theorem accepted (h : Outputs c₁ c₂) : c₂.accepted = c₁.accepted := by
  obtain ⟨evs, ht, hevs⟩ := h.trace
  have hnil : acceptedOf evs = [] := by
    refine List.flatMap_eq_nil_iff.mpr fun e he => ?_
    have := hevs e he
    cases e with
    | accept xs => exact this.elim
    | _ => rfl
  rw [Conn.accepted, Conn.accepted, ht, acceptedOf_append, hnil, List.append_nil]

theorem accepted_log (c : Conn) (xs : List Byte) :
    (c.log (.accept xs)).accepted = c.accepted ++ xs := by
  simp [Conn.accepted, Conn.log, acceptedOf]

theorem of_emits (h : Emits c₁ c₂) : Outputs c₁ c₂ := by
  obtain ⟨ch, fb, t, env, evs, rfl, hevs, -⟩ := h
  refine ⟨rfl, rfl, rfl, ⟨[], rfl, by simp⟩, evs, rfl, fun e he => ?_⟩
  obtain ⟨xs, rfl⟩ := hevs e he
  trivial

theorem of_extendLife (c : Conn) : Outputs c c.extendLife := by
  obtain ⟨t, evs, heq, hevs⟩ := c.extendLife_eq
  rw [heq]
  refine ⟨rfl, rfl, rfl, ⟨[], rfl, by simp⟩, evs, rfl, fun e he => ?_⟩
  rw [hevs e he]
  trivial

theorem of_list {list : List BufferNode} (h : Outputs { c₁ with writeBufferList := list } c₂) :
    Outputs c₁ c₂ := ⟨h.status, h.callbacks, h.idleTimeout, h.frames, h.trace⟩

theorem of_writes (h : Writes c₁ c₂) : Outputs c₁ c₂ := (of_emits h.2.1).of_list

theorem of_invoke (c : Conn) (isSet : Bool) {e : Event} (he : e.IsOutput) :
    Outputs c (c.invoke isSet e) := by
  unfold invoke
  split
  · exact ⟨rfl, rfl, rfl, ⟨[.callback], rfl, by simp⟩, [e], rfl, by simpa using he⟩
  · exact refl c

theorem of_handleWrites (h : HandleWrites c₁ c₂) : Outputs c₁ c₂ := by
  cases h with
  | idle => exact refl _
  | wrote _ hw => exact of_writes hw
  | drained =>
      have hpush : Outputs c₁ ({ c₁ with
          writeBufferList := [], channel := c₁.channel.disableWriting }.push .handleWriteRest) :=
        ⟨rfl, rfl, rfl, ⟨[.handleWriteRest], rfl, by simp⟩, [], by simp [push], by simp⟩
      exact hpush.trans (of_invoke _ _ trivial)

theorem of_queues (h : Queues c₁ c₂) : Outputs c₁ c₂ := by
  obtain ⟨list, isSet, n, -, rfl⟩ := h
  refine Outputs.trans ?_ (of_invoke _ isSet trivial)
  exact (of_emits (Emits.startWriting { c₁ with writeBufferList := list })).of_list

theorem of_sendsInLoop (h : SendsInLoop c₁ c₂) : Outputs c₁ c₂ := by
  cases h with
  | direct he _ => exact of_emits he
  | queued he _ hq => exact (of_emits he).trans (of_queues hq)

end Outputs

/-! ## The restricted machine -/

/-- A send of the user: the range of a file lies inside it, a stream has a
callback. -/
def Call.Sends : Call → Prop
  | .send _ => True
  | .sendFile none _ _ => True
  | .sendFile (some file) offset length =>
      0 < fileLength file length ∧ offset + fileLength file length ≤ file.length
  | .sendStream callback => callback.isSome
  | .shutdown | .forceClose => False

/-- What a call asks to be sent. -/
def Call.payload : Call → List Byte
  | .send msg => msg.bytes
  | .sendFile (some file) offset length => slice file offset (offset + fileLength file length)
  | .sendStream (some chunks) => streamPayload chunks
  | _ => []

def Act.Sends : Act → Prop
  | .call k => k.Sends
  | .event revents => revents = POLLOUT
  | .resume => True
  | .connectEstablished | .connectDestroyed => False

def Act.payload : Act → List Byte
  | .call k => k.payload
  | _ => []

/-- A step of the send path; the kernel never answers a fatal error. -/
def Label.Sends (l : Label) : Prop :=
  l.act.Sends ∧ ∀ e, .failed e ∈ l.env.io → e = .wouldBlock

/-- A payload that is sent on an idle connection is not given up. -/
def KeepsSend (c : Conn) (l : Label) : Prop :=
  ∀ msg, l.act = .call (.send msg) → { c with env := l.env }.KeepsPayload msg.bytes

def Frame.Sends : Frame → Prop
  | .callback | .handleWriteRest => True
  | .dispatch todo => ∀ h ∈ todo, h = .write
  | _ => False

theorem handleEvent_pollout (ch : Channel) :
    ∀ h ∈ (ch.setRevents POLLOUT).handleEvent, h = .write := by
  unfold Channel.handleEvent
  split
  · simp
  · have hsafe : (ch.setRevents POLLOUT).handleEventSafely = [.write] := by
      have hhup : hasAny POLLOUT POLLHUP = false := by decide
      have herr : hasAny POLLOUT (POLLNVAL ||| POLLERR) = false := by decide
      have hin : hasAny POLLOUT (POLLIN ||| POLLPRI ||| POLLRDHUP) = false := by decide
      have hout : hasAny POLLOUT POLLOUT = true := by decide
      simp [Channel.handleEventSafely, Channel.setRevents, hhup, herr, hin, hout]
    rw [hsafe]
    simp

theorem Outputs.frames_sends {c₁ c₂ : Conn} (h : Outputs c₁ c₂)
    (hf : ∀ f ∈ c₁.frames, f.Sends) : ∀ f ∈ c₂.frames, f.Sends := by
  obtain ⟨fs, hfs, hfr⟩ := h.frames
  intro f hmem
  rw [hfs] at hmem
  rcases List.mem_append.mp hmem with hmem | hmem
  · rcases hfr f hmem with rfl | rfl <;> trivial
  · exact hf f hmem

theorem mem_trace_established {rb : MessageBuffer} {cbs : Callbacks} {env : Env} {e : Event}
    (he : e ∈ (Conn.established rb cbs env).trace) :
    e = .status .connected ∨ e = .connection true := by
  unfold Conn.established Conn.invoke at he
  split at he
  · simpa [setStatus, Conn.log, Conn.new, Conn.push] using he
  · exact Or.inl (by simpa [setStatus, Conn.log, Conn.new, Conn.push] using he)

theorem flow_established {inside : Prop} (rb : MessageBuffer) (cbs : Callbacks) (env : Env) :
    Flow inside (Conn.established rb cbs env) [] := by
  have hw : (Conn.established rb cbs env).channel.isWriting = false := by
    simp [Conn.established, setStatus, Conn.log]
  have hl : (Conn.established rb cbs env).writeBufferList = [] := by
    simp [Conn.established, setStatus, Conn.log, Conn.new]
  have hfb : (Conn.established rb cbs env).fileBuffer = [] := by
    simp [Conn.established, setStatus, Conn.log, Conn.new]
  have hsent : (Conn.established rb cbs env).sent = [] := by
    refine sentOf_eq_nil fun e he xs => ?_
    rcases mem_trace_established he with rfl | rfl <;> exact Event.noConfusion
  refine ⟨by simp [hl], fun h => absurd hfb h, by simp [hw], ?_⟩
  simp [hsent, Conn.pending, hfb, hl]

/-- The invariant of such runs: `P` has been asked for so far. -/
structure Sending (c : Conn) (P : List Byte) : Prop where
  flow : Flow True c P
  status : c.status = .connected
  accepted : c.accepted = P
  frames : ∀ f ∈ c.frames, f.Sends

namespace Sending

variable {c c' : Conn} {P : List Byte}

theorem outputs (h : Sending c P) (hf : Flow True c' P) (ho : Outputs c c') : Sending c' P :=
  ⟨hf, ho.status.trans h.status, ho.accepted.trans h.accepted, ho.frames_sends h.frames⟩

theorem accept (h : Sending c P) {xs : List Byte} (hf : Flow True c' (P ++ xs))
    (ho : Outputs (c.log (.accept xs)) c') : Sending c' (P ++ xs) := by
  have hacc : (c.log (.accept xs)).accepted = P ++ xs := by
    rw [Outputs.accepted_log, h.accepted]
  exact ⟨hf, ho.status.trans h.status, ho.accepted.trans hacc, ho.frames_sends h.frames⟩

theorem env (h : Sending c P) (env : Env) : Sending { c with env := env } P :=
  ⟨h.flow.congr rfl rfl rfl rfl, h.status, h.accepted, h.frames⟩

theorem pop (h : Sending c P) {f : Frame} {fs : List Frame} (hf : c.frames = f :: fs) :
    Sending { c with frames := fs } P :=
  ⟨h.flow.congr rfl rfl rfl rfl, h.status, h.accepted,
    fun g hg => h.frames g (by rw [hf]; exact List.mem_cons_of_mem _ hg)⟩

theorem pushNode (h : Sending c P) {node : BufferNode} (hok : node.Ok True)
    (hf : node.isFile = true) :
    Post (· = .badAlloc) (fun c' => Sending c' (P ++ node.pending))
      ((c.log (.accept node.pending)).pushNode node) := by
  refine ((h.flow.log _).pushNode hok hf).mono (fun _ hf => hf.elim) fun c' hc => ?_
  exact h.accept hc.1 (Outputs.of_writes hc.2.1)

theorem call (h : Sending c P) {k : Call} (hk : k.Sends)
    (hkeep : ∀ msg, k = .send msg → c.KeepsPayload msg.bytes) :
    Post (· = .badAlloc) (fun c' => Sending c' (P ++ k.payload)) (c.call k) := by
  cases k with
  | send msg =>
      refine (h.flow.sendInLoop msg.fits h.status).mono (fun _ he => he) fun c' hc => ?_
      exact h.accept (hc.2.2 (hkeep msg rfl))
        ((Outputs.of_extendLife _).trans (Outputs.of_sendsInLoop hc.1))
  | sendFile file offset length =>
      cases file with
      | none =>
          simp only [Conn.call, Conn.sendFile, Call.payload, List.append_nil]
          exact h
      | some file =>
          obtain ⟨hpos, hr⟩ := hk
          simp only [Conn.call, Conn.sendFile]
          unfold Conn.sendFileFd
          rw [if_pos hpos]
          exact h.pushNode (ok_file rfl rfl fun _ => hr) rfl
  | sendStream callback =>
      obtain ⟨chunks, rfl⟩ := Option.isSome_iff_exists.mp hk
      exact h.pushNode (ok_stream rfl) rfl
  | shutdown => exact hk.elim
  | forceClose => exact hk.elim

theorem handleWrite (h : Sending c P) :
    Post (· = .badAlloc) (fun c' => Sending c' P) c.handleWrite := by
  refine h.flow.handleWrite.mono (fun _ hf => hf.elim) fun c' hc => ?_
  exact h.outputs hc.1 ((Outputs.of_extendLife c).trans (Outputs.of_handleWrites hc.2))

theorem push (h : Sending c P) {f : Frame} (hf : f.Sends) : Sending (c.push f) P := by
  refine ⟨h.flow.push f, h.status, h.accepted, ?_⟩
  intro g hg
  rcases List.mem_cons.mp hg with rfl | hg
  · exact hf
  · exact h.frames g hg

theorem resume (h : Sending c P) {f : Frame} (hf : f.Sends) :
    Post (· = .badAlloc) (fun c' => Sending c' P) (c.resume f) := by
  cases f with
  | callback => exact h
  | handleWriteRest =>
      simp only [Conn.resume, handleWriteRest, h.status]
      exact h
  | dispatch todo =>
      cases todo with
      | nil => exact h
      | cons hd tl =>
          obtain rfl : hd = .write := hf hd List.mem_cons_self
          have htl : (Frame.dispatch tl).Sends := fun hd hmem => hf hd (List.mem_cons_of_mem _ hmem)
          exact (h.push htl).handleWrite
  | handleCloseRest => exact hf.elim
  | extendLife => exact hf.elim
  | channelRemove => exact hf.elim

/-- The step lemma: a step of the send path that loses no payload keeps the
invariant, and can only fail for want of memory. -/
theorem step_of_keeps (h : Sending c P) {l : Label} (hact : l.act.Sends)
    (hkeep : KeepsSend c l) :
    Post (· = .badAlloc) (fun c' => Sending c' (P ++ l.act.payload))
      ({ c with env := l.env }.exec l.act) := by
  have henv := h.env l.env
  cases hla : l.act with
  | connectEstablished => rw [hla] at hact; exact hact.elim
  | connectDestroyed => rw [hla] at hact; exact hact.elim
  | call k =>
      rw [hla] at hact
      exact henv.call hact fun msg hk => hkeep msg (by rw [hla, hk])
  | event revents =>
      rw [hla] at hact
      obtain rfl : revents = POLLOUT := hact
      simp only [Act.payload, List.append_nil]
      refine ⟨henv.flow.congr rfl rfl rfl rfl, h.status, h.accepted, ?_⟩
      intro f hf
      rcases List.mem_cons.mp hf with rfl | hf
      · exact handleEvent_pollout _
      · exact h.frames f hf
  | resume =>
      simp only [Act.payload, List.append_nil, exec]
      split
      · exact henv
      · rename_i f fs hf
        exact (henv.pop hf).resume (h.frames f (by rw [hf]; exact List.mem_cons_self))

theorem step (h : Sending c P) {l : Label} (hl : l.Sends) :
    Post (· = .badAlloc) (fun c' => Sending c' (P ++ l.act.payload))
      ({ c with env := l.env }.exec l.act) :=
  h.step_of_keeps hl.1 fun _ _ =>
    NonFatal.keepsPayload (c := { c with env := l.env }) hl.2 _

theorem established (rb : MessageBuffer) (cbs : Callbacks) (env : Env) :
    Sending (Conn.established rb cbs env) [] := by
  refine ⟨flow_established rb cbs env, ?_, ?_, ?_⟩
  · simp [Conn.established, setStatus, Conn.log]
  · refine List.flatMap_eq_nil_iff.mpr fun e he => ?_
    rcases mem_trace_established he with rfl | rfl <;> rfl
  · unfold Conn.established Conn.invoke
    split <;> simp [setStatus, Conn.log, Conn.new, Conn.push, Frame.Sends]

end Sending

/-- A step of the send path. -/
def SendStep : Conn → Label → Conn → Prop := Guarded ConnStep fun _ l => l.Sends

/-- The run lemma: the payloads of the run's calls have been asked for. -/
theorem Sending.run {c c' : Conn} {P : List Byte} {ls : List Label} (h : Sending c P)
    (hrun : Run SendStep c ls c') : Sending c' (P ++ ls.flatMap fun l => l.act.payload) := by
  induction hrun with
  | nil => simpa using h
  | snoc _ hs ih =>
      obtain ⟨⟨-, hex⟩, hl⟩ := hs
      have hstep := (ih.step hl).of_ok hex
      simpa using hstep

/-! ## Conservation -/

/-- **Bytes are conserved and stay in order.** In every run of sends and
write events on a connected connection, what the kernel has accepted
followed by what is pending is the concatenation of all payloads in the
order of the calls. No step of such a run can fail, except for want of
memory. -/
theorem bytes_conserved (rb : MessageBuffer) (cbs : Callbacks) (env : Env) {ls : List Label}
    {c : Conn} (hrun : Run SendStep (Conn.established rb cbs env) ls c) :
    c.sent ++ c.pending = (ls.flatMap fun l => l.act.payload) ∧ c.status = .connected ∧
      ∀ l : Label, l.Sends → c.Enabled l.act →
        (∃ c', SendStep c l c') ∨ { c with env := l.env }.exec l.act = .error .badAlloc := by
  have h := (Sending.established rb cbs env).run hrun
  refine ⟨h.flow.conserved, h.status, fun l hl hen => ?_⟩
  have hpost := h.step hl
  cases hex : { c with env := l.env }.exec l.act with
  | ok c' => exact Or.inl ⟨c', ⟨hen, hex⟩, hl⟩
  | error f =>
      obtain rfl := hpost.of_error hex
      exact Or.inr rfl

/-- Nothing set, and a kernel that answers `io`. -/
def plainCallbacks : Callbacks := ⟨false, false, false, false, none⟩

def answering (io : List IoResult) : Env := ⟨io, .failed .wouldBlock, 0, false, false⟩

/-- A file of three bytes of which the kernel takes one, then a stream
behind it. -/
theorem bytes_conserved_file_stream : ∃ c,
    Run SendStep (Conn.established .blank plainCallbacks (answering []))
      [⟨.call (.sendFile (some [1, 2, 3]) 0 0), answering [.count 1]⟩,
        ⟨.call (.sendStream (some [⟨[4], by decide⟩])), answering []⟩] c ∧
      c.sent = [1] ∧ c.sent ++ c.pending = [1, 2, 3, 4] := by
  have hrun : Run SendStep (Conn.established .blank plainCallbacks (answering []))
      [⟨.call (.sendFile (some [1, 2, 3]) 0 0), answering [.count 1]⟩,
        ⟨.call (.sendStream (some [⟨[4], by decide⟩])), answering []⟩] _ :=
    .cons ⟨⟨Or.inl rfl, rfl⟩, ⟨by decide, by decide⟩, by simp [answering]⟩
      (.cons ⟨⟨Or.inl rfl, rfl⟩, rfl, by simp [answering]⟩ (.nil _))
  exact ⟨_, hrun, rfl, (bytes_conserved _ _ _ hrun).1⟩

/-! ## After a write error -/

/-- A step of the send path, with any answers of the kernel. -/
def AnySendStep : Conn → Label → Conn → Prop := Guarded ConnStep fun _ l => l.act.Sends

theorem Sending.run_of_keeps {c c' : Conn} {P : List Byte} {ls : List Label} (h : Sending c P)
    (hrun : Run (Guarded AnySendStep KeepsSend) c ls c') :
    Sending c' (P ++ ls.flatMap fun l => l.act.payload) := by
  induction hrun with
  | nil => simpa using h
  | snoc _ hs ih =>
      obtain ⟨⟨⟨-, hex⟩, hact⟩, hkeep⟩ := hs
      have hstep := (ih.step_of_keeps hact hkeep).of_ok hex
      simpa using hstep

/-- **No holes after a write error.** The kernel may answer anything. As
long as no payload is given up by a direct write of `sendInLoop`, what it
has accepted is at every moment a front part of the payloads in the order
of the calls. -/
theorem no_holes (rb : MessageBuffer) (cbs : Callbacks) (env : Env) {ls pre : List Label}
    {c : Conn} (hguard : EveryStep AnySendStep KeepsSend (Conn.established rb cbs env) ls)
    (hpre : pre <+: ls) (hrun : Run AnySendStep (Conn.established rb cbs env) pre c) :
    c.sent <+: pre.flatMap (fun l => l.act.payload) ∧ c.status = .connected := by
  have h := (Sending.established rb cbs env).run_of_keeps (hguard.guarded hpre hrun)
  exact ⟨⟨c.pending, h.flow.conserved⟩, h.status⟩

/-- A message, and a stream of two bytes of which the kernel takes one; the
write of the other one fails, and then succeeds. -/
def retried : List Label :=
  [⟨.call (.send ⟨[0], by decide⟩), answering [.count 1]⟩,
    ⟨.call (.sendStream (some [⟨[1, 2], by decide⟩])), answering [.count 1]⟩,
    ⟨.event POLLOUT, answering []⟩, ⟨.resume, answering [.failed .other]⟩,
    ⟨.resume, answering []⟩, ⟨.event POLLOUT, answering []⟩, ⟨.resume, answering [.count 1]⟩]

theorem no_holes_retried : ∃ c,
    Run AnySendStep (Conn.established .blank plainCallbacks (answering [])) retried c ∧
      c.sent = [0, 1, 2] ∧ c.sent <+: [0, 1, 2] := by
  have hrun : Run AnySendStep (Conn.established .blank plainCallbacks (answering [])) retried _ :=
    .cons ⟨⟨Or.inl rfl, rfl⟩, trivial⟩ <| .cons ⟨⟨Or.inl rfl, rfl⟩, rfl⟩ <|
      .cons ⟨⟨rfl, rfl⟩, rfl⟩ <| .cons ⟨⟨List.cons_ne_nil _ _, rfl⟩, trivial⟩ <|
      .cons ⟨⟨List.cons_ne_nil _ _, rfl⟩, trivial⟩ <| .cons ⟨⟨rfl, rfl⟩, rfl⟩ <|
      .cons ⟨⟨List.cons_ne_nil _ _, rfl⟩, trivial⟩ <| .nil _
  have hguard : EveryStep AnySendStep KeepsSend
      (Conn.established .blank plainCallbacks (answering [])) retried := by
    refine everyStep_of_labels fun l hl c msg hmsg => ?_
    -- the only send is answered by a count
    have hio : ∀ l ∈ retried, ∀ m, l.act = .call (.send m) → l.env.io = [.count 1] := by
      simp [retried, answering]
    intro _ _ _
    change l.env.io.head?.all _ = true
    rw [hio l hl msg hmsg]
    rfl
  exact ⟨_, hrun, rfl, (no_holes _ _ _ hguard (List.prefix_refl _) hrun).1⟩

/-- The first message is given up for an error that passes, such as
`ENOBUFS`, and the second one goes through. -/
theorem hole_after_error : ∃ c,
    Run AnySendStep (Conn.established .blank plainCallbacks (answering []))
      [⟨.call (.send ⟨[1], by decide⟩), answering [.failed .other]⟩,
        ⟨.call (.send ⟨[2], by decide⟩), answering [.count 1]⟩] c ∧
      c.sent = [2] ∧ ¬ c.sent <+: [1, 2] := by
  exact ⟨_, .cons ⟨⟨Or.inl rfl, rfl⟩, trivial⟩ (.cons ⟨⟨Or.inl rfl, rfl⟩, trivial⟩ (.nil _)), rfl,
    by decide⟩

/-! ## Stalled output -/

/-- Pending data does not wait for an unrelated later send. -/
def Conn.NotStalled (c : Conn) : Prop :=
  c.status = .connected → c.writeBufferList ≠ [] → c.channel.isWriting = true

/-- A `sendFile` on an empty list is answered by a positive count. -/
def StartsFile (c : Conn) (l : Label) : Prop :=
  ∀ file offset length, l.act = .call (.sendFile (some file) offset length) →
    c.writeBufferList = [] → ∃ m rs, l.env.io = .count (m + 1) :: rs

namespace Sending

variable {c c' : Conn} {P : List Byte}

theorem not_writing (h : Sending c P) (hl : c.writeBufferList = []) :
    c.channel.isWriting = false := by
  by_contra hw
  exact h.flow.writing (by simpa using hw) hl

theorem notStalled_iff (h : Sending c P) :
    c.NotStalled ↔ (c.writeBufferList ≠ [] → c.channel.isWriting = true) :=
  ⟨fun hn => hn h.status, fun hn _ => hn⟩

theorem notStalled_sendsInLoop {c₁ : Conn}
    (hn : c₁.writeBufferList ≠ [] → c₁.channel.isWriting = true) (hs : SendsInLoop c₁ c') :
    c'.writeBufferList ≠ [] → c'.channel.isWriting = true := by
  cases hs with
  | direct he hch =>
      obtain ⟨ch, fb, t, env, evs, rfl, -, -⟩ := he
      rw [hch]
      exact hn
  | queued _ _ hq =>
      obtain ⟨list, isSet, n, -, rfl⟩ := hq
      intro _
      simp

theorem notStalled_handleWrites (hnf : c.NonFatal)
    (hn : c.writeBufferList ≠ [] → c.channel.isWriting = true) (hs : HandleWrites c c') :
    c'.writeBufferList ≠ [] → c'.channel.isWriting = true := by
  cases hs with
  | idle => exact hn
  | wrote hw hwr => exact fun _ => hwr.2.2 hnf hw
  | drained =>
      intro hne
      simp [Conn.drained, Conn.push] at hne

/-- `sendFile` and `sendStream`: only a file that is started on an empty
list can be left without write interest. -/
theorem notStalled_pushNode (h : Sending c P) (hnf : c.NonFatal)
    (hn : c.writeBufferList ≠ [] → c.channel.isWriting = true) {node : BufferNode}
    (hok : node.Ok True) (hf : node.isFile = true) (hpos : 0 < node.fileBytesToSend)
    (hex : (c.log (.accept node.pending)).pushNode node = .ok c') :
    c'.writeBufferList ≠ [] ∧ (c'.channel.isWriting = true ↔
      (c.writeBufferList = [] → node.streamCallback.isSome ∨ c.TakesSome)) := by
  obtain ⟨-, hwr, hiff⟩ := ((h.flow.log _).pushNode hok hf).of_ok hex
  refine ⟨hwr.1, ?_⟩
  by_cases hl : c.writeBufferList = []
  · rw [hiff hl hpos hnf (h.not_writing hl), starts_iff hok hpos]
    exact ⟨fun hs _ => hs, fun hs => hs hl⟩
  · exact ⟨fun _ hnil => absurd hnil hl, fun _ => hwr.2.2 hnf (hn hl)⟩

theorem notStalled_resume (h : Sending c P) (hnf : c.NonFatal) {f : Frame} (hf : f.Sends)
    (hn : c.writeBufferList ≠ [] → c.channel.isWriting = true) (hex : c.resume f = .ok c') :
    c'.writeBufferList ≠ [] → c'.channel.isWriting = true := by
  cases f with
  | callback =>
      cases hex
      exact hn
  | handleWriteRest =>
      simp only [Conn.resume, handleWriteRest, h.status] at hex
      cases hex
      exact hn
  | dispatch todo =>
      cases todo with
      | nil =>
          cases hex
          exact hn
      | cons hd tl =>
          obtain rfl : hd = .write := hf hd List.mem_cons_self
          obtain ⟨-, hhw⟩ := (h.flow.push (.dispatch tl)).handleWrite.of_ok hex
          obtain ⟨t, evs, heq, -⟩ := (c.push (.dispatch tl)).extendLife_eq
          rw [heq] at hhw
          refine notStalled_handleWrites ?_ ?_ hhw
          · exact hnf
          · exact hn
  | handleCloseRest => exact hf.elim
  | extendLife => exact hf.elim
  | channelRemove => exact hf.elim

/-- A `sendFile` in range leaves a node, and write interest exactly if its
first `sendfile` was answered by a positive count or others wait. -/
theorem notStalled_sendFile (h : Sending c P) (hnf : c.NonFatal)
    (hn : c.writeBufferList ≠ [] → c.channel.isWriting = true) {file : List Byte}
    {offset length : Nat} (hk : (Call.sendFile (some file) offset length).Sends)
    (hex : c.call (.sendFile (some file) offset length) = .ok c') :
    c'.writeBufferList ≠ [] ∧
      (c'.channel.isWriting = true ↔ (c.writeBufferList = [] → c.TakesSome)) := by
  obtain ⟨hpos, hr⟩ := hk
  simp only [Conn.call, Conn.sendFile] at hex
  unfold Conn.sendFileFd at hex
  rw [if_pos hpos] at hex
  obtain ⟨hne, hiff⟩ := h.notStalled_pushNode hnf hn (ok_file rfl rfl fun _ => hr) rfl hpos hex
  refine ⟨hne, ?_⟩
  simpa using hiff

theorem notStalled_call (h : Sending c P) (hnf : c.NonFatal)
    (hn : c.writeBufferList ≠ [] → c.channel.isWriting = true) {k : Call} (hk : k.Sends)
    (hg : ∀ file offset length, k = .sendFile (some file) offset length →
      c.writeBufferList = [] → c.TakesSome) (hex : c.call k = .ok c') :
    c'.writeBufferList ≠ [] → c'.channel.isWriting = true := by
  cases k with
  | send msg =>
      obtain ⟨hs, -, -⟩ := (h.flow.sendInLoop msg.fits h.status).of_ok hex
      obtain ⟨t, evs, heq, -⟩ := (c.log (.accept msg.bytes)).extendLife_eq
      rw [heq] at hs
      refine notStalled_sendsInLoop ?_ hs
      exact hn
  | sendFile file offset length =>
      cases file with
      | none =>
          cases hex
          exact hn
      | some file =>
          obtain ⟨-, hiff⟩ := h.notStalled_sendFile hnf hn hk hex
          exact fun _ => hiff.mpr (hg file offset length rfl)
  | sendStream callback =>
      obtain ⟨chunks, rfl⟩ := Option.isSome_iff_exists.mp hk
      obtain ⟨-, hiff⟩ := h.notStalled_pushNode hnf hn (ok_stream rfl) rfl Nat.one_pos hex
      exact fun _ => hiff.mpr fun _ => Or.inl rfl
  | shutdown => exact hk.elim
  | forceClose => exact hk.elim

theorem notStalled_step (h : Sending c P) {l : Label} (hn : c.NotStalled) (hg : StartsFile c l)
    (hs : SendStep c l c') : c'.NotStalled := by
  obtain ⟨⟨-, hex⟩, hl⟩ := hs
  obtain ⟨hact, hnf⟩ := id hl
  have h' := (h.step hl).of_ok hex
  rw [h.notStalled_iff] at hn
  rw [h'.notStalled_iff]
  have henv := h.env l.env
  cases hla : l.act with
  | connectEstablished => rw [hla] at hact; exact hact.elim
  | connectDestroyed => rw [hla] at hact; exact hact.elim
  | call k =>
      rw [hla] at hact hex
      refine henv.notStalled_call hnf hn hact ?_ hex
      intro file offset length hk
      exact hg file offset length (by rw [hla, hk])
  | event revents =>
      rw [hla] at hex
      cases hex
      exact hn
  | resume =>
      rw [hla] at hex
      simp only [exec] at hex
      split at hex
      · cases hex
        exact hn
      · rename_i f fs hf
        have hfs : f.Sends := h.frames f (by rw [hf]; exact List.mem_cons_self)
        exact (henv.pop hf).notStalled_resume hnf hfs hn hex

theorem stalled_step (h : Sending c P) {l : Label} (hn : c.NotStalled) (hg : ¬ StartsFile c l)
    (hs : SendStep c l c') : ¬ c'.NotStalled := by
  obtain ⟨⟨-, hex⟩, hl⟩ := hs
  obtain ⟨hact, hnf⟩ := id hl
  have h' := (h.step hl).of_ok hex
  rw [h.notStalled_iff] at hn
  rw [h'.notStalled_iff]
  simp only [StartsFile, not_forall] at hg
  obtain ⟨file, offset, length, hla, hnil, hno⟩ := hg
  rw [hla] at hact hex
  obtain ⟨hne, hiff⟩ := (h.env l.env).notStalled_sendFile hnf hn hact hex
  intro hw
  exact hno (hiff.mp (hw hne) hnil)

end Sending

/-- **No stalled output.** In every run of sends and write events, a
non-empty write list of the connected connection has write interest in
every state, exactly when every `sendFile` that finds the list empty is
answered by a positive count. -/
theorem notStalled_iff_startsFile (rb : MessageBuffer) (cbs : Callbacks) (env : Env)
    (ls : List Label) :
    Throughout SendStep Conn.NotStalled (Conn.established rb cbs env) ls ↔
      EveryStep SendStep StartsFile (Conn.established rb cbs env) ls := by
  have h0 := Sending.established rb cbs env
  refine throughout_iff_everyStep (I := fun c => (∃ P, Sending c P) ∧ c.NotStalled) ?_ ?_ ?_ ?_
  · refine ⟨⟨[], h0⟩, fun _ hne => ?_⟩
    simp [Conn.established, setStatus, Conn.log, Conn.new] at hne
  · rintro c l c' ⟨⟨P, h⟩, hn⟩ hg hs
    exact ⟨⟨_, (h.step hs.2).of_ok hs.1.2⟩, h.notStalled_step hn hg hs⟩
  · exact fun c h => h.2
  · rintro c l c' ⟨⟨P, h⟩, hn⟩ hg hs
    exact h.stalled_step hn hg hs

/-- `sendFile` on an idle connection with a full socket buffer: the node
is left in the list and nobody waits for the socket. -/
theorem stalled_sendFile :
    ¬ Throughout SendStep Conn.NotStalled (Conn.established .blank plainCallbacks (answering []))
      [⟨.call (.sendFile (some [1, 2, 3]) 0 0), answering [.failed .wouldBlock]⟩] := by
  intro h
  have hnot := h _ _ (List.prefix_refl _)
    (.cons ⟨⟨Or.inl rfl, rfl⟩, ⟨by decide, by decide⟩, by simp [answering]⟩ (.nil _))
  exact absurd (hnot rfl (List.cons_ne_nil _ _)) (by decide)

end Netpoll
