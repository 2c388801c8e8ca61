import Netpoll.WriteQueue

/-!
# The write-complete notification

A connected connection with a write-complete callback that sends, and has
its writable events handled. A notification is due (`Conn.due`) from the
moment a non-empty payload is accepted until the callback is called.

The buffered path notifies: as long as one is due the list is not empty,
`handleWrite` calls the callback when it empties the list, and at that
moment nothing is pending (`NoneEarly`). The direct write of `sendInLoop`
does not: a message that the socket takes whole on an idle connection
leaves nothing behind and nothing called. So every run notifies exactly
when no message is taken whole by that first write.
-/

namespace Netpoll

open Conn

/-! ## Notifications on the trace -/

/-- Whether a notification is due after an event. -/
def awaits (due : Bool) : Event → Bool
  | .accept xs => due || !xs.isEmpty
  | .writeComplete => false
  | _ => due

/-- A non-empty payload has been accepted since the last call of the
callback. -/
def Conn.due (c : Conn) : Bool := c.trace.foldl awaits false

/-- Nothing accepted was pending at any call of the callback. -/
def NoneEarly (trace : List Event) : Prop :=
  ∀ pre post, trace = pre ++ .writeComplete :: post → sentOf pre = acceptedOf pre

/-- With everything sent no notification is due, and none came early. -/
def Conn.Notified (c : Conn) : Prop :=
  (c.writeBufferList = [] → c.channel.isWriting = false → c.sent = c.accepted → c.due = false) ∧
    NoneEarly c.trace

/-- Events that are neither payloads nor notifications. -/
def Event.Silent : Event → Prop
  | .accept _ | .writeComplete => False
  | _ => True

theorem awaits_silent {evs : List Event} (h : ∀ e ∈ evs, e.Silent) (due : Bool) :
    evs.foldl awaits due = due := by
  induction evs generalizing due with
  | nil => rfl
  | cons e evs ih =>
      have he : awaits due e = due := by
        have := h e List.mem_cons_self
        cases e with
        | accept xs => exact this.elim
        | writeComplete => exact this.elim
        | _ => rfl
      rw [List.foldl_cons, he]
      exact ih (fun e' he' => h e' (List.mem_cons_of_mem _ he')) due

theorem NoneEarly.silent {t evs : List Event} (ht : NoneEarly t) (h : ∀ e ∈ evs, e.Silent) :
    NoneEarly (t ++ evs) := by
  intro pre post heq
  obtain ⟨post', ht'⟩ := occurs_before heq fun hmem => h _ hmem
  exact ht pre post' ht'

theorem NoneEarly.writeComplete {t : List Event} (ht : NoneEarly t) (h : sentOf t = acceptedOf t) :
    NoneEarly (t ++ [.writeComplete]) := by
  intro pre post heq
  rcases List.eq_nil_or_concat post with rfl | ⟨post', e, rfl⟩
  · obtain ⟨rfl, -⟩ := List.append_inj' heq rfl
    exact h
  · rw [List.concat_eq_append, ← List.cons_append, ← List.append_assoc] at heq
    obtain ⟨heq', -⟩ := List.append_inj' heq rfl
    exact ht pre post' heq'

theorem NoneEarly.accept {t : List Event} (ht : NoneEarly t) (xs : List Byte) :
    NoneEarly (t ++ [.accept xs]) := by
  intro pre post heq
  obtain ⟨post', ht'⟩ := occurs_before heq (by simp)
  exact ht pre post' ht'

theorem due_log (c : Conn) (xs : List Byte) :
    (c.log (.accept xs)).due = (c.due || !xs.isEmpty) := by
  simp only [Conn.due, Conn.log, List.foldl_append, List.foldl_cons, List.foldl_nil, awaits]

/-- Only silent events have been added to the trace. -/
def AddsSilent (c c' : Conn) : Prop :=
  ∃ evs, c'.trace = c.trace ++ evs ∧ ∀ e ∈ evs, e.Silent

namespace AddsSilent

variable {c c₁ c₂ c₃ : Conn}

theorem trans (h₁ : AddsSilent c₁ c₂) (h₂ : AddsSilent c₂ c₃) : AddsSilent c₁ c₃ := by
  obtain ⟨evs, ht, hevs⟩ := h₁
  obtain ⟨evs', ht', hevs'⟩ := h₂
  refine ⟨evs ++ evs', by rw [ht', ht, List.append_assoc], fun e he => ?_⟩
  exact (List.mem_append.mp he).elim (hevs e) (hevs' e)

theorem of_emits (h : Emits c₁ c₂) : AddsSilent c₁ c₂ := by
  obtain ⟨ch, fb, t, env, evs, rfl, hevs, -⟩ := h
  refine ⟨evs, rfl, fun e he => ?_⟩
  obtain ⟨xs, rfl⟩ := hevs e he
  trivial

theorem of_extendLife (c : Conn) : AddsSilent c c.extendLife := by
  obtain ⟨t, evs, heq, hevs⟩ := c.extendLife_eq
  rw [heq]
  refine ⟨evs, rfl, fun e he => ?_⟩
  rw [hevs e he]
  trivial

theorem of_writes (h : Writes c₁ c₂) : AddsSilent c₁ c₂ := by
  obtain ⟨evs, ht, hevs⟩ := of_emits h.2.1
  exact ⟨evs, ht, hevs⟩

theorem of_sendsInLoop (h : SendsInLoop c₁ c₂) : AddsSilent c₁ c₂ := by
  cases h with
  | direct he _ => exact of_emits he
  | @queued c _ he _ hq =>
      refine (of_emits he).trans ?_
      obtain ⟨list, isSet, n, -, rfl⟩ := hq
      obtain ⟨evs, ht, hevs⟩ :=
        ({ c with writeBufferList := list }.startWriting).invoke_trace isSet (.highWaterMark n)
      obtain ⟨ch, hch⟩ := ({ c with writeBufferList := list } : Conn).startWriting_eq
      refine ⟨evs, ?_, fun e he => ?_⟩
      · rw [ht, hch]
      · rw [hevs e he]
        trivial

theorem due (h : AddsSilent c₁ c₂) : c₂.due = c₁.due := by
  obtain ⟨evs, ht, hevs⟩ := h
  rw [Conn.due, ht, List.foldl_append, awaits_silent hevs]
  rfl

theorem noneEarly (h : AddsSilent c₁ c₂) (hs : NoneEarly c₁.trace) : NoneEarly c₂.trace := by
  obtain ⟨evs, ht, hevs⟩ := h
  rw [ht]
  exact hs.silent hevs

end AddsSilent

/-! ## Runs of sends -/

/-- A send of the user, with any range of a file; a stream has a callback. -/
def Call.IsSend : Call → Prop
  | .send _ | .sendFile _ _ _ => True
  | .sendStream callback => callback.isSome
  | .shutdown | .forceClose => False

def Act.IsSend : Act → Prop
  | .call k => k.IsSend
  | .event revents => revents = POLLOUT
  | .resume => True
  | .connectEstablished | .connectDestroyed => False

/-- A step with partial writes, but no fatal error. -/
def NotifyStep : Conn → Label → Conn → Prop :=
  Guarded ConnStep fun _ l => l.act.IsSend ∧ ∀ e, .failed e ∈ l.env.io → e = .wouldBlock

/-- No message is taken whole by the direct write on an idle connection. -/
def NotTakenWhole (c : Conn) (l : Label) : Prop :=
  ∀ msg, l.act = .call (.send msg) → msg.bytes ≠ [] → c.channel.isWriting = false →
    c.writeBufferList = [] → ¬ ∃ n rs, l.env.io = .count n :: rs ∧ msg.bytes.length ≤ n

structure Notifying (c : Conn) : Prop where
  flow : Flow False c c.accepted
  status : c.status = .connected
  callback : c.callbacks.writeComplete = true
  frames : ∀ f ∈ c.frames, f.Sends
  listed : c.writeBufferList = [] → c.due = false
  noneEarly : NoneEarly c.trace

namespace Conn

variable {c c' : Conn}

theorem pushRest_list {xs : List Byte} (hex : c.pushRest xs = .ok c') :
    c'.writeBufferList ≠ [] := by
  unfold pushRest at hex
  split at hex
  · cases hex
  · split at hex
    · cases hex
    · rename_i back hback b hb
      cases hpb : b.pushBack xs with
      | error f =>
          rw [hpb] at hex
          cases hex
      | ok b' =>
          rw [hpb, ok_bind] at hex
          simp only at hex
          split at hex
          · cases hex
            simp
          · cases hex
            simp

theorem queueRest_list {xs : List Byte} {n : Nat} (hex : c.queueRest xs n = .ok c')
    (hst : c.status = .connected) (hl : c.writeBufferList = []) :
    c'.writeBufferList = [] ↔ xs.length ≤ n := by
  unfold queueRest at hex
  by_cases hlt : xs.length - n > 0
  · rw [if_pos ⟨hlt, hst⟩] at hex
    cases hback : c.withMsgBack with
    | error f =>
        rw [hback] at hex
        cases hex
    | ok c₁ =>
        rw [hback, ok_bind] at hex
        exact iff_of_false (pushRest_list hex) (by omega)
  · rw [if_neg (fun h => hlt h.1)] at hex
    cases hex
    exact iff_of_true hl (by omega)

theorem sendInLoop_list {xs : List Byte} (hst : c.status = .connected)
    (hw : c.channel.isWriting = false) (hl : c.writeBufferList = []) (hnf : c.NonFatal)
    (hxs : xs ≠ []) (hex : c.sendInLoop xs = .ok c') :
    c'.writeBufferList = [] ↔ ∃ n rs, c.env.io = .count n :: rs ∧ xs.length ≤ n := by
  obtain ⟨t, evs, heq, -⟩ := (c.log (.accept xs)).extendLife_eq
  have hpos : 0 < xs.length := List.length_pos_iff.mpr hxs
  have hlog : (c.log (.accept xs)).extendLife.status = c.status ∧
      (c.log (.accept xs)).extendLife.channel = c.channel ∧
      (c.log (.accept xs)).extendLife.writeBufferList = c.writeBufferList ∧
      (c.log (.accept xs)).extendLife.env = c.env := by
    rw [heq]
    exact ⟨rfl, rfl, rfl, rfl⟩
  unfold sendInLoop at hex
  rw [if_neg (by simp [hst])] at hex
  simp only at hex
  generalize (c.log (.accept xs)).extendLife = c₁ at hlog hex
  obtain ⟨hst₁, hch₁, hl₁, henv₁⟩ := hlog
  rw [hst] at hst₁
  rw [hl] at hl₁
  rw [if_pos (by rw [hch₁, hw, hl₁]; rfl)] at hex
  unfold writeInLoop nextIo at hex
  rw [henv₁] at hex
  cases hio : c.env.io with
  | nil =>
      simp only [hio, writeSocketError, Bool.false_eq_true, if_false] at hex
      rw [queueRest_list hex hst₁ hl₁]
      exact iff_of_false (by omega) nofun
  | cons r rs =>
      cases r with
      | failed e =>
          obtain rfl : e = .wouldBlock := hnf e (hio ▸ List.mem_cons_self)
          simp only [hio, writeSocketError, Bool.false_eq_true, if_false] at hex
          rw [queueRest_list hex hst₁ hl₁]
          exact iff_of_false (by omega) nofun
      | count n =>
          simp only [hio] at hex
          rw [queueRest_list hex hst₁ hl₁, Nat.le_min]
          constructor
          · intro h
            exact ⟨n, rs, rfl, h.1⟩
          · rintro ⟨m, rs', heq, hle⟩
            cases heq
            exact ⟨hle, Nat.le_refl _⟩

end Conn

/-! ## The invariant -/

namespace Notifying

variable {c c' : Conn}

theorem notified (h : Notifying c) : c.Notified := ⟨fun hl _ _ => h.listed hl, h.noneEarly⟩

theorem outputs (h : Notifying c) (hf : Flow False c' c.accepted) (ho : Outputs c c')
    (ha : AddsSilent c c') (hl : c'.writeBufferList = [] → c.writeBufferList = []) :
    Notifying c' where
  flow := by
    rw [ho.accepted]
    exact hf
  status := ho.status.trans h.status
  callback := by
    rw [ho.callbacks]
    exact h.callback
  frames := ho.frames_sends h.frames
  listed hnil := ha.due.trans (h.listed (hl hnil))
  noneEarly := ha.noneEarly h.noneEarly

theorem accept {xs : List Byte} (h : Notifying c) (hf : Flow False c' (c.accepted ++ xs))
    (ho : Outputs (c.log (.accept xs)) c') (ha : AddsSilent (c.log (.accept xs)) c')
    (hl : c'.writeBufferList = [] → c.writeBufferList = [] ∧ xs = []) : Notifying c' where
  flow := by
    rw [ho.accepted, Outputs.accepted_log]
    exact hf
  status := ho.status.trans h.status
  callback := by
    rw [ho.callbacks]
    exact h.callback
  frames := ho.frames_sends h.frames
  listed hnil := by
    obtain ⟨hnil', rfl⟩ := hl hnil
    rw [ha.due, due_log, h.listed hnil']
    rfl
  noneEarly := ha.noneEarly (h.noneEarly.accept xs)

theorem sends (h : Notifying c) (hnf : c.NonFatal) {msg : View}
    (hex : c.sendInLoop msg.bytes = .ok c') :
    Flow False c' (c.accepted ++ msg.bytes) ∧ Outputs (c.log (.accept msg.bytes)) c' ∧
      AddsSilent (c.log (.accept msg.bytes)) c' := by
  obtain ⟨hs, -, hfl⟩ := (h.flow.sendInLoop msg.fits h.status).of_ok hex
  exact ⟨hfl (hnf.keepsPayload _),
    (Outputs.of_extendLife _).trans (Outputs.of_sendsInLoop hs),
    (AddsSilent.of_extendLife _).trans (AddsSilent.of_sendsInLoop hs)⟩

theorem not_writing (h : Notifying c) (hl : c.writeBufferList = []) :
    c.channel.isWriting = false := by
  by_contra hw
  exact h.flow.writing (by simpa using hw) hl

theorem send (h : Notifying c) (hnf : c.NonFatal) {msg : View}
    (hg : msg.bytes ≠ [] → c.channel.isWriting = false → c.writeBufferList = [] →
      ¬ ∃ n rs, c.env.io = .count n :: rs ∧ msg.bytes.length ≤ n)
    (hex : c.sendInLoop msg.bytes = .ok c') : Notifying c' := by
  obtain ⟨hfl, ho, ha⟩ := h.sends hnf hex
  refine h.accept hfl ho ha fun hnil => ?_
  have hl : c.writeBufferList = [] := by
    obtain ⟨hs, -, -⟩ := (h.flow.sendInLoop msg.fits h.status).of_ok hex
    obtain ⟨t, evs, heq, -⟩ := (c.log (.accept msg.bytes)).extendLife_eq
    cases hs with
    | direct he _ =>
        obtain ⟨ch, fb, t', env, evs', rfl, -, -⟩ := he
        rw [heq] at hnil
        exact hnil
    | queued _ _ hq => exact absurd hnil hq.list_ne_nil
  have hw := h.not_writing hl
  refine ⟨hl, ?_⟩
  by_contra hxs
  exact hg hxs hw hl ((sendInLoop_list h.status hw hl hnf hxs hex).mp hnil)

theorem pushNode (h : Notifying c) {node : BufferNode} (hok : node.Ok False)
    (hf : node.isFile = true) (hex : (c.log (.accept node.pending)).pushNode node = .ok c') :
    Notifying c' := by
  obtain ⟨hfl, hwr, -⟩ := ((h.flow.log _).pushNode hok hf).of_ok hex
  exact h.accept hfl (Outputs.of_writes hwr) (AddsSilent.of_writes hwr)
    fun hnil => absurd hnil hwr.1

/-- The callback is called once nothing is pending any more. -/
theorem drained (h : Notifying c) (hp : c.pending = [])
    (hf : Flow False c.drained c.accepted) : Notifying c.drained := by
  have hsent : sentOf c.trace = acceptedOf c.trace := by
    have hc := h.flow.conserved
    rwa [hp, List.append_nil] at hc
  have heq : c.drained = ({ c with
      writeBufferList := [], channel := c.channel.disableWriting }.push .handleWriteRest |>.log
        .writeComplete).push .callback := by
    rw [Conn.drained, invoke, if_pos h.callback]
  have hacc : c.drained.accepted = c.accepted := by
    rw [heq]
    simp [Conn.accepted, acceptedOf, Conn.log, Conn.push]
  refine ⟨by rw [hacc]; exact hf, ?_, ?_, ?_, ?_, ?_⟩
  · rw [heq]
    exact h.status
  · rw [heq]
    exact h.callback
  · rw [heq]
    intro f hmem
    rcases List.mem_cons.mp hmem with rfl | hmem
    · trivial
    · rcases List.mem_cons.mp hmem with rfl | hmem
      · trivial
      · exact h.frames f hmem
  · intro _
    rw [heq]
    simp [Conn.due, Conn.log, Conn.push, awaits]
  · rw [heq]
    exact h.noneEarly.writeComplete hsent

theorem extendLife (h : Notifying c) : Notifying c.extendLife := by
  obtain ⟨t, evs, heq, -⟩ := c.extendLife_eq
  refine h.outputs h.flow.extendLife (Outputs.of_extendLife c) (AddsSilent.of_extendLife c) ?_
  rw [heq]
  exact id

theorem handleWrite (h : Notifying c) (hex : c.handleWrite = .ok c') : Notifying c' := by
  obtain ⟨hfl, hhw⟩ := h.flow.handleWrite.of_ok hex
  have hx := h.extendLife
  have hacc : c.extendLife.accepted = c.accepted := (Outputs.of_extendLife c).accepted
  rw [← hacc] at hfl
  generalize c.extendLife = c₁ at hx hhw hfl
  cases hhw with
  | idle => exact hx
  | wrote _ hwr =>
      exact hx.outputs hfl (Outputs.of_writes hwr) (AddsSilent.of_writes hwr)
        fun hnil => absurd hnil hwr.1
  | drained _ hp => exact hx.drained hp hfl

/-! ## Steps -/

theorem setFrames (h : Notifying c) {fs : List Frame} (hfs : ∀ f ∈ fs, f.Sends) (env : Env) :
    Notifying { c with env := env, frames := fs } :=
  ⟨h.flow.congr rfl rfl rfl rfl, h.status, h.callback, hfs, h.listed, h.noneEarly⟩

theorem resume (h : Notifying c) {f : Frame} (hf : f.Sends) (hex : c.resume f = .ok c') :
    Notifying c' := by
  cases f with
  | callback =>
      cases hex
      exact h
  | handleWriteRest =>
      simp only [Conn.resume, handleWriteRest, h.status, reduceCtorEq, if_false] at hex
      cases hex
      exact h
  | dispatch todo =>
      cases todo with
      | nil =>
          cases hex
          exact h
      | cons hd tl =>
          obtain rfl : hd = .write := hf hd List.mem_cons_self
          refine handleWrite (h.setFrames ?_ c.env) hex
          intro g hg
          rcases List.mem_cons.mp hg with rfl | hg
          · exact fun hd hmem => hf hd (List.mem_cons_of_mem _ hmem)
          · exact h.frames g hg
  | handleCloseRest => exact hf.elim
  | extendLife => exact hf.elim
  | channelRemove => exact hf.elim

theorem step {l : Label} (h : Notifying c) (hg : NotTakenWhole c l) (hs : NotifyStep c l c') :
    Notifying c' := by
  obtain ⟨⟨-, hex⟩, hact, hnf⟩ := hs
  have henv := h.setFrames h.frames l.env
  cases hla : l.act with
  | connectEstablished => rw [hla] at hact; exact hact.elim
  | connectDestroyed => rw [hla] at hact; exact hact.elim
  | call k =>
      rw [hla] at hact hex
      cases k with
      | send msg => exact henv.send hnf (hg msg hla) hex
      | sendFile file offset length =>
          cases file with
          | none =>
              cases hex
              exact henv
          | some file =>
              simp only [exec, Conn.call, Conn.sendFile, sendFileFd] at hex
              split at hex
              · exact henv.pushNode (ok_file rfl rfl False.elim) rfl hex
              · cases hex
      | sendStream callback =>
          obtain ⟨chunks, rfl⟩ := Option.isSome_iff_exists.mp hact
          exact henv.pushNode (ok_stream rfl) rfl hex
      | shutdown => exact hact.elim
      | forceClose => exact hact.elim
  | event revents =>
      rw [hla] at hact hex
      obtain rfl : revents = POLLOUT := hact
      cases hex
      refine ⟨henv.flow.congr rfl rfl rfl rfl, h.status, h.callback, ?_, h.listed, h.noneEarly⟩
      intro f hf
      rcases List.mem_cons.mp hf with rfl | hf
      · exact handleEvent_pollout _
      · exact h.frames f hf
  | resume =>
      rw [hla] at hex
      simp only [exec] at hex
      split at hex
      · cases hex
        exact henv
      · rename_i f fs hf
        have hmem : ∀ g ∈ f :: fs, g.Sends := fun g hg => h.frames g (hf ▸ hg)
        exact resume (h.setFrames (fun g hg => hmem g (List.mem_cons_of_mem _ hg)) l.env)
          (hmem f List.mem_cons_self) hex

theorem established (rb : MessageBuffer) {cbs : Callbacks} (env : Env)
    (hcb : cbs.writeComplete = true) : Notifying (Conn.established rb cbs env) := by
  have h := Sending.established rb cbs env
  have htr : AddsSilent (Conn.new rb cbs env) (Conn.established rb cbs env) := by
    unfold Conn.established Conn.invoke
    split
    · exact ⟨[.status .connected, .connection true], rfl, by simp [Event.Silent]⟩
    · exact ⟨[.status .connected], rfl, by simp [Event.Silent]⟩
  refine ⟨?_, h.status, ?_, h.frames, fun _ => htr.due, htr.noneEarly ?_⟩
  · rw [h.accepted]
    exact flow_established rb cbs env
  · unfold Conn.established Conn.invoke
    split <;> exact hcb
  · exact fun pre post heq => absurd (congrArg List.length heq) (by simp [Conn.new])

end Notifying

end Netpoll
