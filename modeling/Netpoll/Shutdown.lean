import Netpoll.SendRuns

/-!
# Graceful shutdown

`shutdown()` closes the write side at once if there is no write interest,
and otherwise leaves it to `handleWrite`, once the list is empty. The
runs here are those of the send path together with calls of `shutdown`,
also out of callbacks.

A trace is `Graceful` if the write side is closed at most once, and not
before all bytes accepted before the shutdown are with the kernel.
It holds in every run whose steps meet `ShutdownGuard`; each part of the
guard keeps out one way to close too early or twice. The invariant is the
phase of the shutdown (`Phase`): connected, list still to be drained, rest
of `handleWrite` about to close, closed.
-/

namespace Netpoll

open Conn

/-! ## Graceful traces -/

/-- The payloads accepted before the effective `shutdown()`. -/
def beforeShutdown (trace : List Event) : List Byte :=
  acceptedOf (trace.takeWhile (· ≠ .status .disconnecting))

structure Graceful (trace : List Event) : Prop where
  complete : ∀ pre post, trace = pre ++ .closeWrite :: post → beforeShutdown pre <+: sentOf pre
  once : trace.count .closeWrite ≤ 1

variable {t evs : List Event}

theorem beforeShutdown_prefix (t : List Event) : beforeShutdown t <+: acceptedOf t := by
  obtain ⟨rest, hrest⟩ := List.takeWhile_prefix (l := t) (· ≠ Event.status .disconnecting)
  refine ⟨acceptedOf rest, ?_⟩
  conv_rhs => rw [← hrest]
  rw [acceptedOf_append]
  rfl

theorem graceful_of_not_mem (h : .closeWrite ∉ t) : Graceful t where
  complete pre post ht := absurd (by rw [ht]; simp) h
  once := by rw [List.count_eq_zero_of_not_mem h]; exact Nat.zero_le _

theorem occurs_before {pre post : List Event} {e : Event} (h : t ++ evs = pre ++ e :: post)
    (he : e ∉ evs) : ∃ post', t = pre ++ e :: post' := by
  rcases List.append_eq_append_iff.mp h with ⟨as, rfl, has⟩ | ⟨bs, rfl, hbs⟩
  · exact absurd (by rw [has]; simp) he
  · cases bs with
    | nil => exact absurd (by rw [List.nil_append] at hbs; rw [← hbs]; simp) he
    | cons b bs =>
        obtain ⟨rfl, -⟩ := List.cons.inj hbs
        exact ⟨bs, rfl⟩

theorem Graceful.append (h : Graceful t) (hevs : .closeWrite ∉ evs) : Graceful (t ++ evs) where
  complete pre post ht := by
    obtain ⟨post', ht'⟩ := occurs_before ht hevs
    exact h.complete pre post' ht'
  once := by
    rw [List.count_append, List.count_eq_zero_of_not_mem hevs]
    exact h.once

theorem graceful_close (h : .closeWrite ∉ t) (hsent : sentOf t = acceptedOf t) :
    Graceful (t ++ [.closeWrite]) where
  complete pre post ht := by
    rcases List.append_eq_append_iff.mp ht with ⟨as, rfl, has⟩ | ⟨bs, rfl, hbs⟩
    · cases as with
      | nil =>
          rw [List.append_nil, hsent]
          exact beforeShutdown_prefix t
      | cons a as =>
          have hnil := (List.cons.inj has).2
          simp at hnil
    · cases bs with
      | nil =>
          rw [List.append_nil] at hsent
          rw [hsent]
          exact beforeShutdown_prefix pre
      | cons b bs =>
          obtain ⟨rfl, -⟩ := List.cons.inj hbs
          simp at h
  once := by
    rw [List.count_append, List.count_eq_zero_of_not_mem h]
    exact Nat.le_refl _

/-! ## The machine and its guard -/

/-- A step of the send path, or a `shutdown()`. -/
def Label.Drains (l : Label) : Prop :=
  (l.act.Sends ∨ l.act = .call .shutdown) ∧ ∀ e, .failed e ∈ l.env.io → e = .wouldBlock

def DrainStep : Conn → Label → Conn → Prop := Guarded ConnStep fun _ l => l.Drains

/-- What keeps a shutdown graceful. It finds write interest or nothing to
send, and is not called inside the write-complete callback; and once it
has been called, no file or stream is sent on an empty list. -/
def ShutdownGuard (c : Conn) (l : Label) : Prop :=
  match l.act with
  | .call .shutdown => c.status = .connected →
      (c.channel.isWriting = true ∨ c.writeBufferList = []) ∧ .handleWriteRest ∉ c.frames
  | .call (.sendFile (some _) _ _) | .call (.sendStream _) =>
      c.status = .disconnecting → c.writeBufferList ≠ []
  | _ => True

/-- How far a shutdown has come. -/
inductive Phase (c : Conn) : Prop
  | connected : c.status = .connected → .closeWrite ∉ c.trace → Phase c
  | draining : c.status = .disconnecting → .closeWrite ∉ c.trace → c.writeBufferList ≠ [] →
      .handleWriteRest ∉ c.frames → Phase c
  | closing : c.status = .disconnecting → .closeWrite ∉ c.trace → c.writeBufferList = [] →
      c.frames.count .handleWriteRest = 1 → Phase c
  | closed : c.status = .disconnecting → Graceful c.trace → c.writeBufferList = [] →
      .handleWriteRest ∉ c.frames → Phase c

structure Closing (c : Conn) : Prop where
  flow : Flow True c c.accepted
  frames : ∀ f ∈ c.frames, f.Sends
  phase : Phase c

theorem Phase.graceful {c : Conn} (h : Phase c) : Graceful c.trace := by
  cases h with
  | connected _ hn => exact graceful_of_not_mem hn
  | draining _ hn _ _ => exact graceful_of_not_mem hn
  | closing _ hn _ _ => exact graceful_of_not_mem hn
  | closed _ hg _ _ => exact hg

/-! ## Steps that close nothing -/

/-- `c'` comes from `c` by steps that neither change the status nor close,
and leave the rest of `handleWrite` where it was. -/
structure Calm (c c' : Conn) : Prop where
  status : c'.status = c.status
  trace : ∃ evs, c'.trace = c.trace ++ evs ∧ .closeWrite ∉ evs
  rest : c'.frames.count .handleWriteRest = c.frames.count .handleWriteRest

namespace Calm

variable {c c₁ c₂ c₃ : Conn}

theorem trans (h₁ : Calm c₁ c₂) (h₂ : Calm c₂ c₃) : Calm c₁ c₃ := by
  obtain ⟨hs, ⟨evs, ht, hn⟩, hr⟩ := h₁
  obtain ⟨hs', ⟨evs', ht', hn'⟩, hr'⟩ := h₂
  refine ⟨hs'.trans hs, ⟨evs ++ evs', by rw [ht', ht, List.append_assoc], ?_⟩, hr'.trans hr⟩
  intro hmem
  rcases List.mem_append.mp hmem with h | h
  · exact hn h
  · exact hn' h

theorem not_mem (h : Calm c₁ c₂) (hn : .closeWrite ∉ c₁.trace) : .closeWrite ∉ c₂.trace := by
  obtain ⟨-, ⟨evs, ht, hevs⟩, -⟩ := h
  rw [ht]
  intro hmem
  rcases List.mem_append.mp hmem with h | h
  · exact hn h
  · exact hevs h

theorem not_mem_frames (h : Calm c₁ c₂) (hn : .handleWriteRest ∉ c₁.frames) :
    .handleWriteRest ∉ c₂.frames := by
  rw [← List.count_eq_zero] at hn ⊢
  rw [h.rest, hn]

theorem of_emits (h : Emits c₁ c₂) : Calm c₁ c₂ := by
  obtain ⟨ch, fb, t, env, evs, rfl, hevs, -⟩ := h
  refine ⟨rfl, ⟨evs, rfl, fun hmem => ?_⟩, rfl⟩
  obtain ⟨xs, hx⟩ := hevs _ hmem
  cases hx

theorem of_writes (h : Writes c₁ c₂) : Calm c₁ c₂ := by
  obtain ⟨hs, ht, hr⟩ := of_emits h.2.1
  exact ⟨hs, ht, hr⟩

theorem of_extendLife (c : Conn) : Calm c c.extendLife := by
  obtain ⟨t, evs, heq, hevs⟩ := c.extendLife_eq
  rw [heq]
  refine ⟨rfl, ⟨evs, rfl, fun hmem => ?_⟩, rfl⟩
  cases hevs _ hmem

theorem of_log (c : Conn) {e : Event} (he : e ≠ .closeWrite) : Calm c (c.log e) :=
  ⟨rfl, ⟨[e], rfl, fun hmem => he (List.mem_singleton.mp hmem).symm⟩, rfl⟩

theorem of_invoke (c : Conn) (isSet : Bool) {e : Event} (he : e ≠ .closeWrite) :
    Calm c (c.invoke isSet e) := by
  unfold invoke
  split
  · refine ⟨rfl, ⟨[e], rfl, fun hmem => he (List.mem_singleton.mp hmem).symm⟩, ?_⟩
    exact List.count_cons_of_ne (by simp)
  · exact ⟨rfl, ⟨[], by simp, by simp⟩, rfl⟩

theorem of_sendsInLoop (h : SendsInLoop c₁ c₂) : Calm c₁ c₂ := by
  cases h with
  | direct he _ => exact of_emits he
  | @queued c' _ he _ hq =>
      obtain ⟨list, isSet, n, -, rfl⟩ := hq
      have hst := of_emits (Emits.startWriting { c' with writeBufferList := list })
      have hlist : Calm c' ({ c' with writeBufferList := list } : Conn).startWriting :=
        ⟨hst.status, hst.trace, hst.rest⟩
      exact ((of_emits he).trans hlist).trans (of_invoke _ isSet (by simp))

end Calm

theorem Phase.calm {c c' : Conn} (h : Phase c) (hc : Calm c c')
    (hl : c.status = .disconnecting → (c'.writeBufferList = [] ↔ c.writeBufferList = [])) :
    Phase c' := by
  cases h with
  | connected hs hn => exact .connected (hc.status.trans hs) (hc.not_mem hn)
  | draining hs hn hne hf =>
      exact .draining (hc.status.trans hs) (hc.not_mem hn) (fun h => hne ((hl hs).mp h))
        (hc.not_mem_frames hf)
  | closing hs hn hnil hf =>
      exact .closing (hc.status.trans hs) (hc.not_mem hn) ((hl hs).mpr hnil) (hc.rest.trans hf)
  | closed hs hg hnil hf =>
      obtain ⟨-, ⟨evs, ht, hevs⟩, -⟩ := id hc
      refine .closed (hc.status.trans hs) ?_ ((hl hs).mpr hnil) (hc.not_mem_frames hf)
      rw [ht]
      exact hg.append hevs

namespace Closing

variable {c c' : Conn}

theorem env (h : Closing c) (env : Env) : Closing { c with env := env } :=
  ⟨h.flow.congr rfl rfl rfl rfl, h.frames,
    h.phase.calm ⟨rfl, ⟨[], by simp, by simp⟩, rfl⟩ fun _ => Iff.rfl⟩

theorem send (h : Closing c) (hnf : c.NonFatal) (msg : View)
    (hex : c.sendInLoop msg.bytes = .ok c') : Closing c' := by
  by_cases hst : c.status = .connected
  · obtain ⟨hs, -, hfl⟩ := (h.flow.sendInLoop msg.fits hst).of_ok hex
    have ho := (Outputs.of_extendLife _).trans (Outputs.of_sendsInLoop hs)
    have hcalm := (Calm.of_log c (by simp)).trans
      ((Calm.of_extendLife _).trans (Calm.of_sendsInLoop hs))
    refine ⟨?_, ho.frames_sends h.frames, h.phase.calm hcalm ?_⟩
    · rw [ho.accepted, Outputs.accepted_log]
      exact hfl (hnf.keepsPayload _)
    · intro hd
      rw [hst] at hd
      cases hd
  · unfold Conn.sendInLoop at hex
    rw [if_pos hst] at hex
    cases hex
    exact h

theorem pushNode (h : Closing c) {node : BufferNode} (hok : node.Ok True) (hf : node.isFile = true)
    (hg : c.status = .disconnecting → c.writeBufferList ≠ [])
    (hex : (c.log (.accept node.pending)).pushNode node = .ok c') : Closing c' := by
  obtain ⟨hfl, hwr, -⟩ := ((h.flow.log _).pushNode hok hf).of_ok hex
  have ho := Outputs.of_writes hwr
  have hcalm := (Calm.of_log c (by simp)).trans (Calm.of_writes hwr)
  refine ⟨?_, ho.frames_sends h.frames, h.phase.calm hcalm ?_⟩
  · rw [ho.accepted, Outputs.accepted_log]
    exact hfl
  · intro hd
    exact ⟨fun hnil => absurd hnil hwr.1, fun hnil => absurd hnil (hg hd)⟩

/-- The one place where the write side is closed: nothing is pending. -/
theorem close (hfl : Flow True c c.accepted) (hfr : ∀ f ∈ c.frames, f.Sends)
    (hst : c.status = .disconnecting) (hn : .closeWrite ∉ c.trace) (hl : c.writeBufferList = [])
    (hr : .handleWriteRest ∉ c.frames) : Closing c.closeWrite := by
  have hsent : c.closeWrite.sent = c.sent := by
    simp [closeWrite, Conn.log, Conn.sent, sentOf]
  have hacc : c.closeWrite.accepted = c.accepted := by
    simp [closeWrite, Conn.log, Conn.accepted, acceptedOf]
  refine ⟨?_, hfr, .closed hst (graceful_close hn (hfl.pending_nil hl).2) hl hr⟩
  rw [hacc]
  exact hfl.congr rfl rfl rfl hsent

theorem shutdown (h : Closing c)
    (hg : c.status = .connected →
      (c.channel.isWriting = true ∨ c.writeBufferList = []) ∧ .handleWriteRest ∉ c.frames) :
    Closing c.shutdown := by
  unfold Conn.shutdown
  by_cases hst : c.status = .connected
  · obtain ⟨hw, hfr⟩ := hg hst
    have hn : .closeWrite ∉ c.trace := by
      cases h.phase with
      | connected _ hn => exact hn
      | draining hs _ _ _ => rw [hst] at hs; cases hs
      | closing hs _ _ _ => rw [hst] at hs; cases hs
      | closed hs _ _ _ => rw [hst] at hs; cases hs
    have hn' : .closeWrite ∉ (c.setStatus .disconnecting).trace := by
      simpa [setStatus, Conn.log] using hn
    have hsent : (c.setStatus .disconnecting).sent = c.sent := by
      simp [setStatus, Conn.log, Conn.sent, sentOf]
    have hacc : (c.setStatus .disconnecting).accepted = c.accepted := by
      simp [setStatus, Conn.log, Conn.accepted, acceptedOf]
    have hflow : Flow True (c.setStatus .disconnecting) (c.setStatus .disconnecting).accepted := by
      rw [hacc]
      exact h.flow.congr rfl rfl rfl hsent
    rw [if_pos hst]
    by_cases hwr : c.channel.isWriting = true
    · have hne := h.flow.writing hwr
      simp only [setStatus, Conn.log, hwr, Bool.not_true, Bool.false_eq_true, if_false]
      exact ⟨hflow, h.frames, .draining rfl hn' hne hfr⟩
    · have hif : (!(c.setStatus .disconnecting).channel.isWriting) = true := by
        simpa [setStatus, Conn.log] using hwr
      simp only [hif, if_true]
      exact close hflow h.frames rfl hn' (hw.resolve_left hwr) hfr
  · rw [if_neg hst]
    exact h

theorem handleWrite (h : Closing c) (hex : c.handleWrite = .ok c') : Closing c' := by
  obtain ⟨hfl, hhw⟩ := h.flow.handleWrite.of_ok hex
  have hlife := Calm.of_extendLife c
  have hlist : c.extendLife.writeBufferList = c.writeBufferList := by
    obtain ⟨t, evs, heq, -⟩ := c.extendLife_eq
    rw [heq]
  have hphase : Phase c.extendLife := h.phase.calm hlife fun _ => by rw [hlist]
  have ho := (Outputs.of_extendLife c).trans (Outputs.of_handleWrites hhw)
  have hwriting := h.flow.extendLife.writing
  have hflow : Flow True c' c'.accepted := by
    rw [ho.accepted]
    exact hfl
  refine ⟨hflow, ho.frames_sends h.frames, ?_⟩
  cases hhw with
  | idle => exact hphase
  | wrote hw hwr =>
      exact hphase.calm (Calm.of_writes hwr) fun _ =>
        ⟨fun hnil => absurd hnil hwr.1, fun hnil => absurd hnil (hwriting hw)⟩
  | drained hw hp =>
      have hcb : Calm ({ c.extendLife with
            writeBufferList := [], channel := c.extendLife.channel.disableWriting }.push
              .handleWriteRest) c.extendLife.drained := Calm.of_invoke _ _ (by simp)
      have hne := hwriting hw
      cases hphase with
      | connected hs hn => exact .connected (hcb.status.trans hs) (hcb.not_mem hn)
      | draining hs hn _ hfr =>
          refine .closing (hcb.status.trans hs) (hcb.not_mem hn) (by simp [drained, Conn.push]) ?_
          rw [hcb.rest]
          simp only [Conn.push, List.count_cons_self]
          rw [List.count_eq_zero_of_not_mem hfr]
      | closing _ _ hnil _ => exact absurd hnil hne
      | closed _ _ hnil _ => exact absurd hnil hne

theorem handleWriteRest {fs : List Frame} (h : Closing c) (hf : c.frames = .handleWriteRest :: fs) :
    Closing ({ c with frames := fs } : Conn).handleWriteRest := by
  have hflow : Flow True { c with frames := fs } c.accepted := h.flow.congr rfl rfl rfl rfl
  have hfr : ∀ f ∈ fs, f.Sends := fun f hmem =>
    h.frames f (by rw [hf]; exact List.mem_cons_of_mem _ hmem)
  have hmem : .handleWriteRest ∈ c.frames := by rw [hf]; exact List.mem_cons_self
  unfold Conn.handleWriteRest
  cases h.phase with
  | connected hs hn =>
      rw [if_neg (by simp [hs])]
      exact ⟨hflow, hfr, .connected hs hn⟩
  | draining _ _ _ hno => exact absurd hmem hno
  | closing hs hn hnil hcount =>
      have hno : .handleWriteRest ∉ fs := by
        rw [hf, List.count_cons_self] at hcount
        exact List.count_eq_zero.mp (by omega)
      rw [if_pos hs]
      exact close hflow hfr hs hn hnil hno
  | closed _ _ _ hno => exact absurd hmem hno

theorem pop {f : Frame} {fs : List Frame} (h : Closing c) (hf : c.frames = f :: fs)
    (hne : f ≠ .handleWriteRest) : Closing { c with frames := fs } := by
  refine ⟨h.flow.congr rfl rfl rfl rfl, fun g hg => h.frames g ?_, h.phase.calm ?_ fun _ => Iff.rfl⟩
  · rw [hf]
    exact List.mem_cons_of_mem _ hg
  · refine ⟨rfl, ⟨[], by simp, by simp⟩, ?_⟩
    rw [hf]
    exact (List.count_cons_of_ne hne).symm

theorem push (h : Closing c) {todo : List Handler} (hf : (Frame.dispatch todo).Sends) :
    Closing (c.push (.dispatch todo)) := by
  refine ⟨h.flow.push _, ?_, h.phase.calm ?_ fun _ => Iff.rfl⟩
  · intro g hg
    rcases List.mem_cons.mp hg with rfl | hg
    · exact hf
    · exact h.frames g hg
  · exact ⟨rfl, ⟨[], by simp [Conn.push], by simp⟩, List.count_cons_of_ne (by simp)⟩

theorem resume {f : Frame} {fs : List Frame} (h : Closing c) (hf : c.frames = f :: fs)
    (hex : ({ c with frames := fs } : Conn).resume f = .ok c') : Closing c' := by
  have hsends : f.Sends := h.frames f (by rw [hf]; exact List.mem_cons_self)
  cases f with
  | callback =>
      cases hex
      exact h.pop hf (by simp)
  | handleWriteRest =>
      cases hex
      exact h.handleWriteRest hf
  | dispatch todo =>
      have hpop := h.pop hf (by simp)
      cases todo with
      | nil =>
          cases hex
          exact hpop
      | cons hd tl =>
          obtain rfl : hd = .write := hsends hd List.mem_cons_self
          have htl : (Frame.dispatch tl).Sends := fun g hg => hsends g (List.mem_cons_of_mem _ hg)
          exact (hpop.push htl).handleWrite hex
  | handleCloseRest => exact hsends.elim
  | extendLife => exact hsends.elim
  | channelRemove => exact hsends.elim

theorem call (h : Closing c) (hnf : c.NonFatal) {k : Call} (hk : k.Sends ∨ k = .shutdown)
    (hg : ∀ e, ShutdownGuard c ⟨.call k, e⟩) (hex : c.call k = .ok c') : Closing c' := by
  cases k with
  | send msg => exact h.send hnf msg hex
  | sendFile file offset length =>
      cases file with
      | none =>
          cases hex
          exact h
      | some file =>
          obtain ⟨hpos, hr⟩ : (Call.sendFile (some file) offset length).Sends := by simpa using hk
          simp only [Conn.call, Conn.sendFile] at hex
          unfold Conn.sendFileFd at hex
          rw [if_pos hpos] at hex
          exact h.pushNode (ok_file rfl rfl fun _ => hr) rfl (hg c.env) hex
  | sendStream callback =>
      have hsome : callback.isSome := by simpa [Call.Sends] using hk
      obtain ⟨chunks, rfl⟩ := Option.isSome_iff_exists.mp hsome
      exact h.pushNode (ok_stream rfl) rfl (hg c.env) hex
  | shutdown =>
      cases hex
      exact h.shutdown (hg c.env)
  | forceClose => simp [Call.Sends] at hk

/-- The step lemma: a guarded step keeps the phases. -/
theorem step (h : Closing c) {l : Label} (hg : ShutdownGuard c l) (hs : DrainStep c l c') :
    Closing c' := by
  obtain ⟨⟨-, hex⟩, hact, hnf⟩ := hs
  have henv := h.env l.env
  cases hla : l.act with
  | connectEstablished => simp [hla, Act.Sends] at hact
  | connectDestroyed => simp [hla, Act.Sends] at hact
  | call k =>
      rw [hla] at hex hact
      have hk : k.Sends ∨ k = .shutdown := hact.imp_right fun he => by simpa using he
      refine henv.call hnf hk (fun e => ?_) hex
      unfold ShutdownGuard at hg ⊢
      rw [hla] at hg
      exact hg
  | event revents =>
      rw [hla] at hex hact
      obtain rfl : revents = POLLOUT := by simpa [Act.Sends] using hact
      cases hex
      have hch : Closing { c with
          env := l.env, channel := c.channel.setRevents POLLOUT } :=
        ⟨henv.flow.congr rfl rfl rfl rfl, h.frames,
          henv.phase.calm ⟨rfl, ⟨[], by simp, by simp⟩, rfl⟩ fun _ => Iff.rfl⟩
      exact hch.push (handleEvent_pollout c.channel)
  | resume =>
      rw [hla] at hex
      simp only [exec] at hex
      split at hex
      · cases hex
        exact henv
      · rename_i f fs hf
        exact henv.resume hf hex

theorem established (rb : MessageBuffer) (cbs : Callbacks) (env : Env) :
    Closing (Conn.established rb cbs env) := by
  have h := Sending.established rb cbs env
  refine ⟨by rw [h.accepted]; exact h.flow, h.frames, .connected h.status ?_⟩
  unfold Conn.established Conn.invoke
  split <;> simp [setStatus, Conn.log, Conn.new, Conn.push]

end Closing

/-- **Shutdown is graceful.** In every run of sends, write events and
`shutdown()` calls whose steps meet the guard, the trace is graceful in
every state reached: the write side is closed at most once, and never
before the bytes accepted before the shutdown are at the kernel. -/
theorem graceful_of_guard (rb : MessageBuffer) (cbs : Callbacks) (env : Env) {ls : List Label}
    (h : EveryStep DrainStep ShutdownGuard (Conn.established rb cbs env) ls) :
    Throughout DrainStep (fun c => Graceful c.trace) (Conn.established rb cbs env) ls := by
  intro pre c hpre hrun
  have hinv : Closing c := (h.guarded hpre hrun).invariant
    (fun a l b ha hs => ha.step hs.2 hs.1) (Closing.established rb cbs env)
  exact hinv.phase.graceful

/-- A file that the kernel takes two bytes of, then a shutdown. The write
event that follows sends the last byte, and the next one finds the file
sent and closes the write side. -/
def fileThenShutdown : List Label :=
  [⟨.call (.sendFile (some [1, 2, 3]) 0 0), answering [.count 2]⟩, ⟨.call .shutdown, answering []⟩,
    ⟨.event POLLOUT, answering []⟩, ⟨.resume, answering [.count 1]⟩, ⟨.resume, answering []⟩,
    ⟨.event POLLOUT, answering []⟩, ⟨.resume, answering []⟩, ⟨.resume, answering []⟩]

theorem graceful_fileThenShutdown :
    (∃ c, Run DrainStep (Conn.established .blank plainCallbacks (answering [])) fileThenShutdown c ∧
      c.trace = [.status .connected, .accept [1, 2, 3], .sent [1, 2], .status .disconnecting,
        .sent [3], .closeWrite]) ∧
    EveryStep DrainStep ShutdownGuard (Conn.established .blank plainCallbacks (answering []))
        fileThenShutdown ∧
      Throughout DrainStep (fun c => Graceful c.trace)
        (Conn.established .blank plainCallbacks (answering [])) fileThenShutdown := by
  have hrun : Run DrainStep (Conn.established .blank plainCallbacks (answering []))
      fileThenShutdown _ :=
    .cons ⟨⟨Or.inl rfl, rfl⟩, Or.inl ⟨by decide, by decide⟩, by simp [answering]⟩
      (.cons ⟨⟨Or.inl rfl, rfl⟩, Or.inr rfl, by simp [answering]⟩
      (.cons ⟨⟨rfl, rfl⟩, Or.inl rfl, by simp [answering]⟩
      (.cons ⟨⟨List.cons_ne_nil _ _, rfl⟩, Or.inl trivial, by simp [answering]⟩
      (.cons ⟨⟨List.cons_ne_nil _ _, rfl⟩, Or.inl trivial, by simp [answering]⟩
      (.cons ⟨⟨rfl, rfl⟩, Or.inl rfl, by simp [answering]⟩
      (.cons ⟨⟨List.cons_ne_nil _ _, rfl⟩, Or.inl trivial, by simp [answering]⟩
      (.cons ⟨⟨List.cons_ne_nil _ _, rfl⟩, Or.inl trivial, by simp [answering]⟩ (.nil _))))))))
  have hguard : EveryStep DrainStep ShutdownGuard
      (Conn.established .blank plainCallbacks (answering [])) fileThenShutdown := by
    refine everyStep_cons fun c₁ h₁ => ⟨?_, ?_⟩
    · intro hd
      exact absurd hd (by decide)
    · obtain rfl := Except.ok.inj h₁.1.2
      refine everyStep_cons fun c₂ _ => ⟨?_, everyStep_of_labels ?_⟩
      · intro _
        exact ⟨Or.inl (by decide), by decide⟩
      -- no call follows
      · simp [ShutdownGuard]
  exact ⟨⟨_, hrun, rfl⟩, hguard, graceful_of_guard _ _ _ hguard⟩

/-- The callbacks of a user who waits for the end of a write. -/
def writeCallbacks : Callbacks := ⟨false, false, false, true, none⟩

/-- Three ways to lose a graceful shutdown. A file that could not be
started has no write interest, so `shutdown()` closes in front of it. A
`shutdown()` inside the write-complete callback closes, and `handleWrite`
closes again when the callback returns. And a file sent after the write
side was closed is drained like any other, and the drained list closes
again. -/
theorem not_graceful :
    ¬ Throughout DrainStep (fun c => Graceful c.trace)
        (Conn.established .blank plainCallbacks (answering []))
        [⟨.call (.sendFile (some [1, 2, 3]) 0 0), answering [.failed .wouldBlock]⟩,
          ⟨.call .shutdown, answering []⟩] ∧
      ¬ Throughout DrainStep (fun c => Graceful c.trace)
        (Conn.established .blank writeCallbacks (answering []))
        [⟨.call (.sendFile (some [1]) 0 0), answering [.count 1]⟩, ⟨.event POLLOUT, answering []⟩,
          ⟨.resume, answering []⟩, ⟨.call .shutdown, answering []⟩, ⟨.resume, answering []⟩,
          ⟨.resume, answering []⟩] ∧
      ¬ Throughout DrainStep (fun c => Graceful c.trace)
        (Conn.established .blank plainCallbacks (answering []))
        [⟨.call .shutdown, answering []⟩, ⟨.call (.sendFile (some [1]) 0 0), answering [.count 1]⟩,
          ⟨.event POLLOUT, answering []⟩, ⟨.resume, answering []⟩, ⟨.resume, answering []⟩] := by
  have hok : ∀ io : List IoResult, (∀ r ∈ io, r = .count 1 ∨ r = .failed .wouldBlock) →
      ∀ e, .failed e ∈ (answering io).io → e = .wouldBlock := by
    intro io h e he
    rcases h _ he with h | h
    · cases h
    · cases h
      rfl
  refine ⟨fun h => ?_, fun h => ?_, fun h => ?_⟩
  · have hgraceful := h _ _ (List.prefix_refl _)
      (.cons ⟨⟨Or.inl rfl, rfl⟩, Or.inl ⟨by decide, by decide⟩, hok _ (by simp)⟩
        (.cons ⟨⟨Or.inl rfl, rfl⟩, Or.inr rfl, hok _ (by simp)⟩ (.nil _)))
    have hg := hgraceful.complete
      [.status .connected, .accept [1, 2, 3], .status .disconnecting] [] rfl
    exact absurd hg (by decide)
  · have hgraceful := h _ _ (List.prefix_refl _)
      (.cons ⟨⟨Or.inl rfl, rfl⟩, Or.inl ⟨by decide, by decide⟩, hok _ (by simp)⟩
        (.cons ⟨⟨rfl, rfl⟩, Or.inl rfl, hok _ (by simp)⟩
        (.cons ⟨⟨List.cons_ne_nil _ _, rfl⟩, Or.inl trivial, hok _ (by simp)⟩
        (.cons ⟨⟨Or.inr rfl, rfl⟩, Or.inr rfl, hok _ (by simp)⟩
        (.cons ⟨⟨List.cons_ne_nil _ _, rfl⟩, Or.inl trivial, hok _ (by simp)⟩
        (.cons ⟨⟨List.cons_ne_nil _ _, rfl⟩, Or.inl trivial, hok _ (by simp)⟩ (.nil _)))))))
    exact absurd hgraceful.once (by decide)
  · have hgraceful := h _ _ (List.prefix_refl _)
      (.cons ⟨⟨Or.inl rfl, rfl⟩, Or.inr rfl, hok _ (by simp)⟩
        (.cons ⟨⟨Or.inl rfl, rfl⟩, Or.inl ⟨by decide, by decide⟩, hok _ (by simp)⟩
        (.cons ⟨⟨rfl, rfl⟩, Or.inl rfl, hok _ (by simp)⟩
        (.cons ⟨⟨List.cons_ne_nil _ _, rfl⟩, Or.inl trivial, hok _ (by simp)⟩
        (.cons ⟨⟨List.cons_ne_nil _ _, rfl⟩, Or.inl trivial, hok _ (by simp)⟩ (.nil _))))))
    exact absurd hgraceful.once (by decide)

end Netpoll
