import Netpoll.BufferGrowth
import Netpoll.ChatCodec
import Netpoll.SendRuns

/-!
# A chat session

A client and the server of the chat example at the two ends of a TCP
connection. Each end sends texts with `Context::Send`, has the kernel take
them piece by piece, and reads whatever part of the other end's bytes has
arrived, which its `onMessage` cuts into texts again.

The invariant `Talks` ties the layers together: the bytes that an end has
read are a front part of those that the other end's kernel accepted,
which are a front part of the frames of the texts it was asked to send.
What has been handed on is then a front part of those texts, in order;
on the server nothing complete is held back, and its receive buffer stays
small however much arrives.
-/

namespace Netpoll

open Conn MessageBuffer

/-! ## What the send path leaves alone -/

section input

variable {c c' : Conn}

theorem Conn.Emits.readBuffer_eq (h : Emits c c') : c'.readBuffer = c.readBuffer := by
  obtain ⟨ch, fb, t, env, evs, rfl, -, -⟩ := h
  rfl

theorem Conn.extendLife_readBuffer (c : Conn) : c.extendLife.readBuffer = c.readBuffer := by
  obtain ⟨t, evs, heq, -⟩ := c.extendLife_eq
  rw [heq]

@[simp] theorem Conn.invoke_readBuffer (c : Conn) (isSet : Bool) (e : Event) :
    (c.invoke isSet e).readBuffer = c.readBuffer := by
  unfold Conn.invoke
  split <;> rfl

theorem Conn.HandleWrites.readBuffer_eq (h : HandleWrites c c') : c'.readBuffer = c.readBuffer := by
  cases h with
  | idle => rfl
  | wrote _ hw => exact hw.2.1.readBuffer_eq
  | drained => exact Conn.invoke_readBuffer _ _ _

theorem Conn.SendsInLoop.readBuffer_eq (h : SendsInLoop c c') : c'.readBuffer = c.readBuffer := by
  cases h with
  | direct he => exact he.readBuffer_eq
  | @queued c₁ _ he _ hq =>
      obtain ⟨list, isSet, n, -, rfl⟩ := hq
      obtain ⟨ch, heq⟩ := ({ c₁ with writeBufferList := list } : Conn).startWriting_eq
      rw [Conn.invoke_readBuffer, heq]
      exact he.readBuffer_eq

end input

/-- Output goes on: the receiving side stays, and the kernel has accepted
what it had and maybe more. -/
structure GoesOn (c c' : Conn) : Prop where
  readBuffer : c'.readBuffer = c.readBuffer
  callbacks : c'.callbacks = c.callbacks
  sent : c.sent <+: c'.sent

namespace GoesOn

variable {c c₁ c₂ c' : Conn} {P : List Byte}

theorem of_outputs (h : Outputs c c') (hb : c'.readBuffer = c.readBuffer) : GoesOn c c' := by
  obtain ⟨evs, ht, -⟩ := h.trace
  refine ⟨hb, h.callbacks, ?_⟩
  rw [Conn.sent, Conn.sent, ht, sentOf_append]
  exact List.prefix_append _ _

theorem of_same (hb : c'.readBuffer = c.readBuffer) (hcb : c'.callbacks = c.callbacks)
    (ht : c'.trace = c.trace) : GoesOn c c' := by
  refine ⟨hb, hcb, ?_⟩
  rw [Conn.sent, Conn.sent, ht]

theorem of_log_accept {xs : List Byte} (h : GoesOn (c.log (.accept xs)) c') :
    GoesOn c c' := by
  refine ⟨h.readBuffer, h.callbacks, ?_⟩
  have hsent := h.sent
  rwa [show (c.log (.accept xs)).sent = c.sent by simp [Conn.sent, Conn.log, sentOf]] at hsent

theorem sendInLoop (h : Sending c P) {xs : List Byte} (hx : xs.length ≤ kAllocLimit)
    (hex : c.sendInLoop xs = .ok c') : GoesOn c c' := by
  obtain ⟨hs, -, -⟩ := (h.flow.sendInLoop hx h.status).of_ok hex
  have ho := (Outputs.of_extendLife (c.log (.accept xs))).trans (Outputs.of_sendsInLoop hs)
  exact (of_outputs ho (hs.readBuffer_eq.trans (Conn.extendLife_readBuffer _))).of_log_accept

theorem handleWrite (h : Sending c P) (hex : c.handleWrite = .ok c') : GoesOn c c' := by
  obtain ⟨-, hw⟩ := h.flow.handleWrite.of_ok hex
  have ho := (Outputs.of_extendLife c).trans (Outputs.of_handleWrites hw)
  exact of_outputs ho (hw.readBuffer_eq.trans (Conn.extendLife_readBuffer c))

theorem resume (h : Sending c P) {f : Frame} (hf : f.Sends) (hex : c.resume f = .ok c') :
    GoesOn c c' := by
  cases f with
  | callback =>
      cases hex
      exact of_same rfl rfl rfl
  | handleWriteRest =>
      simp only [Conn.resume, handleWriteRest, h.status] at hex
      cases hex
      exact of_same rfl rfl rfl
  | dispatch todo =>
      cases todo with
      | nil =>
          cases hex
          exact of_same rfl rfl rfl
      | cons hd tl =>
          obtain rfl : hd = .write := hf hd List.mem_cons_self
          have htl : (Frame.dispatch tl).Sends := fun hd hmem => hf hd (List.mem_cons_of_mem _ hmem)
          have hadv := handleWrite (h.push htl) hex
          exact ⟨hadv.readBuffer, hadv.callbacks, hadv.sent⟩
  | handleCloseRest => exact hf.elim
  | extendLife => exact hf.elim
  | channelRemove => exact hf.elim

theorem exec (h : Sending c P) {l : Label} (hact : l.act = .event POLLOUT ∨ l.act = .resume)
    (hex : { c with env := l.env }.exec l.act = .ok c') : GoesOn c c' := by
  rcases hact with hact | hact
  · rw [hact] at hex
    cases hex
    exact of_same rfl rfl rfl
  · rw [hact] at hex
    simp only [Conn.exec] at hex
    split at hex
    · cases hex
      exact of_same rfl rfl rfl
    · rename_i f fs hf
      have hadv := resume ((h.env l.env).pop hf)
        (h.frames f (by rw [hf]; exact List.mem_cons_self)) hex
      exact ⟨hadv.readBuffer, hadv.callbacks, hadv.sent⟩

end GoesOn

/-! ## Reading -/

theorem handleRead_delivers {c c' : Conn} {offer data : List Byte} (hb : Sized c.readBuffer)
    (henv : c.env.read = .data offer) (hrec : c.readBuffer.received (some offer) = some data)
    (hne : data ≠ []) (hex : c.handleRead = .ok c') :
    ∃ b total time evs, b = (c.readBuffer.readFd (some offer)).1 ∧
      Becomes c.readBuffer (c.readBuffer.bytes ++ data) b ∧
      (∀ e ∈ evs, e = .insertEntry c.idleTimeout) ∧
      c' = ({ c with
        readBuffer := b, bytesReceived := total, lastTimingWheelUpdateTime := time,
        trace := c.trace ++ evs } : Conn).invoke c.callbacks.recvMsg (.message data.length) := by
  have hfill := hb.toRep.readFd (some offer)
  have hlen : ¬ data.length = 0 := fun h => hne (List.length_eq_zero_iff.mp h)
  unfold Conn.handleRead at hex
  simp only [henv, hrec] at hex
  cases hfd : c.readBuffer.readFd (some offer) with
  | mk b f =>
      rw [hfd] at hex hfill
      cases f with
      | some f => cases hex
      | none =>
          simp only [if_neg hlen] at hex
          cases hex
          obtain ⟨t, evs, heq, hevs⟩ := ({ c with readBuffer := b } : Conn).extendLife_eq
          simp only [Filled, hrec, Option.getD_some] at hfill
          rw [heq]
          exact ⟨b, _, t, evs, rfl, hfill, hevs, rfl⟩

theorem Sending.quiet {c : Conn} {P : List Byte} {evs : List Event} (h : Sending c P)
    (c' : Conn) (hlist : c'.writeBufferList = c.writeBufferList)
    (hfb : c'.fileBuffer = c.fileBuffer)
    (hch : c'.channel = c.channel) (hst : c'.status = c.status) (ht : c'.trace = c.trace ++ evs)
    (hevs : ∀ e ∈ evs, ∀ xs, e ≠ .sent xs ∧ e ≠ .accept xs) (hf : ∀ f ∈ c'.frames, f.Sends) :
    Sending c' P ∧ c'.sent = c.sent := by
  have hs : c'.sent = c.sent := by
    have hnil : sentOf evs = [] := sentOf_eq_nil fun e he xs => (hevs e he xs).1
    rw [Conn.sent, ht, sentOf_append, hnil, List.append_nil, Conn.sent]
  have ha : c'.accepted = c.accepted := by
    have hnil : acceptedOf evs = [] := by
      refine List.flatMap_eq_nil_iff.mpr fun e he => ?_
      have hne := fun xs => (hevs e he xs).2
      cases e with
      | accept xs => exact absurd rfl (hne xs)
      | _ => rfl
    rw [Conn.accepted, ht, acceptedOf_append, hnil, List.append_nil, Conn.accepted]
  refine ⟨⟨h.flow.congr hlist hfb (by rw [hch]) hs, hst.trans h.status, ha.trans h.accepted, hf⟩,
    hs⟩

theorem Sending.read {c c' : Conn} {P offer data : List Byte} (h : Sending c P)
    (hb : Sized c.readBuffer) (henv : c.env.read = .data offer)
    (hrec : c.readBuffer.received (some offer) = some data) (hne : data ≠ [])
    (hex : c.handleRead = .ok c') :
    Sending c' P ∧ c'.sent = c.sent ∧ c'.callbacks = c.callbacks ∧
      c'.readBuffer = (c.readBuffer.readFd (some offer)).1 ∧
      Becomes c.readBuffer (c.readBuffer.bytes ++ data) c'.readBuffer := by
  obtain ⟨b, total, time, evs, hfd, hbe, hevs, rfl⟩ := handleRead_delivers hb henv hrec hne hex
  have hplain : ∀ e ∈ evs ++ [.message data.length], ∀ xs, e ≠ .sent xs ∧ e ≠ .accept xs := by
    intro e he xs
    rcases List.mem_append.mp he with he | he
    · rw [hevs e he]
      exact ⟨Event.noConfusion, Event.noConfusion⟩
    · rw [List.mem_singleton.mp he]
      exact ⟨Event.noConfusion, Event.noConfusion⟩
  rw [invoke_readBuffer]
  unfold Conn.invoke
  split
  · obtain ⟨hs, hsent⟩ := h.quiet ((({ c with
        readBuffer := b, bytesReceived := total, lastTimingWheelUpdateTime := time,
        trace := c.trace ++ evs } : Conn).log (.message data.length)).push .callback)
      rfl rfl rfl rfl (List.append_assoc _ _ _) hplain
      (fun f hf => by
        rcases List.mem_cons.mp hf with rfl | hf
        · trivial
        · exact h.frames f hf)
    exact ⟨hs, hsent, rfl, hfd, hbe⟩
  · obtain ⟨hs, hsent⟩ := h.quiet ({ c with
        readBuffer := b, bytesReceived := total, lastTimingWheelUpdateTime := time,
        trace := c.trace ++ evs } : Conn) rfl rfl rfl rfl rfl
      (fun e he => hplain e (List.mem_append_left _ he)) h.frames
    exact ⟨hs, hsent, rfl, hfd, hbe⟩

/-! ## The storage behind a reader that keeps up -/

/-- A full buffer is replaced only if its reserve is too small, and then
by one of at most twice its size, or with just the room asked for. -/
theorem ensureAlloc_full {b : MessageBuffer} (h : Rep b) (hfull : b.tail = b.buffer.length)
    {len m : Nat} (hlen : len ≤ kExtBuffer) (hm : b.ensureAlloc len = some m) :
    b.head < len + kBufferOffset ∧
      m ≤ max (2 * b.buffer.length) (b.buffer.length + len + kBufferOffset) + kBufferOffset := by
  have hw := h.writable_eq
  have hr := h.readable_eq
  obtain ⟨h1, h2, h3, h4⟩ := id h
  have hk : kExtBuffer = 8192 := rfl
  have hoff : kBufferOffset = 8 := rfl
  have hlim : kAllocLimit = 2 ^ 62 := rfl
  have hmod : sizeMod = 2 ^ 64 := rfl
  rw [ensureAlloc] at hm
  split at hm
  · cases hm
  · split at hm
    · cases hm
    · rename_i hc
      rw [addSz_eq (by omega), addSz_eq (by omega)] at hc
      obtain rfl := Option.some.inj hm
      have hneed : addSz (addSz kBufferOffset b.readableBytes) len
          = kBufferOffset + b.readableBytes + len := by
        rw [addSz_eq (a := kBufferOffset) (by omega), addSz_eq (by omega)]
      simp only [grownLen, hneed, mulSz_eq (show b.buffer.length * 2 < sizeMod by omega)]
      refine ⟨by omega, ?_⟩
      split <;> rw [addSz_eq (by omega)] <;> omega

/-- `readFd` asks for new storage only when the readable bytes begin near
the front, so what it asks for is bounded by what is readable. -/
theorem readFdAlloc_le {b : MessageBuffer} (h : Rep b) {offer : Option (List Byte)} {m : Nat}
    (hm : b.readFdAlloc offer = some m) : m ≤ 2 * b.readableBytes + 4 * kExtBuffer + 20 := by
  have hw := h.writable_eq
  have hr := h.readable_eq
  obtain ⟨h1, h2, h3, h4⟩ := id h
  have hfull : Rep { b with tail := b.buffer.length } := ⟨Nat.le_trans h1 h2, Nat.le_refl _, h3, h4⟩
  simp only [readFdAlloc] at hm
  cases hrec : b.received offer with
  | none =>
      rw [hrec] at hm
      cases hm
  | some data =>
      obtain ⟨hlen, htot⟩ := received_length hrec
      simp only [hrec] at hm
      split at hm
      · cases hm
      · have hext : b.writableBytes < kExtBuffer := by
          by_contra hw
          simp only [iovTotal, if_neg hw] at hlen htot
          have := iovLen_le htot
          omega
        simp only [iovTotal, if_pos hext, iovLen_eq hext] at hlen hm
        obtain ⟨hhead, hle⟩ := ensureAlloc_full hfull rfl (by omega) hm
        have hk : kExtBuffer = 8192 := rfl
        have hoff : kBufferOffset = 8 := rfl
        simp only at hhead hle
        omega

/-! ## The two ends -/

namespace Chat

open Context

inductive Role where
  | server | client
deriving Repr, DecidableEq

def Role.other : Role → Role
  | .server => .client
  | .client => .server

theorem Role.other_ne (r : Role) : r.other ≠ r := by
  cases r <;> exact Role.noConfusion

def Role.onMessage : Role → Context → MessageBuffer →
    Except Fault (Context × MessageBuffer × List (List Byte))
  | .server => Server.onMessage
  | .client => Client.onMessage

theorem Role.onMessage_spec (r : Role) {ctx : Context} {b : MessageBuffer} (h : ctx.Waiting)
    (hb : Sized b) :
    ∃ ctx' b' ms, r.onMessage ctx b = .ok (ctx', b', ms.map Text.bytes) ∧
      Decodes ctx b ms ctx' b' ∧
      (r = .server → b'.bytes.length < 8 ∧ Unfinished frame (ctx'.absorbed ++ b'.bytes)) ∧
      (r = .client → ms = [] ∧ Unfinished frame (ctx.absorbed ++ b.bytes) ∨ ∃ t, ms = [t]) := by
  cases r with
  | server =>
      obtain ⟨ctx', b', ms, hmsg, hdec, hend⟩ := Server.onMessage_spec h hb
      exact ⟨ctx', b', ms, hmsg, hdec, fun _ => hend, Role.noConfusion⟩
  | client =>
      obtain ⟨ctx', b', ms, hmsg, hdec, hend⟩ := Client.onMessage_spec h hb
      exact ⟨ctx', b', ms, hmsg, hdec, Role.noConfusion, fun _ => hend⟩

/-- One end. The last two fields record what has been read from the socket
and which texts have been handed on. -/
structure Peer where
  conn : Conn
  ctx : Context
  received : List Byte
  texts : List (List Byte)

namespace Peer

/-- `Context::Send` on the loop thread. -/
def send (p : Peer) (msg : View) (env : Env) : Except Fault Peer := do
  let xs ← Context.encode msg
  let conn ← ({ p.conn with env } : Conn).sendInLoop xs
  return { p with conn }

/-- A poll result, or what is left to do. -/
def turn (p : Peer) (l : Label) : Except Fault Peer := do
  let conn ← ({ p.conn with env := l.env } : Conn).exec l.act
  return { p with conn }

/-- What `readv` delivers of an offer. -/
def arriving (p : Peer) (offer : List Byte) : List Byte :=
  (p.conn.readBuffer.received (some offer)).getD []

/-- `handleRead`, and the message callback if it is invoked. -/
def read (r : Role) (p : Peer) (offer : List Byte) (env : Env) : Except Fault Peer := do
  let conn ← ({ p.conn with env := { env with read := .data offer } } : Conn).handleRead
  let received := p.received ++ p.arriving offer
  if conn.callbacks.recvMsg ∧ p.arriving offer ≠ [] then
    let (ctx, b, texts) ← r.onMessage p.ctx conn.readBuffer
    return ⟨{ conn with readBuffer := b }, ctx, received, p.texts ++ texts⟩
  else return { p with conn, received }

end Peer

abbrev Session := Role → Peer

inductive Deed where
  | send (msg : View) (env : Env)
  | turn (l : Label)
  | read (n : Nat) (env : Env)

namespace Session

/-- The bytes that the other end's kernel has accepted and this end has
not read. -/
def inFlight (s : Session) (r : Role) : List Byte :=
  (s r.other).conn.sent.drop (s r).received.length

/-- At most `n` bytes have made it so far. -/
def offer (s : Session) (r : Role) (n : Nat) : List Byte := (s.inFlight r).take n

def exec (s : Session) (r : Role) : Deed → Except Fault Peer
  | .send msg env => (s r).send msg env
  | .turn l => (s r).turn l
  | .read n env => (s r).read r (s.offer r n) env

/-- Texts are sent where user code runs; the kernel never answers a fatal
error; a read event means that there is something to read. A text that
cannot be encoded for want of memory is no step: `send` throws. -/
def Enabled (s : Session) (r : Role) : Deed → Prop
  | .send msg env => (s r).conn.Enabled (.call (.send msg)) ∧
      ∀ e, .failed e ∈ env.io → e = .wouldBlock
  | .turn l => (s r).conn.Enabled l.act ∧ (l.act = .event POLLOUT ∨ l.act = .resume) ∧
      ∀ e, .failed e ∈ l.env.io → e = .wouldBlock
  | .read n _ => (s r).conn.frames = [] ∧ (s r).arriving (s.offer r n) ≠ []

/-- Both ends are connected, each with an empty receive buffer. -/
def start (rb : MessageBuffer) (cbs : Role → Callbacks) (env : Env) : Session :=
  fun r => ⟨Conn.established rb (cbs r) env, .new, [], []⟩

end Session

def SessionStep (s : Session) (l : Role × Deed) (s' : Session) : Prop :=
  s.Enabled l.1 l.2 ∧ ∃ p, s.exec l.1 l.2 = .ok p ∧ s' = Function.update s l.1 p

theorem limit_lt_sizeMod : kAllocLimit < sizeMod := by decide

/-- What is in memory can be announced in eight bytes. -/
def textOf (msg : View) : Text := ⟨msg.bytes, Nat.lt_of_le_of_lt msg.fits limit_lt_sizeMod⟩

/-- The texts that a step asks an end to send. -/
def askedBy (r : Role) : Role × Deed → List Text
  | (r', .send msg _) => if r' = r then [textOf msg] else []
  | _ => []

/-- The texts that an end was asked to send, in order. -/
def asked (r : Role) (ls : List (Role × Deed)) : List Text := ls.flatMap (askedBy r)

/-! ## Sending -/

theorem header_le (n : Nat) : (netBytes 8 n).length ≤ kAllocLimit := by
  have hlen := netBytes_length 8 n
  have hoff : kBufferOffset = 8 := rfl
  have hle := offset_le
  omega

theorem encode_fresh {b : MessageBuffer} {len : Nat} (h : Fresh b len) (msg : View) :
    Post (· = .badAlloc) (fun xs => xs = frame (textOf msg) ∧ xs.length ≤ kAllocLimit) (do
      let buffer ← b.pushFrontInt64 (UInt64.ofNat msg.bytes.length)
      let buffer ← buffer.pushBack msg.bytes
      buffer.load buffer.head buffer.readableBytes) := by
  have hlen : (UInt64.ofNat msg.bytes.length).toNat = msg.bytes.length :=
    Nat.mod_eq_of_lt (textOf msg).fits
  have hfront : Post (· = .badAlloc) (Becomes b (netBytes 8 msg.bytes.length ++ b.bytes))
      (b.pushFront (netBytes 8 msg.bytes.length)) :=
    (h.rep.pushFront (header_le _)).mono (fun _ hf => hf.1) fun _ hb => hb
  rw [pushFrontInt64, hlen]
  refine Post.bind hfront fun b₁ h₁ => ?_
  have hback : Post (· = .badAlloc) (Becomes b₁ (b₁.bytes ++ msg.bytes)) (b₁.pushBack msg.bytes) :=
    (h₁.rep.pushBack msg.fits).mono (fun _ hf => hf.1) fun _ hb => hb
  refine Post.bind hback fun b₂ h₂ => ?_
  rw [h₂.rep.load_all]
  refine ⟨?_, ?_⟩
  · rw [h₂.bytes_eq, h₁.bytes_eq, h.bytes_eq, List.append_nil]
    rfl
  · rw [h₂.rep.bytes_length]
    exact h₂.rep.readable_le

theorem encode_ok {msg : View} {xs : List Byte} (hex : Context.encode msg = .ok xs) :
    xs = frame (textOf msg) ∧ xs.length ≤ kAllocLimit := by
  obtain ⟨b, hnew, hfresh⟩ := new_default
  unfold Context.encode at hex
  rw [hnew] at hex
  exact (encode_fresh hfresh msg).of_ok hex

/-! ## The invariant of one end -/

/-- What has been read and not handed on. -/
def Peer.rest (p : Peer) : List Byte := p.ctx.absorbed ++ p.conn.readBuffer.bytes

/-- The largest storage that the server's receive buffer grows to. -/
def kServerStorage : Nat := 4 * kExtBuffer + 34

/-- The server holds no complete text back and keeps its buffer small. -/
structure Peer.Served (p : Peer) : Prop where
  unfinished : Unfinished frame p.rest
  short : p.conn.readBuffer.bytes.length < 8
  storage : p.conn.readBuffer.buffer.length ≤ kServerStorage

/-- One end that was asked to send `ts`. -/
structure Peer.Talks (p : Peer) (r : Role) (ts : List Text) : Prop where
  sending : Sending p.conn (ts.flatMap frame)
  recvMsg : p.conn.callbacks.recvMsg = true
  waiting : p.ctx.Waiting
  sized : Sized p.conn.readBuffer
  decoded : ∃ ms : List Text,
    p.texts = ms.map Text.bytes ∧ p.received = ms.flatMap frame ++ p.rest
  served : r = .server → p.Served

/-- `p'` comes from `p` by output only. -/
structure Peer.Wrote (p p' : Peer) : Prop where
  received : p'.received = p.received
  rest : p'.rest = p.rest
  sent : p.conn.sent <+: p'.conn.sent

namespace Peer.Talks

variable {p p' : Peer} {r : Role} {ts : List Text}

theorem advance (h : p.Talks r ts) {c : Conn} {ts' : List Text} (hadv : GoesOn p.conn c)
    (hs : Sending c (ts'.flatMap frame)) :
    Peer.Talks { p with conn := c } r ts' ∧ p.Wrote { p with conn := c } := by
  have hrest : ({ p with conn := c } : Peer).rest = p.rest := by
    simp only [rest, hadv.readBuffer]
  refine ⟨⟨hs, by rw [hadv.callbacks]; exact h.recvMsg, h.waiting,
    by rw [hadv.readBuffer]; exact h.sized, by rw [hrest]; exact h.decoded, fun hr => ?_⟩,
    rfl, hrest, hadv.sent⟩
  obtain ⟨hun, hshort, hsto⟩ := h.served hr
  exact ⟨by rwa [hrest], by rwa [hadv.readBuffer], by rwa [hadv.readBuffer]⟩

theorem send (h : p.Talks r ts) {msg : View} {env : Env}
    (hio : ∀ e, .failed e ∈ env.io → e = .wouldBlock) (hex : p.send msg env = .ok p') :
    p'.Talks r (ts ++ [textOf msg]) ∧ p.Wrote p' := by
  unfold Peer.send at hex
  cases henc : Context.encode msg with
  | error f =>
      rw [henc] at hex
      cases hex
  | ok xs =>
      obtain ⟨hxs, hle⟩ := encode_ok henc
      rw [henc, ok_bind] at hex
      cases hsend : ({ p.conn with env } : Conn).sendInLoop xs with
      | error f =>
          rw [hsend] at hex
          cases hex
      | ok c =>
          rw [hsend] at hex
          cases hex
          have henv := h.sending.env env
          have hadv := GoesOn.sendInLoop henv hle hsend
          have hsent := (henv.call (k := .send ⟨xs, hle⟩) trivial
            fun _ _ => NonFatal.keepsPayload (c := { p.conn with env := env }) hio _).of_ok hsend
          refine h.advance ⟨hadv.readBuffer, hadv.callbacks, hadv.sent⟩ ?_
          simpa [Call.payload, hxs] using hsent

theorem turn (h : p.Talks r ts) {l : Label} (hact : l.act = .event POLLOUT ∨ l.act = .resume)
    (hio : ∀ e, .failed e ∈ l.env.io → e = .wouldBlock) (hex : p.turn l = .ok p') :
    p'.Talks r ts ∧ p.Wrote p' := by
  unfold Peer.turn at hex
  cases hrun : ({ p.conn with env := l.env } : Conn).exec l.act with
  | error f =>
      rw [hrun] at hex
      cases hex
  | ok c =>
      rw [hrun] at hex
      cases hex
      have hadv := GoesOn.exec h.sending hact hrun
      have hsends : l.act.Sends := by rcases hact with hact | hact <;> rw [hact] <;> trivial
      have hpay : l.act.payload = [] := by rcases hact with hact | hact <;> rw [hact] <;> rfl
      have hsent := (h.sending.step ⟨hsends, hio⟩).of_ok hrun
      rw [hpay, List.append_nil] at hsent
      exact h.advance hadv hsent

theorem received_of_arriving {offer : List Byte} (hne : p.arriving offer ≠ []) :
    p.conn.readBuffer.received (some offer) = some (p.arriving offer) := by
  unfold arriving at hne ⊢
  cases hrec : p.conn.readBuffer.received (some offer) with
  | none => simp [hrec] at hne
  | some data => rfl

theorem storage_read (h : p.Talks r ts) (hserv : p.Served) (offer : List Byte) :
    (p.conn.readBuffer.readFd (some offer)).1.buffer.length ≤ kServerStorage := by
  have hshort := hserv.short
  have hsto := hserv.storage
  rw [h.sized.bytes_length] at hshort
  rw [h.sized.readFd_resized]
  cases ha : p.conn.readBuffer.readFdAlloc (some offer) with
  | none => exact hsto
  | some m =>
      have hm := readFdAlloc_le h.sized.toRep ha
      have hk : kServerStorage = 4 * kExtBuffer + 34 := rfl
      simp only [sizeAfter]
      split <;> omega

/-- The narrowing to `int` does no harm in a small buffer. -/
theorem arriving_ne_nil (h : p.Talks r ts) (hserv : p.Served) {offer : List Byte}
    (hne : offer ≠ []) : p.arriving offer ≠ [] := by
  have hw := h.sized.writable_eq
  have hsto := hserv.storage
  have hk : kServerStorage = 32802 := rfl
  have hext : kExtBuffer = 8192 := rfl
  have hlen : iovLen p.conn.readBuffer.writableBytes = p.conn.readBuffer.writableBytes := by
    simp only [iovLen]
    rw [Nat.mod_eq_of_lt (by omega), if_pos (by omega)]
  have htot : 0 < p.conn.readBuffer.iovTotal ∧ ¬ 2 ^ 63 ≤ p.conn.readBuffer.iovTotal := by
    rw [iovTotal, hlen]
    split <;> omega
  rw [arriving, MessageBuffer.received, MessageBuffer.readv, if_neg htot.2, Option.map_some,
    Option.getD_some]
  intro hnil
  rcases List.take_eq_nil_iff.mp hnil with h0 | h0
  · omega
  · exact hne h0

theorem read_ok (h : p.Talks r ts) (hserv : p.Served) {offer : List Byte} (env : Env)
    (hne : p.arriving offer ≠ []) : ∃ p', p.read r offer env = .ok p' := by
  have hfill := h.sized.toRep.readFd (some offer)
  have hsto := hserv.storage
  cases hfd : p.conn.readBuffer.readFd (some offer) with
  | mk b f =>
      rw [hfd] at hfill
      cases f with
      | some f =>
          have hlim := hfill.1.2
          have hk : kServerStorage = 32802 := rfl
          have hext : kExtBuffer = 8192 := rfl
          have hoff : kBufferOffset = 8 := rfl
          have hmax : kAllocLimit = 2 ^ 62 := rfl
          omega
      | none =>
          have hrec := received_of_arriving hne
          have hlen : ¬ (p.arriving offer).length = 0 := fun h0 =>
            hne (List.length_eq_zero_iff.mp h0)
          obtain ⟨c, hread⟩ : ∃ c, ({ p.conn with
              env := { env with read := .data offer } } : Conn).handleRead = .ok c := by
            unfold Conn.handleRead
            simp only [hrec, hfd, if_neg hlen]
            exact ⟨_, rfl⟩
          obtain ⟨-, -, hcb, -, hbe⟩ :=
            (h.sending.env { env with read := .data offer }).read h.sized rfl hrec hne hread
          obtain ⟨ctx, b', ms, hmsg, -⟩ := r.onMessage_spec h.waiting (hbe.sized h.sized)
          unfold Peer.read
          rw [hread, ok_bind, if_pos ⟨by rw [hcb]; exact h.recvMsg, hne⟩, hmsg]
          exact ⟨_, rfl⟩

theorem read (h : p.Talks r ts) {offer : List Byte} {env : Env} (hne : p.arriving offer ≠ [])
    (hex : p.read r offer env = .ok p') :
    p'.Talks r ts ∧ p'.received = p.received ++ p.arriving offer ∧ p'.conn.sent = p.conn.sent ∧
      ∃ ms : List Text, p.rest ++ p.arriving offer = ms.flatMap frame ++ p'.rest ∧
        (r = .client → ms = [] ∧ Unfinished frame (p.rest ++ p.arriving offer) ∨ ∃ t, ms = [t]) := by
  have hrec := received_of_arriving hne
  unfold Peer.read at hex
  cases hread : ({ p.conn with env := { env with read := .data offer } } : Conn).handleRead with
  | error f =>
      rw [hread] at hex
      cases hex
  | ok c =>
      obtain ⟨hs, hsent, hcb, hfd, hbe⟩ :=
        (h.sending.env { env with read := .data offer }).read h.sized rfl hrec hne hread
      have hcall : c.callbacks.recvMsg ∧ p.arriving offer ≠ [] :=
        ⟨by rw [hcb]; exact h.recvMsg, hne⟩
      obtain ⟨ctx, b, ms, hmsg, hdec, hserver, hclient⟩ :=
        r.onMessage_spec h.waiting (hbe.sized h.sized)
      rw [hread, ok_bind, if_pos hcall, hmsg] at hex
      cases hex
      have hrest : p.ctx.absorbed ++ c.readBuffer.bytes = p.rest ++ p.arriving offer := by
        rw [hbe.bytes_eq, rest, List.append_assoc]
      refine ⟨⟨?_, hcall.1, hdec.waiting, hdec.consumed.sized, ?_, fun hr => ?_⟩, rfl, hsent, ms, ?_,
        fun hr => ?_⟩
      · exact ⟨hs.flow.congr rfl rfl rfl rfl, hs.status, hs.accepted, hs.frames⟩
      · obtain ⟨ns, hns, hreceived⟩ := h.decoded
        refine ⟨ns ++ ms, by rw [hns, List.map_append], ?_⟩
        rw [hreceived, List.append_assoc, ← hrest, hdec.eq, List.flatMap_append, List.append_assoc]
        rfl
      · obtain ⟨hshort, hun⟩ := hserver hr
        refine ⟨hun, hshort, ?_⟩
        have hsto := h.storage_read (h.served hr) offer
        change b.buffer.length ≤ kServerStorage
        rw [hdec.consumed.storage_eq (hbe.sized h.sized), hfd]
        exact hsto
      · rw [← hrest]
        exact hdec.eq
      · rw [← hrest]
        exact hclient hr

end Peer.Talks

/-! ## The invariant of the session -/

theorem fresh_of_new {rb : MessageBuffer} (hrb : MessageBuffer.new kBufferDefaultLength = .ok rb) :
    Fresh rb kBufferDefaultLength := by
  obtain ⟨b, hnew, hfresh⟩ := new_default
  obtain rfl : rb = b := Except.ok.inj (hrb.symm.trans hnew)
  exact hfresh

theorem start_rest {rb : MessageBuffer} {cbs : Role → Callbacks} {env : Env}
    (hrb : MessageBuffer.new kBufferDefaultLength = .ok rb) (r : Role) :
    (Session.start rb cbs env r).rest = [] := by
  have hb : (Conn.established rb (cbs r) env).readBuffer = rb := invoke_readBuffer _ _ _
  simp [Peer.rest, Session.start, hb, (fresh_of_new hrb).bytes_eq, Context.new, Context.absorbed]

/-- Both ends talk, and what has been read was sent. -/
structure Talking (s : Session) (ts : Role → List Text) : Prop where
  peer : ∀ r, (s r).Talks r (ts r)
  arrived : ∀ r, (s r).received <+: (s r.other).conn.sent

namespace Talking

variable {s s' : Session} {ts : Role → List Text} {rb : MessageBuffer}
  {cbs : Role → Callbacks} {env : Env} {ls : List (Role × Deed)}

/-- One end has moved on: it has read a front part of what the other one
sent, and has sent what it had and maybe more. -/
theorem update (h : Talking s ts) {r : Role} {p : Peer} {us : List Text}
    (hp : p.Talks r (ts r ++ us)) (hrec : p.received <+: (s r.other).conn.sent)
    (hsent : (s r).conn.sent <+: p.conn.sent) {ts' : Role → List Text}
    (hts : ∀ r', ts' r' = if r' = r then ts r ++ us else ts r') :
    Talking (Function.update s r p) ts' := by
  refine ⟨fun r' => ?_, fun r' => ?_⟩
  · rw [hts]
    by_cases hr : r' = r
    · subst hr
      rw [if_pos rfl, Function.update_self]
      exact hp
    · rw [if_neg hr, Function.update_of_ne hr]
      exact h.peer r'
  · by_cases hr : r' = r
    · subst hr
      rw [Function.update_self, Function.update_of_ne r'.other_ne]
      exact hrec
    · obtain rfl : r = r'.other := by cases r <;> cases r' <;> first | rfl | exact absurd rfl hr
      rw [Function.update_of_ne hr, Function.update_self]
      exact (h.arrived r').trans hsent

theorem received_append (h : Talking s ts) (r : Role) (n : Nat) :
    (s r).received ++ (s r).arriving (s.offer r n) <+: (s r.other).conn.sent := by
  have harr : (s r).arriving (s.offer r n) <+: s.inFlight r := by
    refine List.IsPrefix.trans ?_ (List.take_prefix n _)
    unfold Peer.arriving MessageBuffer.received MessageBuffer.readv
    split
    · exact List.nil_prefix
    · exact List.take_prefix _ _
  obtain ⟨zs, hz⟩ := h.arrived r
  have hflight : s.inFlight r = zs := by
    rw [Session.inFlight, ← hz, List.drop_left]
  rw [← hz, List.prefix_append_right_inj, ← hflight]
  exact harr

theorem step (h : Talking s ts) {l : Role × Deed} (hs : SessionStep s l s') :
    Talking s' fun r => ts r ++ askedBy r l := by
  obtain ⟨r, d⟩ := l
  obtain ⟨hen, p, hex, rfl⟩ := hs
  cases d with
  | send msg e =>
      obtain ⟨hp, hw⟩ := (h.peer r).send hen.2 hex
      refine h.update hp (by rw [hw.received]; exact h.arrived r) hw.sent fun r' => ?_
      by_cases hr : r' = r
      · subst hr
        simp [askedBy]
      · simp [askedBy, hr, Ne.symm hr]
  | turn l =>
      obtain ⟨hp, hw⟩ := (h.peer r).turn hen.2.1 hen.2.2 hex
      rw [← List.append_nil (ts r)] at hp
      refine h.update hp (by rw [hw.received]; exact h.arrived r) hw.sent fun r' => ?_
      by_cases hr : r' = r <;> simp [askedBy, hr]
  | read n e =>
      obtain ⟨hp, hrec, hsent, -⟩ := (h.peer r).read hen.2 hex
      rw [← List.append_nil (ts r)] at hp
      refine h.update hp (by rw [hrec]; exact h.received_append r n) (by rw [hsent]) fun r' => ?_
      by_cases hr : r' = r <;> simp [askedBy, hr]

theorem start (hrb : MessageBuffer.new kBufferDefaultLength = .ok rb)
    (hcbs : ∀ r, (cbs r).recvMsg = true) : Talking (Session.start rb cbs env) fun _ => [] := by
  have hfresh := fresh_of_new hrb
  have hb : ∀ r, (Conn.established rb (cbs r) env).readBuffer = rb := fun r =>
    invoke_readBuffer _ _ _
  have hrest : ∀ r, (Session.start rb cbs env r).rest = [] := start_rest hrb
  refine ⟨fun r => ⟨Sending.established _ _ _, ?_, new_waiting, ?_, ⟨[], rfl, ?_⟩, fun _ => ?_⟩,
    fun r => List.nil_prefix⟩
  · rw [← hcbs r]
    simp only [Session.start, Conn.established, Conn.invoke]
    split <;> rfl
  · simp only [Session.start, hb]
    exact hfresh.sized (by decide)
  · rw [hrest]
    rfl
  · refine ⟨by rw [hrest]; exact .nil frame_prefixCode, ?_, ?_⟩
    · simp [Session.start, hb, hfresh.bytes_eq]
    · simp only [Session.start, hb, hfresh.size_eq]
      decide

theorem run (hrb : MessageBuffer.new kBufferDefaultLength = .ok rb)
    (hcbs : ∀ r, (cbs r).recvMsg = true) (hrun : Run SessionStep (Session.start rb cbs env) ls s) :
    Talking s fun r => asked r ls := by
  generalize hs₀ : Session.start rb cbs env = s₀ at hrun
  induction hrun with
  | nil =>
      subst hs₀
      exact start hrb hcbs
  | snoc _ hs ih =>
      have hstep := ih.step hs
      simpa [asked] using hstep

/-- What an end has got are the first texts that the other one was asked
to send; if its rest is unfinished and nothing is missing, all of them. -/
theorem texts_prefix (h : Talking s ts) (r : Role) :
    ∃ ms : List Text, (s r).texts = ms.map Text.bytes ∧ ms <+: ts r.other ∧
      (s r).received = ms.flatMap frame ++ (s r).rest ∧
      (Unfinished frame (s r).rest → s.inFlight r = [] → (s r.other).conn.pending = [] →
        ms = ts r.other) := by
  obtain ⟨ms, htexts, hrec⟩ := (h.peer r).decoded
  have hflow := (h.peer r.other).sending.flow.conserved
  obtain ⟨zs, hz⟩ := h.arrived r
  have hall : ms.flatMap frame ++ ((s r).rest ++ zs ++ (s r.other).conn.pending)
      = (ts r.other).flatMap frame ++ [] := by
    rw [List.append_nil, ← hflow, ← hz, hrec]
    simp only [List.append_assoc]
  refine ⟨ms, htexts, Splits.prefix_of_append frame_prefixCode hall (.nil frame_prefixCode), hrec,
    fun hun hfl hpend => ?_⟩
  have hzs : zs = [] := by
    rwa [Session.inFlight, ← hz, List.drop_left] at hfl
  have hsplit : Splits frame ((ts r.other).flatMap frame) ms (s r).rest := by
    refine ⟨?_, hun⟩
    rw [← List.append_nil ((ts r.other).flatMap frame), ← hall, hzs, hpend]
    simp only [List.append_nil]
  exact (hsplit.unique frame_prefixCode (.flatMap frame_prefixCode _)).1

end Talking

/-! ## What arrives -/

variable {rb : MessageBuffer} {cbs : Role → Callbacks} {env : Env} {ls : List (Role × Deed)}
  {s : Session}

/-- **Texts arrive in order.** In every run of a session, without a fatal
error of a write and with every text encoded, the texts that an end has
handed on are the first ones that the other end was asked to send, whole
and in order. Once the kernel has accepted everything and it
has been read, the server has handed on all of them. -/
theorem texts_in_order (hrb : MessageBuffer.new kBufferDefaultLength = .ok rb)
    (hcbs : ∀ r, (cbs r).recvMsg = true) (hrun : Run SessionStep (Session.start rb cbs env) ls s)
    (r : Role) :
    (s r).texts <+: (asked r.other ls).map Text.bytes ∧
      (r = .server → s.inFlight r = [] → (s r.other).conn.pending = [] →
        (s r).texts = (asked r.other ls).map Text.bytes) := by
  have h := Talking.run hrb hcbs hrun
  obtain ⟨ms, htexts, hpre, -, hall⟩ := h.texts_prefix r
  refine ⟨?_, fun hr hfl hpend => ?_⟩
  · rw [htexts]
    exact hpre.map _
  · rw [htexts, hall ((h.peer r).served hr).unfinished hfl hpend]

/-- **The server keeps up.** In every run of a session the server holds
less than a length in its receive buffer between two events, the storage
of that buffer stays below a fixed size, and whatever arrives next can be
read and decoded. -/
theorem server_keeps_up (hrb : MessageBuffer.new kBufferDefaultLength = .ok rb)
    (hcbs : ∀ r, (cbs r).recvMsg = true) (hrun : Run SessionStep (Session.start rb cbs env) ls s) :
    (s .server).conn.readBuffer.bytes.length < 8 ∧
      (s .server).conn.readBuffer.buffer.length ≤ kServerStorage ∧
      ∀ n e, (s .server).conn.frames = [] → s.offer .server n ≠ [] →
        ∃ s', SessionStep s (.server, .read n e) s' := by
  have hpeer := (Talking.run hrb hcbs hrun).peer .server
  have hserv := hpeer.served rfl
  refine ⟨hserv.short, hserv.storage, fun n e hframes hoffer => ?_⟩
  have hne := hpeer.arriving_ne_nil hserv hoffer
  obtain ⟨p, hp⟩ := hpeer.read_ok hserv e hne
  exact ⟨_, ⟨hframes, hne⟩, p, hp, rfl⟩

/-! ## The client -/

/-- Every text that is complete in what the client has read has been
handed on. -/
def CaughtUp (s : Session) : Prop := Unfinished frame (s .client).rest

/-- A read of the client leaves no two complete texts to its callback. -/
def OneAtATime (s : Session) : Role × Deed → Prop
  | (.client, .read n _) => ∀ t u,
      ¬ frame t ++ frame u <+: (s .client).rest ++ (s .client).arriving (s.offer .client n)
  | _ => True

theorem Talking.rest_eq {s' : Session} {ts : Role → List Text} (h : Talking s ts)
    {l : Role × Deed} (hs : SessionStep s l s') (hl : ∀ n e, l ≠ (.client, .read n e)) :
    (s' .client).rest = (s .client).rest := by
  obtain ⟨r, d⟩ := l
  obtain ⟨hen, p, hex, rfl⟩ := hs
  cases r with
  | server => rw [Function.update_of_ne (Role.noConfusion : Role.client ≠ Role.server)]
  | client =>
      rw [Function.update_self]
      cases d with
      | send msg e => exact ((h.peer .client).send hen.2 hex).2.rest
      | turn l => exact ((h.peer .client).turn hen.2.1 hen.2.2 hex).2.rest
      | read n e => exact absurd rfl (hl n e)

theorem Talking.client_read {s' : Session} {ts : Role → List Text} (h : Talking s ts) {n : Nat}
    {e : Env} (hs : SessionStep s (.client, .read n e) s') :
    (Unfinished frame ((s .client).rest ++ (s .client).arriving (s.offer .client n)) ∧
        CaughtUp s') ∨
      ∃ t, (s .client).rest ++ (s .client).arriving (s.offer .client n)
        = frame t ++ (s' .client).rest := by
  obtain ⟨hen, p, hex, rfl⟩ := hs
  obtain ⟨-, -, -, ms, heq, hms⟩ := (h.peer .client).read hen.2 hex
  rw [CaughtUp, Function.update_self]
  rcases hms rfl with ⟨rfl, hun⟩ | ⟨t, rfl⟩
  · rw [List.flatMap_nil, List.nil_append] at heq
    exact Or.inl ⟨hun, heq ▸ hun⟩
  · rw [List.flatMap_singleton] at heq
    exact Or.inr ⟨t, heq⟩

theorem Talking.two_asked {ts : Role → List Text} (h : Talking s ts) {n : Nat} {t u : Text}
    (hp : frame t ++ frame u <+: (s .client).rest ++ (s .client).arriving (s.offer .client n)) :
    2 ≤ (ts .server).length := by
  obtain ⟨ms, -, hrec⟩ := (h.peer .client).decoded
  obtain ⟨zs, hz⟩ := hp
  obtain ⟨ys, hy⟩ := h.received_append .client n
  have hflow := (h.peer .server).sending.flow.conserved
  have hall : (ms ++ [t, u]).flatMap frame ++ (zs ++ ys ++ (s .server).conn.pending)
      = (ts .server).flatMap frame ++ [] := by
    rw [List.append_nil, ← hflow, ← show _ = (s .server).conn.sent from hy, hrec]
    simp only [List.append_assoc, ← hz, List.flatMap_append, List.flatMap_cons, List.flatMap_nil,
      List.append_nil]
  have hle := (Splits.prefix_of_append frame_prefixCode hall (.nil frame_prefixCode)).length_le
  simp only [List.length_append, List.length_cons, List.length_nil] at hle
  omega

/-- **The client keeps up one text at a time.** It has handed on every
complete text at every moment of a run exactly if none of its reads left
two complete texts to one call of `onMessage`; after such a read a text
stays in its buffer until something else arrives. -/
theorem client_caughtUp_iff (hrb : MessageBuffer.new kBufferDefaultLength = .ok rb)
    (hcbs : ∀ r, (cbs r).recvMsg = true) (ls : List (Role × Deed)) :
    Throughout SessionStep CaughtUp (Session.start rb cbs env) ls ↔
      EveryStep SessionStep OneAtATime (Session.start rb cbs env) ls := by
  refine throughout_iff_everyStep (I := fun s => (∃ ts, Talking s ts) ∧ CaughtUp s) ?_ ?_ ?_ ?_
  · refine ⟨⟨_, Talking.start hrb hcbs⟩, ?_⟩
    rw [CaughtUp, start_rest hrb]
    exact .nil frame_prefixCode
  · rintro s l s' ⟨⟨ts, h⟩, hup⟩ hone hs
    refine ⟨⟨_, h.step hs⟩, ?_⟩
    by_cases hl : ∃ n e, l = (.client, .read n e)
    · obtain ⟨n, e, rfl⟩ := hl
      rcases h.client_read hs with ⟨-, hup'⟩ | ⟨t, heq⟩
      · exact hup'
      · -- another complete text would have been the second one of this read
        intro u hu
        refine hone t u ?_
        rw [heq]
        exact (List.prefix_append_right_inj _).mpr hu
    · rw [CaughtUp, h.rest_eq hs fun n e hne => hl ⟨n, e, hne⟩]
      exact hup
  · exact fun s h => h.2
  · rintro s l s' ⟨⟨ts, h⟩, -⟩ hone hs hup
    by_cases hl : ∃ n e, l = (.client, .read n e)
    · obtain ⟨n, e, rfl⟩ := hl
      simp only [OneAtATime, not_forall, not_not] at hone
      obtain ⟨t, u, zs, hz⟩ := hone
      rw [List.append_assoc] at hz
      rcases h.client_read hs with ⟨hun, -⟩ | ⟨t', heq⟩
      · exact hun t ⟨_, hz⟩
      · obtain ⟨-, htail⟩ := frame_prefixCode.eq_of_append_eq (hz.trans heq)
        exact hup u ⟨zs, htail⟩
    · refine hone ?_
      obtain ⟨r, d⟩ := l
      cases r <;> cases d <;> first | trivial | exact absurd ⟨_, _, rfl⟩ hl

/-! ## A text on its way -/

theorem hi_fits : ([104, 105] : List Byte).length ≤ kAllocLimit := by decide

def hi : View := ⟨[104, 105], hi_fits⟩

def onlyMessages : Callbacks := ⟨false, false, true, false, none⟩

/-- The bytes of the frame. -/
def hiBytes : List Byte := [0, 0, 0, 0, 0, 0, 0, 2, 104, 105]

theorem encode_hi : Context.encode hi = .ok hiBytes := by
  decide +kernel

def sendHi (r : Role) : Role × Deed := (r, .send hi (answering [.count 10]))

def quietStart (rb : MessageBuffer) : Session :=
  Session.start rb (fun _ => onlyMessages) (answering [])

theorem hi_taken (rb : MessageBuffer) : ∃ c,
    ({ Conn.established rb onlyMessages (answering []) with
      env := answering [.count 10] } : Conn).sendInLoop hiBytes = .ok c ∧
      c.sent = hiBytes ∧ c.pending = [] := by
  simp [Conn.established, Conn.sendInLoop, setStatus, Conn.log, Conn.new, Conn.invoke, onlyMessages,
    Conn.extendLife, Conn.writeInLoop, Conn.nextIo, answering, Conn.queueRest, hiBytes, Conn.sent,
    sentOf, Conn.pending]

theorem hi_sent (rb : MessageBuffer) (r : Role) :
    ∃ s, SessionStep (quietStart rb) (sendHi r) s ∧ (s r).conn.sent = hiBytes ∧
      (s r).conn.pending = [] ∧ s r.other = quietStart rb r.other := by
  obtain ⟨c, hc, hsent, hpend⟩ := hi_taken rb
  have hsend : (quietStart rb r).send hi (answering [.count 10])
      = .ok { quietStart rb r with conn := c } := by
    rw [Peer.send, encode_hi, ok_bind]
    exact congrArg (· >>= fun conn => .ok { quietStart rb r with conn }) hc
  refine ⟨Function.update (quietStart rb) r _, ⟨⟨Or.inl rfl, by simp [answering]⟩, _, hsend, rfl⟩,
    ?_, ?_, Function.update_of_ne r.other_ne _ _⟩
  · rw [Function.update_self]
    exact hsent
  · rw [Function.update_self]
    exact hpend

theorem hi_arrived {rb : MessageBuffer} (hrb : MessageBuffer.new kBufferDefaultLength = .ok rb) :
    ∃ s, Run SessionStep (quietStart rb) [sendHi .client, (.server, .read 10 (answering []))] s ∧
      s.inFlight .server = [] ∧ (s .client).conn.pending = [] := by
  obtain ⟨s, hs, hsent, hpend, hserver⟩ := hi_sent rb .client
  have hfresh := fresh_of_new hrb
  have htalk : Talking s _ := (Talking.start hrb fun _ => rfl).step hs
  have hpeer := htalk.peer .server
  have hserv := hpeer.served rfl
  have hrec : (s .server).received = [] := by
    rw [show s .server = quietStart rb .server from hserver]
    rfl
  have hoffer : s.offer .server 10 = hiBytes := by
    rw [Session.offer, Session.inFlight, hrec, show (s Role.server.other).conn.sent = _ from hsent]
    rfl
  have harr : (s .server).arriving hiBytes = hiBytes := by
    have hb : (s .server).conn.readBuffer = rb := by
      rw [show s .server = quietStart rb .server from hserver]
      exact invoke_readBuffer _ _ _
    have hw : rb.writableBytes = 2048 := hfresh.writable_eq
    rw [Peer.arriving, hb, MessageBuffer.received, iovTotal, hw]
    rfl
  have hne : (s .server).arriving (s.offer .server 10) ≠ [] := by
    rw [hoffer, harr]
    exact List.cons_ne_nil _ _
  obtain ⟨p, hp⟩ := hpeer.read_ok hserv (answering []) hne
  obtain ⟨-, hrec', -, -⟩ := hpeer.read hne hp
  have hframes : (s .server).conn.frames = [] := by
    rw [show s .server = quietStart rb .server from hserver]
    rfl
  refine ⟨Function.update s .server p, .cons hs (.cons ⟨⟨hframes, hne⟩, p, hp, rfl⟩ (.nil _)), ?_,
    ?_⟩
  · rw [Session.inFlight, Function.update_self, hrec', hrec, hoffer, harr,
      Function.update_of_ne Role.server.other_ne, show (s Role.server.other).conn.sent = _ from hsent]
    rfl
  · rw [Function.update_of_ne (Role.noConfusion : Role.client ≠ Role.server)]
    exact hpend

/-- The server hands the text on. -/
theorem texts_in_order_hi : ∃ rb s,
    Run SessionStep (quietStart rb) [sendHi .client, (.server, .read 10 (answering []))] s ∧
      (s .server).texts = [[104, 105]] := by
  obtain ⟨rb, hrb, -⟩ := new_default
  obtain ⟨s, hrun, hfl, hpend⟩ := hi_arrived hrb
  exact ⟨rb, s, hrun, (texts_in_order hrb (fun _ => rfl) hrun .server).2 rfl hfl hpend⟩

theorem server_keeps_up_hi : ∃ rb s,
    Run SessionStep (quietStart rb) [sendHi .client, (.server, .read 10 (answering []))] s ∧
      (s .server).conn.readBuffer.bytes.length < 8 := by
  obtain ⟨rb, hrb, -⟩ := new_default
  obtain ⟨s, hrun, -, -⟩ := hi_arrived hrb
  exact ⟨rb, s, hrun, (server_keeps_up hrb (fun _ => rfl) hrun).1⟩

/-- One text cannot be two in one read. -/
theorem client_caughtUp_hi : ∃ rb, MessageBuffer.new kBufferDefaultLength = .ok rb ∧
    Throughout SessionStep CaughtUp (quietStart rb)
      [sendHi .server, (.client, .read 10 (answering []))] := by
  obtain ⟨rb, hrb, -⟩ := new_default
  refine ⟨rb, hrb, (client_caughtUp_iff hrb (fun _ => rfl) _).mpr ?_⟩
  intro pre l s s' hpre hrun _
  have htalk := Talking.run hrb (fun _ => rfl) hrun
  have hasked : (asked .server pre).length ≤ 1 := by
    obtain ⟨post, hpost⟩ := (List.prefix_append pre [l]).trans hpre
    have hlen : (asked .server (pre ++ post)).length = 1 := by
      rw [hpost]
      rfl
    rw [asked, List.flatMap_append, List.length_append] at hlen
    exact Nat.le.intro hlen
  obtain ⟨r, d⟩ := l
  cases r with
  | server => cases d <;> trivial
  | client =>
      cases d with
      | send msg e => trivial
      | turn l => trivial
      | read n e =>
          intro t u htwo
          have hlen := htalk.two_asked htwo
          omega

end Chat

end Netpoll
