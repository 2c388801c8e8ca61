import Netpoll.IntFraming
import Netpoll.PrefixCode

/-!
# The codec of the chat example

`chat::Context` cuts the bytes of a connection into texts: eight bytes with
the length in network order, then the text. It is called whenever bytes
have arrived, with whatever is in the connection's buffer, and resumes
where it stopped; a body is taken out of the buffer piece by piece
(`text_`), a length only as a whole.

Between two calls the bytes received and not yet handed on are those that
the context has absorbed, followed by those in the buffer
(`processCodec_spec`). The server asks the codec again until no text is
complete; the client asks it once for each event.
-/

namespace Netpoll

namespace Chat

open MessageBuffer

/-! ## The code -/

inductive ParseState where
  | getLength | getBody | parseOk
deriving Repr, DecidableEq

/-- `chat::Context`, the id apart. -/
structure Context where
  state : ParseState
  length : Nat
  text : List Byte
deriving Repr, DecidableEq

namespace Context

def new : Context := ⟨.getLength, 0, []⟩

def parseOk (ctx : Context) : Bool := ctx.state = .parseOk

def expectedLength (ctx : Context) : Nat := subSz ctx.length ctx.text.length

def reset (ctx : Context) : Context := { ctx with state := .getLength, text := [] }

def getText (ctx : Context) : List Byte × Context := (ctx.text, ctx.reset)

/-- The `for (;;)` of `processCodec`; `fuel` bounds its rounds. -/
def processCodecLoop : Nat → Context → MessageBuffer → Except Fault (Context × MessageBuffer)
  | 0, _, _ => .error .stackOverflow
  | fuel + 1, ctx, buffer =>
    match ctx.state with
    | .getLength =>
        if buffer.readableBytes < 8 then .ok (ctx, buffer)
        else do
          let (length, buffer) ← buffer.readInt64
          processCodecLoop fuel { ctx with length, state := .getBody } buffer
    | .getBody =>
        if buffer.readableBytes < ctx.expectedLength then do
          let (t, buffer) ← buffer.readAll
          return ({ ctx with text := ctx.text ++ t }, buffer)
        else do
          let (t, buffer) ← buffer.read ctx.expectedLength
          processCodecLoop fuel { ctx with text := ctx.text ++ t, state := .parseOk } buffer
    | .parseOk => .ok (ctx, buffer)

/-- One round for each state. -/
def processCodec (ctx : Context) (buffer : MessageBuffer) :
    Except Fault (Context × MessageBuffer) :=
  processCodecLoop 3 ctx buffer

/-- The bytes that `Context::Send` gives to the connection; if the buffer
cannot be built, nothing is sent. -/
def encode (jsonMsg : View) : Except Fault (List Byte) := do
  let buffer ← MessageBuffer.new kBufferDefaultLength
  let buffer ← buffer.pushFrontInt64 (UInt64.ofNat jsonMsg.bytes.length)
  let buffer ← buffer.pushBack jsonMsg.bytes
  buffer.load buffer.head buffer.readableBytes

end Context

/-- The loop that `goto flag` makes in the server's `onMessage`, with the
texts it passes to `onRequest`. -/
def serverLoop : Nat → Context → MessageBuffer →
    Except Fault (Context × MessageBuffer × List (List Byte))
  | 0, _, _ => .error .stackOverflow
  | fuel + 1, ctx, buffer => do
    let (ctx, buffer) ← ctx.processCodec buffer
    if ctx.parseOk then
      let (text, ctx) := ctx.getText
      if buffer.readableBytes > 0 then
        let (ctx, buffer, texts) ← serverLoop fuel ctx buffer
        return (ctx, buffer, text :: texts)
      else return (ctx, buffer, [text])
    else return (ctx, buffer, [])

/-- Every round but the last one takes a byte. -/
def Server.onMessage (ctx : Context) (buffer : MessageBuffer) :
    Except Fault (Context × MessageBuffer × List (List Byte)) :=
  serverLoop (buffer.readableBytes + 1) ctx buffer

/-- The client's `onMessage`, with the text it passes to `onResponse`. -/
def Client.onMessage (ctx : Context) (buffer : MessageBuffer) :
    Except Fault (Context × MessageBuffer × List (List Byte)) := do
  let (ctx, buffer) ← ctx.processCodec buffer
  if ctx.parseOk then
    let (text, ctx) := ctx.getText
    return (ctx, buffer, [text])
  else return (ctx, buffer, [])

/-! ## The format -/

/-- A text whose length fits into the eight bytes. -/
structure Text where
  bytes : List Byte
  fits : bytes.length < sizeMod
deriving DecidableEq

def frame (t : Text) : List Byte := netBytes 8 t.bytes.length ++ t.bytes

theorem Text.ext {t u : Text} (h : t.bytes = u.bytes) : t = u := by
  cases t
  cases u
  cases h
  rfl

theorem netValue_header {n : Nat} (hn : n < sizeMod) : netValue (netBytes 8 n) = n := by
  rw [netValue_netBytes]
  exact Nat.mod_eq_of_lt hn

theorem netBytes_inj {m n : Nat} (hm : m < sizeMod) (hn : n < sizeMod)
    (h : netBytes 8 m = netBytes 8 n) : m = n := by
  rw [← netValue_header hm, h, netValue_header hn]

theorem frame_prefix_iff {n : Nat} (hn : n < sizeMod) {xs : List Byte} {t : Text} :
    frame t <+: netBytes 8 n ++ xs ↔ t.bytes.length = n ∧ t.bytes <+: xs := by
  constructor
  · rintro ⟨ys, h⟩
    rw [frame, List.append_assoc] at h
    obtain ⟨hhead, hbody⟩ := List.append_inj h (by rw [netBytes_length, netBytes_length])
    exact ⟨netBytes_inj t.fits hn hhead, ys, hbody⟩
  · rintro ⟨rfl, ys, rfl⟩
    exact ⟨ys, by rw [frame, List.append_assoc]⟩

theorem frame_prefixCode : PrefixCode frame where
  nonempty t h := by
    have := congrArg List.length h
    simp [frame, netBytes_length] at this
  eq_of_prefix {t u} h := by
    obtain ⟨hlen, hp⟩ := (frame_prefix_iff u.fits).mp h
    exact Text.ext (hp.eq_of_length hlen)

theorem unfinished_of_short {xs : List Byte} (h : xs.length < 8) : Unfinished frame xs := by
  intro t hp
  have hle := hp.length_le
  rw [frame, List.length_append, netBytes_length] at hle
  omega

theorem unfinished_body {n : Nat} (hn : n < sizeMod) {xs : List Byte} (h : xs.length < n) :
    Unfinished frame (netBytes 8 n ++ xs) := by
  intro t hp
  obtain ⟨hlen, hp⟩ := (frame_prefix_iff hn).mp hp
  have hle := hp.length_le
  omega

/-! ## One call of the codec -/

namespace Context

/-- The bytes that the context has taken out of the buffer for the text it
is working on. -/
def absorbed (ctx : Context) : List Byte :=
  match ctx.state with
  | .getLength => []
  | .getBody | .parseOk => netBytes 8 ctx.length ++ ctx.text

/-- The context between two calls. -/
def Waiting (ctx : Context) : Prop :=
  match ctx.state with
  | .getLength => ctx.text = []
  | .getBody => ctx.text.length < ctx.length ∧ ctx.length < sizeMod
  | .parseOk => False

theorem new_waiting : new.Waiting := rfl

theorem Waiting.parseOk_eq {ctx : Context} (h : ctx.Waiting) : ctx.parseOk = false := by
  cases hst : ctx.state with
  | getLength => simp [Context.parseOk, hst]
  | getBody => simp [Context.parseOk, hst]
  | parseOk =>
      rw [Waiting, hst] at h
      exact h.elim

theorem reset_waiting (ctx : Context) : ctx.reset.Waiting := rfl

theorem reset_absorbed (ctx : Context) : ctx.reset.absorbed = [] := rfl

/-- The buffer after some of its bytes have been taken: the storage stays. -/
structure Consumed (b b' : MessageBuffer) : Prop where
  sized : Sized b'
  cap_eq : b'.initCap = b.initCap

theorem Consumed.trans {b₁ b₂ b₃ : MessageBuffer} (h₁ : Consumed b₁ b₂) (h₂ : Consumed b₂ b₃) :
    Consumed b₁ b₃ := ⟨h₂.sized, h₂.cap_eq.trans h₁.cap_eq⟩

theorem Consumed.storage_eq {b b' : MessageBuffer} (h : Consumed b b') (hb : Sized b) :
    b'.buffer.length = b.buffer.length := by
  rw [h.sized.size_eq, h.cap_eq, hb.size_eq]

theorem consumed_retrieve {b : MessageBuffer} (hb : Sized b) (n : Nat) :
    Consumed b (b.retrieve n) ∧ (b.retrieve n).bytes = b.bytes.drop n := by
  have hbe := hb.retrieve n fun _ => hb.shrunkSize_ge
  exact ⟨⟨hbe.sized hb, retrieve_initCap b n⟩, hbe.bytes_eq⟩

/-- How a call ends: it has used up what can be used of an unfinished text,
or it has a text. -/
inductive Processed (ctx : Context) (b : MessageBuffer) (ctx' : Context) (b' : MessageBuffer) :
    Prop where
  | waits : ctx'.Waiting → ctx'.absorbed ++ b'.bytes = ctx.absorbed ++ b.bytes →
      b'.bytes.length < 8 → Unfinished frame (ctx.absorbed ++ b.bytes) → Processed ctx b ctx' b'
  | text (t : Text) : ctx'.state = .parseOk → ctx'.text = t.bytes →
      ctx.absorbed ++ b.bytes = frame t ++ b'.bytes → b'.bytes.length < b.bytes.length →
      Processed ctx b ctx' b'

theorem expectedLength_eq {ctx : Context} (h : ctx.text.length ≤ ctx.length)
    (hlen : ctx.length < sizeMod) : ctx.expectedLength = ctx.length - ctx.text.length :=
  subSz_eq h hlen

/-- `kGetBody` with a part of the body missing in the buffer: all of it
goes into `text_`. -/
theorem getBody_waits {ctx : Context} {b : MessageBuffer} (fuel : Nat) (hb : Sized b)
    (hst : ctx.state = .getBody) (hlen : ctx.length < sizeMod)
    (hmore : ctx.text.length + b.bytes.length < ctx.length) :
    ∃ ctx' b', processCodecLoop (fuel + 1) ctx b = .ok (ctx', b') ∧ Consumed b b' ∧
      ctx'.Waiting ∧ ctx'.absorbed ++ b'.bytes = ctx.absorbed ++ b.bytes ∧ b'.bytes = [] ∧
      Unfinished frame (ctx.absorbed ++ b.bytes) := by
  have hbytes := hb.bytes_length
  have hexp : ctx.expectedLength = ctx.length - ctx.text.length :=
    expectedLength_eq (by omega) hlen
  obtain ⟨hcon, hrest⟩ := consumed_retrieve hb b.readableBytes
  have htake : b.bytes.take b.readableBytes = b.bytes := List.take_of_length_le (by omega)
  have hdrop : b.bytes.drop b.readableBytes = [] := List.drop_of_length_le (by omega)
  rw [processCodecLoop, hst]
  simp only [if_pos (show b.readableBytes < ctx.expectedLength by omega), MessageBuffer.readAll,
    hb.read_eq, htake]
  refine ⟨_, _, rfl, hcon, ?_, ?_, by rw [hrest, hdrop], ?_⟩
  · simp only [Waiting, List.length_append]
    omega
  · simp only [absorbed, hst, hrest, hdrop, List.append_nil, List.append_assoc]
  · rw [absorbed, hst, List.append_assoc]
    refine unfinished_body hlen ?_
    rw [List.length_append]
    exact hmore

/-- `kGetBody` with the rest of the body in the buffer. -/
theorem getBody_text {ctx : Context} {b : MessageBuffer} (fuel : Nat) (hb : Sized b)
    (hst : ctx.state = .getBody) (hlen : ctx.length < sizeMod)
    (hle : ctx.text.length ≤ ctx.length)
    (hall : ctx.length ≤ ctx.text.length + b.bytes.length) :
    ∃ (ctx' : Context) (b' : MessageBuffer) (t : Text),
      processCodecLoop (fuel + 2) ctx b = .ok (ctx', b') ∧ Consumed b b' ∧
      ctx'.state = .parseOk ∧ ctx'.text = t.bytes ∧ ctx.absorbed ++ b.bytes = frame t ++ b'.bytes ∧
      b'.bytes.length + (ctx.length - ctx.text.length) = b.bytes.length := by
  have hbytes := hb.bytes_length
  have hexp := expectedLength_eq hle hlen
  obtain ⟨hcon, hrest⟩ := consumed_retrieve hb ctx.expectedLength
  have htext : (ctx.text ++ b.bytes.take ctx.expectedLength).length = ctx.length := by
    rw [List.length_append, List.length_take]
    omega
  rw [processCodecLoop, hst]
  simp only [if_neg (show ¬ b.readableBytes < ctx.expectedLength by omega), hb.read_eq]
  refine ⟨_, _, ⟨ctx.text ++ b.bytes.take ctx.expectedLength, by omega⟩, rfl, hcon, rfl, rfl,
    ?_, ?_⟩
  · simp only [absorbed, hst, frame, htext, hrest, List.append_assoc, List.take_append_drop]
  · rw [hrest, List.length_drop]
    omega

/-- From `kGetBody` on: between two calls something of the body is missing,
right after the length has been read the body may be empty. -/
theorem getBody_spec (ctx : Context) {b : MessageBuffer} (fuel : Nat) (hb : Sized b)
    (hst : ctx.state = .getBody) (hlen : ctx.length < sizeMod)
    (hle : ctx.text.length ≤ ctx.length) :
    ∃ ctx' b', processCodecLoop (fuel + 2) ctx b = .ok (ctx', b') ∧ Consumed b b' ∧
      (ctx'.Waiting ∧ ctx'.absorbed ++ b'.bytes = ctx.absorbed ++ b.bytes ∧ b'.bytes = [] ∧
          Unfinished frame (ctx.absorbed ++ b.bytes) ∨
        ∃ t : Text, ctx'.state = .parseOk ∧ ctx'.text = t.bytes ∧
          ctx.absorbed ++ b.bytes = frame t ++ b'.bytes ∧
          b'.bytes.length + (ctx.length - ctx.text.length) = b.bytes.length) := by
  by_cases hall : ctx.length ≤ ctx.text.length + b.bytes.length
  · obtain ⟨ctx', b', t, hloop, hcon, ht⟩ := getBody_text fuel hb hst hlen hle hall
    exact ⟨ctx', b', hloop, hcon, Or.inr ⟨t, ht⟩⟩
  · obtain ⟨ctx', b', hloop, hcon, hw⟩ := getBody_waits (fuel + 1) hb hst hlen (by omega)
    exact ⟨ctx', b', hloop, hcon, Or.inl hw⟩

theorem getLength_spec {ctx : Context} {b : MessageBuffer} (fuel : Nat) (hb : Sized b)
    (hst : ctx.state = .getLength) (h8 : 8 ≤ b.bytes.length) :
    ∃ n, n < sizeMod ∧ netBytes 8 n = b.bytes.take 8 ∧
      processCodecLoop (fuel + 1) ctx b =
        processCodecLoop fuel { ctx with length := n, state := .getBody } (b.retrieve 8) := by
  have hbytes := hb.bytes_length
  have htake : (b.bytes.take 8).length = 8 := by
    rw [List.length_take]
    omega
  have hvalue := netValue_lt (b.bytes.take 8)
  have hhead := netBytes_netValue (b.bytes.take 8)
  rw [htake] at hvalue hhead
  refine ⟨netValue (b.bytes.take 8), hvalue, hhead, ?_⟩
  rcases hb.toRep.readInt 8 with ⟨-, hlt⟩ | ⟨hread, -⟩
  · omega
  · rw [processCodecLoop, hst]
    simp only [if_neg (show ¬ b.readableBytes < 8 by omega), readInt64, hread]
    rfl

theorem processCodec_spec {ctx : Context} {b : MessageBuffer} (h : ctx.Waiting) (hb : Sized b) :
    ∃ ctx' b', ctx.processCodec b = .ok (ctx', b') ∧ Consumed b b' ∧
      Processed ctx b ctx' b' := by
  have hbytes := hb.bytes_length
  cases hst : ctx.state with
  | parseOk =>
      rw [Waiting, hst] at h
      exact h.elim
  | getBody =>
      rw [Waiting, hst] at h
      obtain ⟨ctx', b', hloop, hcon, hend⟩ := getBody_spec ctx 1 hb hst h.2 h.1.le
      refine ⟨ctx', b', hloop, hcon, ?_⟩
      rcases hend with ⟨hw, heq, hnil, hun⟩ | ⟨t, hok, ht, heq, hlen⟩
      · exact .waits hw heq (by simp [hnil]) hun
      · exact .text t hok ht heq (by omega)
  | getLength =>
      have htext : ctx.text = [] := by rwa [Waiting, hst] at h
      have habs : ctx.absorbed = [] := by rw [absorbed, hst]
      by_cases hshort : b.bytes.length < 8
      · refine ⟨ctx, b, ?_, ⟨hb, rfl⟩, .waits h rfl hshort ?_⟩
        · rw [processCodec, processCodecLoop, hst]
          simp only [if_pos (show b.readableBytes < 8 by omega)]
        · rw [habs, List.nil_append]
          exact unfinished_of_short hshort
      · -- the length is read, and the body is looked at in the same call
        obtain ⟨n, hn, hhead, hloop⟩ := getLength_spec 2 hb hst (Nat.le_of_not_lt hshort)
        obtain ⟨hcon₁, hrest⟩ := consumed_retrieve hb 8
        have hsame : ({ ctx with length := n, state := .getBody } : Context).absorbed
            ++ (b.retrieve 8).bytes = ctx.absorbed ++ b.bytes := by
          simp only [absorbed, hst, htext, hhead, hrest, List.append_nil, List.nil_append,
            List.take_append_drop]
        have hless : (b.retrieve 8).bytes.length < b.bytes.length := by
          rw [hrest, List.length_drop]
          omega
        obtain ⟨ctx', b', hbody, hcon, hend⟩ := getBody_spec
          { ctx with length := n, state := .getBody } 0 hcon₁.sized rfl hn (by simp [htext])
        refine ⟨ctx', b', by rw [processCodec, hloop, hbody], hcon₁.trans hcon, ?_⟩
        rcases hend with ⟨hw, heq, hnil, hun⟩ | ⟨t, hok, ht, heq, hlen⟩
        · exact .waits hw (heq.trans hsame) (by simp [hnil]) (hsame ▸ hun)
        · exact .text t hok ht (hsame.symm.trans heq) (by omega)

end Context

/-! ## One event -/

open Context

/-- The texts `ms` have been taken out of what was there. -/
structure Decodes (ctx : Context) (b : MessageBuffer) (ms : List Text) (ctx' : Context)
    (b' : MessageBuffer) : Prop where
  waiting : ctx'.Waiting
  consumed : Consumed b b'
  eq : ctx.absorbed ++ b.bytes = ms.flatMap frame ++ (ctx'.absorbed ++ b'.bytes)

theorem serverLoop_spec {fuel : Nat} {ctx : Context} {b : MessageBuffer} (h : ctx.Waiting)
    (hb : Sized b) (hfuel : b.bytes.length < fuel) :
    ∃ ctx' b' ms, serverLoop fuel ctx b = .ok (ctx', b', ms.map Text.bytes) ∧
      Decodes ctx b ms ctx' b' ∧ b'.bytes.length < 8 ∧
      Unfinished frame (ctx'.absorbed ++ b'.bytes) := by
  -- every round that is followed by another one has taken a byte
  induction fuel generalizing ctx b with
  | zero => exact absurd hfuel (Nat.not_lt_zero _)
  | succ fuel ih =>
      obtain ⟨ctx₁, b₁, hproc, hcon, hend⟩ := processCodec_spec h hb
      rw [serverLoop, hproc]
      cases hend with
      | waits hw heq hshort hun =>
          refine ⟨ctx₁, b₁, [], ?_, ⟨hw, hcon, heq.symm⟩, hshort, by rwa [heq]⟩
          simp only [ok_bind, hw.parseOk_eq]
          rfl
      | text t hok ht heq hlt =>
          have hpos := hcon.sized.bytes_length
          have hyes : ctx₁.parseOk = true := by simp [parseOk, hok]
          simp only [ok_bind, hyes, if_true, getText]
          by_cases hmore : b₁.readableBytes > 0
          · obtain ⟨ctx', b', ms, hloop, hdec, hshort, hun⟩ :=
              ih (reset_waiting ctx₁) hcon.sized (by omega)
            rw [if_pos hmore, hloop]
            refine ⟨ctx', b', t :: ms, by rw [ht]; rfl, ?_, hshort, hun⟩
            refine ⟨hdec.waiting, hcon.trans hdec.consumed, ?_⟩
            rw [heq, List.flatMap_cons, List.append_assoc, ← hdec.eq]
            rfl
          · have hnil : b₁.bytes = [] := List.length_eq_zero_iff.mp (by omega)
            rw [if_neg hmore]
            refine ⟨ctx₁.reset, b₁, [t], by rw [ht]; rfl, ⟨reset_waiting _, hcon, ?_⟩, ?_, ?_⟩
            · simp [heq, hnil, reset_absorbed]
            · simp [hnil]
            · rw [reset_absorbed, hnil]
              exact .nil frame_prefixCode

theorem Server.onMessage_spec {ctx : Context} {b : MessageBuffer} (h : ctx.Waiting)
    (hb : Sized b) :
    ∃ ctx' b' ms, Server.onMessage ctx b = .ok (ctx', b', ms.map Text.bytes) ∧
      Decodes ctx b ms ctx' b' ∧ b'.bytes.length < 8 ∧
      Unfinished frame (ctx'.absorbed ++ b'.bytes) :=
  serverLoop_spec h hb (by rw [hb.bytes_length]; exact Nat.lt_succ_self _)

theorem Client.onMessage_spec {ctx : Context} {b : MessageBuffer} (h : ctx.Waiting)
    (hb : Sized b) :
    ∃ ctx' b' ms, Client.onMessage ctx b = .ok (ctx', b', ms.map Text.bytes) ∧
      Decodes ctx b ms ctx' b' ∧
      (ms = [] ∧ Unfinished frame (ctx.absorbed ++ b.bytes) ∨ ∃ t, ms = [t]) := by
  obtain ⟨ctx₁, b₁, hproc, hcon, hend⟩ := processCodec_spec h hb
  rw [Client.onMessage, hproc]
  cases hend with
  | waits hw heq _ hun =>
      refine ⟨ctx₁, b₁, [], ?_, ⟨hw, hcon, heq.symm⟩, Or.inl ⟨rfl, hun⟩⟩
      simp only [ok_bind, hw.parseOk_eq]
      rfl
  | text t hok ht heq =>
      have hyes : ctx₁.parseOk = true := by simp [parseOk, hok]
      refine ⟨ctx₁.reset, b₁, [t], ?_, ⟨reset_waiting _, hcon, ?_⟩, Or.inr ⟨t, rfl⟩⟩
      · simp only [ok_bind, hyes, if_true, getText, ht]
        rfl
      · simp [heq, reset_absorbed]

end Chat

end Netpoll
