import Netpoll.HttpContext
import Netpoll.Runs

/-!
# The HTTP example's server and its stream

`http::Server::onMessage` is called with whatever the reads have brought so
far. This file follows one connection over all its reads.

What is handed on is decided by the bytes alone: with less than 2 GiB since
the last request, a read hands a request on exactly if these bytes are then
those of a message (`handed_on_iff`). Where the reads end decides the rest: a stream of
messages is served exactly if every message ends where a read ends
(`stream_served_iff`), since the bytes of a next request make the blank
line look like a header. A line that was refused stays in the buffer and is
refused again at each read (`refused_for_good`).
-/

namespace Netpoll

namespace Http

open MessageBuffer Context

/-! ## The code -/

/-- A connection of the server. The last four fields record what each read
has delivered, what has come since the last request, the requests given to
`onRequest`, and how often a bad request was answered. -/
structure Server where
  ctx : Context
  buffer : MessageBuffer
  chunks : List (List Byte)
  since : List Byte
  handled : List Request
  badRequests : Nat

namespace Server

def start (buffer : MessageBuffer) : Server := ⟨.new, buffer, [], [], [], 0⟩

/-- The server's `onMessage`. -/
def onMessage (s : Server) : Except Fault Server := do
  let (ok, ctx, buffer) ← s.ctx.parseRequest s.buffer
  let badRequests := if ok then s.badRequests else s.badRequests + 1
  if ctx.parseOk then
    return { s with
      ctx := .new, buffer, badRequests, since := [], handled := s.handled ++ [ctx.request] }
  else return { s with ctx, buffer, badRequests }

/-- What `readv` delivers of an offer. -/
def arriving (s : Server) (offer : List Byte) : List Byte :=
  (s.buffer.received (some offer)).getD []

/-- `readFd`, and the message callback. -/
def read (s : Server) (offer : List Byte) : Except Fault Server :=
  match s.buffer.readFd (some offer) with
  | (_, some f) => .error f
  | (buffer, none) =>
    { s with
      buffer
      chunks := s.chunks ++ [s.arriving offer]
      since := s.since ++ s.arriving offer }.onMessage

end Server

/-- A read that delivers something. -/
def ServerStep (s : Server) (offer : List Byte) (s' : Server) : Prop :=
  s.arriving offer ≠ [] ∧ s.read offer = .ok s'

/-- The run of some offers, and a test of where it ends. -/
def Server.serves (P : Server → Bool) (s : Server) (offers : List (List Byte)) : Bool :=
  runsTo Server.read (fun s offer => decide (s.arriving offer ≠ [])) P s offers

theorem Server.exists_run (P : Server → Bool) (s : Server) (offers : List (List Byte))
    (h : s.serves P offers = true) : ∃ t, Run ServerStep s offers t ∧ P t = true :=
  exists_run_of_runsTo (fun _ _ _ harr hread => ⟨of_decide_eq_true harr, hread⟩) h

/-- The default buffer. -/
def blank : MessageBuffer := ⟨8, 8, 2048, List.replicate 2056 0⟩

theorem new_blank : MessageBuffer.new kBufferDefaultLength = .ok blank := by decide +kernel

/-- A request for the root. -/
def get : List Byte :=
  ascii ['G', 'E', 'T', ' ', '/', ' ', 'H', 'T', 'T', 'P', '/', '1', '.', '1'] ++ CRLF ++ CRLF

theorem exists_get : ∃ m : Message, m.bytes = get :=
  ⟨⟨⟨.kGET, ascii ['/'], none, .kHttp11, by decide, by decide, by decide, by simp,
    find_none_iff.mp (by decide)⟩, []⟩,
    by decide⟩

/-! ## What a read does -/

/-- How a read ends. -/
inductive Outcome (s : Server) (data : List Byte) : Server → Prop
  | waits {ctx : Context} {b : MessageBuffer} :
      Parsed s.ctx (s.buffer.bytes ++ data) true ctx b.bytes → ctx.Open → Sized b →
      Outcome s data { s with
        ctx := ctx, buffer := b, chunks := s.chunks ++ [data], since := s.since ++ data }
  | hands {ctx : Context} {b : MessageBuffer} :
      Parsed s.ctx (s.buffer.bytes ++ data) true ctx b.bytes → ctx.state = .kGotAll → Sized b →
      Outcome s data { s with
        ctx := .new, buffer := b, chunks := s.chunks ++ [data], since := []
        handled := s.handled ++ [ctx.request] }
  | refuses {ctx : Context} {b : MessageBuffer} :
      Parsed s.ctx (s.buffer.bytes ++ data) false ctx b.bytes → Sized b →
      Outcome s data { s with
        ctx := ctx, buffer := b, chunks := s.chunks ++ [data], since := s.since ++ data
        badRequests := s.badRequests + 1 }

theorem Parsed.open_or_gotAll {ctx ctx' : Context} {xs ys : List Byte} {ok : Bool}
    (h : Parsed ctx xs ok ctx' ys) : ctx'.Open ∨ ok = true ∧ ctx'.state = .kGotAll := by
  induction h with
  | waits hopen => exact Or.inl hopen
  | gotAll => exact Or.inr ⟨rfl, rfl⟩
  | refused hopen _ _ hst =>
      refine Or.inl ?_
      unfold Open
      rw [hst]
      exact hopen
  | line _ _ _ _ ih => exact ih

theorem parseOk_eq_false {ctx : Context} (h : ctx.Open) : ctx.parseOk = false := by
  rcases h with hst | hst <;> simp [parseOk, hst]

theorem outcome_of_step {s s' : Server} {offer : List Byte} (hctx : s.ctx.Open)
    (hb : Sized s.buffer) (h : ServerStep s offer s') : Outcome s (s.arriving offer) s' := by
  obtain ⟨-, hread⟩ := h
  have hfill := hb.toRep.readFd (some offer)
  unfold Server.read at hread
  split at hread
  · cases hread
  next b hfd =>
      rw [hfd] at hfill
      have hbe : Becomes s.buffer (s.buffer.bytes ++ s.arriving offer) b := hfill
      have hspec := parseRequest_spec hctx (hbe.sized hb)
      rw [hbe.bytes_eq] at hspec
      cases hparse : s.ctx.parseRequest b with
      | error f =>
          simp only [Server.onMessage, hparse] at hread
          cases hread
      | ok r =>
          obtain ⟨ok, ctx, b'⟩ := r
          obtain ⟨hp, hs⟩ : Parsed s.ctx _ ok ctx b'.bytes ∧ Sized b' := hspec.of_ok hparse
          simp only [Server.onMessage, hparse, ok_bind] at hread
          rcases hp.open_or_gotAll with hopen | ⟨rfl, hall⟩
          · rw [parseOk_eq_false hopen] at hread
            cases ok with
            | true =>
                cases hread
                exact .waits hp hopen hs
            | false =>
                cases hread
                exact .refuses hp hs
          · have hok : ctx.parseOk = true := by simp [parseOk, hall]
            rw [hok] at hread
            cases hread
            exact .hands hp hall hs

/-! ## The bytes since the last request -/

/-- As long as nothing was refused, the context and the buffer are what one
call makes of the bytes since the last request. -/
structure Fed (s : Server) : Prop where
  ctx : s.ctx.Open
  sized : Sized s.buffer
  parsed : Parsed .new s.since true s.ctx s.buffer.bytes

theorem Fed.start {b : MessageBuffer} {len : Nat} (h : Fresh b len) (hlen : kBufferOffset ≤ len) :
    Fed (.start b) where
  ctx := Or.inl rfl
  sized := h.sized hlen
  parsed := by
    rw [show (Server.start b).buffer.bytes = [] from h.bytes_eq]
    exact .waits (Or.inl rfl) (by simp [Free, CRLF, Server.start])

/-- A read as one call on all the bytes since the last request. -/
inductive Whole (s : Server) (data : List Byte) (s' : Server) : Prop
  | waits {ys : List Byte} : Parsed .new (s.since ++ data) true s'.ctx ys → Fed s' →
      s'.since = s.since ++ data → s'.handled = s.handled → s'.badRequests = s.badRequests →
      Whole s data s'
  | hands {ctx : Context} {ys : List Byte} : Parsed .new (s.since ++ data) true ctx ys →
      ctx.state = .kGotAll → Fed s' → s'.since = [] → s'.handled = s.handled ++ [ctx.request] →
      s'.badRequests = s.badRequests → Whole s data s'
  | refuses {ys : List Byte} : Parsed .new (s.since ++ data) false s'.ctx ys →
      Sized s'.buffer → Stuck s'.ctx s'.buffer.bytes → s'.handled = s.handled →
      s'.badRequests = s.badRequests + 1 → Whole s data s'

theorem Fed.step {s s' : Server} {offer : List Byte} (h : Fed s) (hs : ServerStep s offer s') :
    Whole s (s.arriving offer) s' ∧ s'.chunks = s.chunks ++ [s.arriving offer] := by
  cases outcome_of_step h.ctx h.sized hs with
  | waits hp hopen hb =>
      have hall := h.parsed.append h.ctx hp
      exact ⟨.waits hall ⟨hopen, hb, hall⟩ rfl rfl rfl, rfl⟩
  | hands hp hall hb =>
      have hwhole := h.parsed.append h.ctx hp
      refine ⟨.hands hwhole hall ⟨Or.inl rfl, hb, ?_⟩ rfl rfl rfl, rfl⟩
      rw [hwhole.nil_of_gotAll hall]
      exact .waits (Or.inl rfl) free_nil
  | refuses hp hb =>
      exact ⟨.refuses (h.parsed.append h.ctx hp) hb hp.stuck rfl rfl, rfl⟩

section whole

variable {s s' : Server} {offer : List Byte} {m : Message} (h : Fed s) (hs : ServerStep s offer s')
include h hs

theorem Fed.step_message (hm : s.since ++ s.arriving offer = m.bytes) :
    s'.badRequests = s.badRequests ∧ s'.since = [] ∧ s'.handled = s.handled ++ [m.request] := by
  have hall := parsed_message m
  cases (h.step hs).1 with
  | waits hp hfed =>
      rw [hm] at hp
      have hctx := hfed.ctx
      rw [(hp.det hall).2 rfl] at hctx
      rcases hctx with hst | hst <;> cases hst
  | hands hp _ _ hsince hone hbad =>
      rw [hm] at hp
      rw [(hp.det hall).2 rfl] at hone
      exact ⟨hbad, hsince, hone⟩
  | refuses hp =>
      rw [hm] at hp
      cases (hp.det hall).1

theorem Fed.step_part {zs : List Byte} (hm : s.since ++ s.arriving offer ++ zs = m.bytes)
    (hzs : zs ≠ []) :
    s'.badRequests = s.badRequests ∧ s'.since = s.since ++ s.arriving offer ∧
      s'.handled = s.handled := by
  cases (h.step hs).1 with
  | waits _ _ hsince hsame hbad => exact ⟨hbad, hsince, hsame⟩
  | hands hp hall => exact absurd hall (parsed_part hm hzs hp).2
  | refuses hp => cases (parsed_part hm hzs hp).1

/-- The messages `done` have been handed on, and a part of the first of
`next` has arrived. -/
structure Served (s : Server) (done next : List Message) : Prop where
  zero : s.badRequests = 0
  handled : s.handled = done.map Message.request
  chunks : s.chunks.flatten = done.flatMap Message.bytes ++ s.since
  part : ∀ m rest, next = m :: rest → ∃ zs, zs ≠ [] ∧ s.since ++ zs = m.bytes

theorem Fed.step_served {done rest : List Message} (hserved : Served s done (m :: rest))
    (hread : s.since ++ s.arriving offer <+: m.bytes) :
    Served s' (done ++ [m]) rest ∨ Served s' done (m :: rest) := by
  have hall : s'.chunks.flatten = done.flatMap Message.bytes ++ (s.since ++ s.arriving offer) := by
    rw [(h.step hs).2, List.flatten_append, hserved.chunks, List.append_assoc]
    simp
  obtain ⟨zs, hm⟩ := hread
  by_cases hzs : zs = []
  · subst hzs
    rw [List.append_nil] at hm
    obtain ⟨hbad, hsince, hone⟩ := h.step_message hs hm
    refine Or.inl ⟨hbad.trans hserved.zero, ?_, ?_, fun m' rest' _ => ?_⟩
    · rw [hone, hserved.handled, List.map_append, List.map_singleton]
    · rw [hall, hm, hsince, List.flatMap_append, List.flatMap_singleton, List.append_nil]
    · exact ⟨m'.bytes, message_prefixCode.nonempty m', by rw [hsince, List.nil_append]⟩
  · obtain ⟨hbad, hsince, hsame⟩ := h.step_part hs hm hzs
    refine Or.inr ⟨hbad.trans hserved.zero, hsame.trans hserved.handled, by rw [hall, hsince], ?_⟩
    rintro m' rest' heq
    obtain ⟨rfl, rfl⟩ := List.cons.inj heq
    exact ⟨zs, hzs, by rw [hsince, hm]⟩

end whole

/-- Every read ends one way or the other. -/
inductive Standing (s : Server) : Prop
  | fed : Fed s → s.badRequests = 0 → Standing s
  | stuck : s.ctx.Open → Sized s.buffer → Stuck s.ctx s.buffer.bytes → 0 < s.badRequests →
      Standing s

theorem stuck_step {s s' : Server} {offer : List Byte} (hb : Sized s.buffer)
    (h : Stuck s.ctx s.buffer.bytes) (hs : ServerStep s offer s') :
    Sized s'.buffer ∧ Stuck s'.ctx s'.buffer.bytes ∧ s'.handled = s.handled ∧
      s'.badRequests = s.badRequests + 1 ∧ s'.chunks = s.chunks ++ [s.arriving offer] ∧
      s'.buffer.bytes = s.buffer.bytes ++ s.arriving offer := by
  have hmore := h.append (s.arriving offer)
  cases outcome_of_step h.1 hb hs with
  | waits hp => cases (hmore.again hp).1
  | hands hp => cases (hmore.again hp).1
  | refuses hp hb' =>
      obtain ⟨-, hbytes, hst⟩ := hmore.again hp
      exact ⟨hb', hp.stuck, rfl, rfl, rfl, hbytes⟩

theorem Standing.step {s s' : Server} {offer : List Byte} (h : Standing s)
    (hs : ServerStep s offer s') : Standing s' := by
  cases h with
  | fed hfed hzero =>
      obtain ⟨hw, -⟩ := hfed.step hs
      cases hw with
      | waits _ hfed' _ _ hbad => exact .fed hfed' (hbad.trans hzero)
      | hands _ _ hfed' _ _ hbad => exact .fed hfed' (hbad.trans hzero)
      | refuses _ hb hst _ hbad => exact .stuck hst.1 hb hst (by omega)
  | stuck _ hb hst hbad =>
      obtain ⟨hb', hst', -, hbad', -⟩ := stuck_step hb hst hs
      exact .stuck hst'.1 hb' hst' (by omega)

theorem Standing.chunks_step {s s' : Server} {offer : List Byte} (h : Standing s)
    (hs : ServerStep s offer s') : s'.chunks = s.chunks ++ [s.arriving offer] := by
  cases h with
  | fed hfed => exact (hfed.step hs).2
  | stuck _ hb hst => exact (stuck_step hb hst hs).2.2.2.2.1

section run

variable {b : MessageBuffer} {offers : List (List Byte)} {s : Server}
  (hb : MessageBuffer.new kBufferDefaultLength = .ok b) (hr : Run ServerStep (.start b) offers s)
include hb hr

theorem Standing.run : Standing s := by
  have hfresh : Fresh b kBufferDefaultLength := (new_fresh (by decide)).of_ok hb
  exact hr.invariant (fun _ _ _ h hs => h.step hs) (.fed (.start hfresh (by decide)) rfl)

theorem fed_of_run (hzero : s.badRequests = 0) : Fed s := by
  cases Standing.run hb hr with
  | fed h => exact h
  | stuck _ _ _ hbad => omega

/-- **What is handed on.** As long as nothing was refused, a read hands on a
request exactly if the bytes since the last request are then those of a
well-formed message, whatever reads they came with; and it is the request
that the message stands for. The bytes are less than 2 GiB: a longer header
value may be cut off. -/
theorem handed_on_iff {s' : Server} {offer : List Byte} (hzero : s.badRequests = 0)
    (hs : ServerStep s offer s') (hlen : (s.since ++ s.arriving offer).length < 2 ^ 31)
    (r : Request) :
    s'.handled = s.handled ++ [r] ↔
      ∃ m : Message, s.since ++ s.arriving offer = m.bytes ∧ m.request = r := by
  have hfed := fed_of_run hb hr hzero
  constructor
  · intro hone
    have hself : s.handled ≠ s.handled ++ [r] := fun h => by
      have := congrArg List.length h
      simp at this
    cases (hfed.step hs).1 with
    | waits _ _ _ hsame => exact absurd (hsame.symm.trans hone) hself
    | hands hp hall _ _ hone' =>
        obtain ⟨m, hm, hreq⟩ := exists_message hp hall hlen
        rw [hreq] at hone'
        exact ⟨m, hm, by simpa using hone'.symm.trans hone⟩
    | refuses _ _ _ hsame => exact absurd (hsame.symm.trans hone) hself
  · rintro ⟨m, hm, rfl⟩
    exact (hfed.step_message hs hm).2.2

omit hb hr in
/-- A request that comes in two reads. -/
theorem handed_on_get : ∃ b s s', ∃ m : Message, MessageBuffer.new kBufferDefaultLength = .ok b ∧
    Run ServerStep (.start b) [get.take 8] s ∧ ServerStep s (get.drop 8) s' ∧
      (s.since ++ s.arriving (get.drop 8)).length < 2 ^ 31 ∧
      m.bytes = get ∧ s'.handled = s.handled ++ [m.request] := by
  obtain ⟨m, hm⟩ := exists_get
  obtain ⟨s, hr, hs⟩ := Server.exists_run
    (fun s => decide (s.badRequests = 0 ∧ s.since ++ s.arriving (get.drop 8) = get) &&
      s.serves (fun _ => true) [get.drop 8]) (.start blank) [get.take 8] (by decide +kernel)
  obtain ⟨hs, hnext⟩ := Bool.and_eq_true_iff.mp hs
  obtain ⟨hzero, hsince⟩ := of_decide_eq_true hs
  obtain ⟨s', hr', -⟩ := Server.exists_run _ _ _ hnext
  obtain ⟨_, hstep, hnil⟩ := hr'.cons_inv
  obtain rfl := hnil.nil_inv
  have hlen : (s.since ++ s.arriving (get.drop 8)).length < 2 ^ 31 := by
    rw [hsince]
    decide
  exact ⟨blank, s, _, m, new_blank, hr, hstep, hlen, hm,
    (handed_on_iff new_blank hr hzero hstep hlen m.request).mpr ⟨m, hsince.trans hm.symm, rfl⟩⟩

/-- Of a stream of messages nothing but messages is handed on, and each of
them ended where a read ended. -/
theorem exists_messages (hzero : s.badRequests = 0) {ms : List Message}
    (hms : s.chunks.flatten <+: ms.flatMap Message.bytes) :
    ∃ done, done <+: ms ∧ s.handled = done.map Message.request ∧
      s.chunks.flatten = done.flatMap Message.bytes ++ s.since ∧
      ∀ pre, pre <+: done → ∃ cs, cs <+: s.chunks ∧ cs.flatten = pre.flatMap Message.bytes := by
  induction hr with
  | nil =>
      refine ⟨[], List.nil_prefix, rfl, rfl, fun pre hpre => ⟨[], List.nil_prefix, ?_⟩⟩
      rw [List.prefix_nil.mp hpre]
      rfl
  | @snoc s s' offers offer hr hs ih =>
      -- nothing was refused before either
      have hzero' : s.badRequests = 0 := by
        cases Standing.run hb hr with
        | fed _ h => exact h
        | stuck _ hsz hst hbad =>
            have := (stuck_step hsz hst hs).2.2.2.1
            omega
      obtain ⟨hw, hch⟩ := (fed_of_run hb hr hzero').step hs
      obtain ⟨done, ⟨next, rfl⟩, hhan, hflat, hends⟩ :=
        ih hzero' ((hch ▸ List.prefix_append _ _ : s.chunks <+: s'.chunks).flatten.trans hms)
      have hmore : ∀ pre, pre <+: done →
          ∃ cs, cs <+: s'.chunks ∧ cs.flatten = pre.flatMap Message.bytes := by
        intro pre hpre
        obtain ⟨cs, hcs, heq⟩ := hends pre hpre
        exact ⟨cs, hcs.trans (hch ▸ List.prefix_append _ _), heq⟩
      have hflat' :
          s'.chunks.flatten = done.flatMap Message.bytes ++ (s.since ++ s.arriving offer) := by
        rw [hch, List.flatten_append, hflat, List.append_assoc]
        simp
      have hcut : s.since ++ s.arriving offer <+: next.flatMap Message.bytes := by
        rw [hflat', List.flatMap_append] at hms
        exact (List.prefix_append_right_inj _).mp hms
      cases hw with
      | waits _ _ hsince hsame _ =>
          exact ⟨done, List.prefix_append _ _, hsame.trans hhan, by rw [hflat', hsince], hmore⟩
      | hands hp hgot _ hsince hone _ =>
          cases next with
          | nil =>
              rw [List.flatMap_nil, List.prefix_nil, List.append_eq_nil_iff] at hcut
              exact absurd hcut.2 hs.1
          | cons m rest =>
              obtain ⟨hm, hreq⟩ := gotAll_of_prefix hcut hp hgot
              have hall : s'.chunks.flatten = (done ++ [m]).flatMap Message.bytes := by
                rw [hflat', hm, List.flatMap_append, List.flatMap_singleton]
              refine ⟨done ++ [m], ⟨rest, by simp⟩, ?_, by rw [hall, hsince, List.append_nil],
                fun pre hpre => ?_⟩
              · rw [hone, hhan, hreq, List.map_append, List.map_singleton]
              · rcases List.prefix_concat_iff.mp hpre with rfl | hpre
                · exact ⟨s'.chunks, List.prefix_rfl, hall⟩
                · exact hmore pre hpre
      | refuses _ _ _ _ hbad => omega

/-- The stream so far is messages and a part of the next one, each message
ending where a read ends: all of them were handed on. -/
theorem served_of_ends {ms : List Message}
    (hpre : s.chunks.flatten <+: ms.flatMap Message.bytes)
    (hends : ∀ pre, pre <+: ms →
      (pre.flatMap Message.bytes).length ≤ s.chunks.flatten.length →
      ∃ cs, cs <+: s.chunks ∧ cs.flatten = pre.flatMap Message.bytes) :
    ∃ done next, ms = done ++ next ∧ Served s done next := by
  induction hr with
  | nil =>
      refine ⟨[], ms, rfl, rfl, rfl, rfl, fun m _ _ => ⟨m.bytes, ?_, rfl⟩⟩
      exact message_prefixCode.nonempty m
  | @snoc s s' offers offer hr hs ih =>
      have hch := (Standing.run hb hr).chunks_step hs
      have hflat : s'.chunks.flatten = s.chunks.flatten ++ s.arriving offer := by
        rw [hch, List.flatten_append]
        simp
      have hlen := congrArg List.length hflat
      have hpos := List.length_pos_iff.mpr hs.1
      rw [List.length_append] at hlen
      -- a chunk list shorter than all of them is one of those before
      have hearlier : ∀ pre, pre <+: ms →
          (pre.flatMap Message.bytes).length < s'.chunks.flatten.length →
          ∃ cs, cs <+: s.chunks ∧ cs.flatten = pre.flatMap Message.bytes := by
        intro pre hp hlt
        obtain ⟨cs, hcs, heq⟩ := hends pre hp (Nat.le_of_lt hlt)
        refine ⟨cs, ?_, heq⟩
        rw [hch] at hcs
        rcases List.prefix_concat_iff.mp hcs with rfl | hcs
        · rw [← hch] at heq
          rw [heq] at hlt
          exact absurd hlt (Nat.lt_irrefl _)
        · exact hcs
      obtain ⟨done, next, rfl, hserved⟩ :=
        ih ((hflat ▸ List.prefix_append _ _).trans hpre)
          fun pre hp hle => hearlier pre hp (by omega)
      have hcut : s.since ++ s.arriving offer <+: next.flatMap Message.bytes := by
        rw [hflat, hserved.chunks, List.flatMap_append, List.append_assoc] at hpre
        exact (List.prefix_append_right_inj _).mp hpre
      cases next with
      | nil =>
          rw [List.flatMap_nil, List.prefix_nil, List.append_eq_nil_iff] at hcut
          exact absurd hcut.2 hs.1
      | cons m rest =>
          obtain ⟨zs, hzs, hm⟩ := hserved.part m rest rfl
          -- the read does not go past the end of the message
          have hle : (s.arriving offer).length ≤ zs.length := by
            by_contra hgt
            have hdone : ((done ++ [m]).flatMap Message.bytes).length =
                s.chunks.flatten.length + zs.length := by
              rw [hserved.chunks, List.flatMap_append, List.flatMap_singleton, ← hm]
              simp only [List.length_append]
              omega
            obtain ⟨cs, hcs, heq⟩ := hearlier (done ++ [m])
              ((List.prefix_append_right_inj _).mpr (List.prefix_append [m] rest)) (by omega)
            have hshort := (hcs.flatten).length_le
            have hzpos := List.length_pos_iff.mpr hzs
            rw [heq] at hshort
            omega
          have hread : s.since ++ s.arriving offer <+: m.bytes := by
            refine List.prefix_of_prefix_length_le hcut (List.prefix_append _ _) ?_
            rw [← hm, List.length_append, List.length_append]
            omega
          rcases (fed_of_run hb hr hserved.zero).step_served hs hserved hread with h | h
          · exact ⟨done ++ [m], rest, by simp, h⟩
          · exact ⟨done, m :: rest, rfl, h⟩

/-- **When a stream of requests is served.** A stream of well-formed messages,
their header values below 2 GiB, is handed on, each of them and nothing
refused, exactly if every message ends where a read ends. -/
theorem stream_served_iff {ms : List Message} (hms : s.chunks.flatten = ms.flatMap Message.bytes) :
    s.badRequests = 0 ∧ s.handled = ms.map Message.request ↔
      ∀ pre, pre <+: ms → ∃ cs, cs <+: s.chunks ∧ cs.flatten = pre.flatMap Message.bytes := by
  have hall : s.chunks.flatten <+: ms.flatMap Message.bytes := hms ▸ List.prefix_rfl
  constructor
  · rintro ⟨hzero, hhan⟩
    obtain ⟨done, hpre, hhan', -, hends⟩ := exists_messages hb hr hzero hall
    have hlen : done.length = ms.length := by
      have := congrArg List.length (hhan'.symm.trans hhan)
      simpa using this
    rwa [hpre.eq_of_length hlen] at hends
  · intro hends
    obtain ⟨done, next, rfl, hserved⟩ := served_of_ends hb hr hall fun pre hp _ => hends pre hp
    cases next with
    | nil => exact ⟨hserved.zero, by rw [hserved.handled, List.append_nil]⟩
    | cons m rest =>
        -- the rest of the next message is missing
        obtain ⟨zs, hzs, hm⟩ := hserved.part m rest rfl
        have hlen := congrArg List.length (hserved.chunks.symm.trans hms)
        have hpos := List.length_pos_iff.mpr hzs
        rw [List.flatMap_append, List.flatMap_cons, ← hm] at hlen
        simp only [List.length_append] at hlen
        omega

omit hb hr in
/-- Two requests, each in a read of its own. -/
theorem stream_served_gets : ∃ b s, ∃ m : Message, MessageBuffer.new kBufferDefaultLength = .ok b ∧
    Run ServerStep (.start b) [get, get] s ∧ m.bytes = get ∧ s.badRequests = 0 ∧
      s.handled = [m.request, m.request] := by
  obtain ⟨m, hm⟩ := exists_get
  obtain ⟨s, hr, hs⟩ := Server.exists_run (fun s => decide (s.chunks = [get, get]))
    (.start blank) [get, get] (by decide +kernel)
  have hch := of_decide_eq_true hs
  have hall : ∀ pre, pre <+: [m, m] →
      ∃ cs, cs <+: s.chunks ∧ cs.flatten = pre.flatMap Message.bytes := by
    intro pre hpre
    have hmap := hpre.map Message.bytes
    rw [List.map_cons, List.map_singleton, hm, ← hch] at hmap
    exact ⟨pre.map Message.bytes, hmap, rfl⟩
  have hms : s.chunks.flatten = [m, m].flatMap Message.bytes := by
    rw [hch]
    simp [hm]
  obtain ⟨hzero, hhan⟩ := (stream_served_iff new_blank hr hms).mpr hall
  exact ⟨blank, s, m, new_blank, hr, hm, hzero, hhan⟩

/-- **A refusal is for good.** After a bad request every read is refused as
well, no request is handed on any more, and what arrives is kept in the
buffer behind the line that was refused. -/
theorem refused_for_good {more : List (List Byte)} {t : Server} (hbad : 0 < s.badRequests)
    (ht : Run ServerStep s more t) :
    t.handled = s.handled ∧ t.badRequests = s.badRequests + more.length ∧
      ∃ chunks, t.chunks = s.chunks ++ chunks ∧
        t.buffer.bytes = s.buffer.bytes ++ chunks.flatten := by
  have hst : Sized s.buffer ∧ Stuck s.ctx s.buffer.bytes := by
    cases Standing.run hb hr with
    | fed _ hzero => omega
    | stuck _ hsz hst => exact ⟨hsz, hst⟩
  suffices h : (Sized t.buffer ∧ Stuck t.ctx t.buffer.bytes) ∧ t.handled = s.handled ∧
      t.badRequests = s.badRequests + more.length ∧
      ∃ chunks, t.chunks = s.chunks ++ chunks ∧
        t.buffer.bytes = s.buffer.bytes ++ chunks.flatten from h.2
  induction ht with
  | nil => exact ⟨hst, rfl, rfl, [], by simp, by simp⟩
  | @snoc t u more offer _ hs ih =>
      obtain ⟨⟨hsz, hstuck⟩, hhan, hcount, chunks, hch, hby⟩ := ih
      obtain ⟨hsz', hstuck', hhan', hbad', hch', hby'⟩ := stuck_step hsz hstuck hs
      refine ⟨⟨hsz', hstuck'⟩, hhan'.trans hhan, ?_, chunks ++ [t.arriving offer], ?_, ?_⟩
      · rw [hbad', hcount, List.length_append, List.length_singleton, Nat.add_assoc]
      · rw [hch', hch, List.append_assoc]
      · rw [hby', hby, List.flatten_append, List.append_assoc]
        simp

omit hb hr in
/-- A blank line before a request. -/
theorem refused_for_good_get : ∃ b s t, MessageBuffer.new kBufferDefaultLength = .ok b ∧
    Run ServerStep (.start b) [CRLF] s ∧ Run ServerStep s [get] t ∧
      t.handled = s.handled ∧ t.badRequests = s.badRequests + 1 := by
  obtain ⟨s, hr, hs⟩ := Server.exists_run
    (fun s => decide (0 < s.badRequests) && s.serves (fun _ => true) [get])
    (.start blank) [CRLF] (by decide +kernel)
  obtain ⟨hs, hnext⟩ := Bool.and_eq_true_iff.mp hs
  obtain ⟨t, ht, -⟩ := Server.exists_run _ _ _ hnext
  obtain ⟨hhan, hcount, -⟩ := refused_for_good new_blank hr (of_decide_eq_true hs) ht
  exact ⟨blank, s, t, new_blank, hr, ht, hhan, hcount⟩

end run

end Http

end Netpoll
