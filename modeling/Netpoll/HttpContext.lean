import Mathlib.Algebra.Ring.Int.Defs
import Mathlib.Data.List.TakeWhile
import Netpoll.BufferRep
import Netpoll.PrefixCode
import Netpoll.SplitString

/-!
# The request parser of the HTTP example

`http::Context` reads a request from the connection's buffer line by line:
a request line, then headers, up to a blank line. It is called whenever
bytes have arrived, takes the complete lines out of the buffer and resumes
with the next line; the end of the headers is recognised by a blank line
that is all there is in the buffer.

`Parsed` says what a call does to the bytes it finds, `parseRequest_spec`
that it does so. What is taken in piece by piece is taken in as a whole
(`Parsed.append`). The bytes of a well-formed `Message` are taken in as the
request it stands for (`parsed_message`), and below 2 GiB no others are
(`exists_message`): `addHeader` walks a value with cursors of type `int`, so
that it cuts off or throws on a longer one.
-/

namespace Netpoll

namespace Http

open MessageBuffer StdString

/-! ## The code -/

inductive Method where
  | kInvalid | kGET | kPOST | kHEAD | kPUT | kDELETE
deriving Repr, DecidableEq

inductive Version where
  | kUnknown | kHttp10 | kHttp11
deriving Repr, DecidableEq

def ascii (cs : List Char) : List Byte := cs.map fun c => UInt8.ofNat c.toNat

def space : Byte := 32
def question : Byte := 63
def colon : Byte := 58
def CRLF : List Byte := [13, 10]

/-- `Request::MethodMapping`. -/
def methodMapping (method : List Byte) : Method :=
  if method = ascii ['G', 'E', 'T'] then .kGET
  else if method = ascii ['P', 'O', 'S', 'T'] then .kPOST
  else if method = ascii ['H', 'E', 'A', 'D'] then .kHEAD
  else if method = ascii ['P', 'U', 'T'] then .kPUT
  else if method = ascii ['D', 'E', 'L', 'E', 'T', 'E'] then .kDELETE
  else .kInvalid

/-- `http::Request`; nothing writes its body. -/
structure Request where
  method : Method
  version : Version
  path : List Byte
  query : List Byte
  headers : List Byte → Option (List Byte)

namespace Request

def new : Request := ⟨.kInvalid, .kUnknown, [], [], fun _ => none⟩

/-- The number of spaces at the front. -/
def spaces (value : List Byte) : Nat := (value.takeWhile (· = space)).length

/-- `headers_[key] = value`. -/
def setHeader (r : Request) (key value : List Byte) : Request :=
  { r with headers := Function.update r.headers key (some value) }

/-- `addHeader`. The cursors `i` and `k` are of type `int`. -/
def addHeader (r : Request) (key value : List Byte) : Except Fault Request :=
  let i := spaces value
  -- the front cursor passes the largest `int`
  if 2 ^ 31 ≤ i then .error .intOverflow
  else if i = value.length then .ok (r.setHeader key [])
  else
    -- `static_cast<int>(value.size())`; `k` starts one below it
    let size : Int := (value.length : Int).bmod (2 ^ 32)
    if size = -2 ^ 31 then .error .intOverflow
    -- `k` is below -1 at once, and the range ends before it begins
    else if size < 0 then .error .lengthError
    else
      -- `k + 1` behind the loop
      let stop := size.toNat - spaces (value.take size.toNat).reverse
      if stop = 0 then .ok (r.setHeader key [])
      else if stop < i then .error .lengthError
      else .ok (r.setHeader key (slice value i stop))

end Request

def http1 : List Byte := ascii ['H', 'T', 'T', 'P', '/', '1', '.']

/-- The end of `processRequestLine`. With no version at all the length of
the view wraps around, and the comparison fails as well. -/
def processVersion (request : Request) (sv : List Byte) : Request × Bool :=
  if sv.dropLast ≠ http1 then (request, false)
  else if sv.getLast? = some 48 then ({ request with version := .kHttp10 }, true)
  else if sv.getLast? = some 49 then ({ request with version := .kHttp11 }, true)
  else (request, false)

/-- The middle of `processRequestLine`. -/
def processPath (request : Request) (path : List Byte) : Request :=
  match find path [question] 0 with
  | some next => { request with query := path.drop (next + 1), path := path.take next }
  | none => { request with path }

/-- `Context::processRequestLine`, with the request as it is left. -/
def processRequestLine (request : Request) (text : List Byte) : Request × Bool :=
  match find text [space] 0 with
  | none => (request, false)
  | some next =>
    let method := methodMapping (text.take next)
    if method = .kInvalid then (request, false)
    else
      let request := { request with method }
      if text.length < next + 1 then (request, false)
      else
        let sv := text.drop (next + 1)
        match find sv [space] 0 with
        | none => (request, false)
        | some next =>
          let request := processPath request (sv.take next)
          if sv.length < next + 1 then (request, false)
          else processVersion request (sv.drop (next + 1))

inductive RequestParseState where
  | kExpectRequestLine | kExpectHeaders | kExpectBody | kGotAll
deriving Repr, DecidableEq

structure Context where
  state : RequestParseState
  request : Request

/-- `MessageBuffer::findCRLF`, as an index into the storage. -/
def findCRLF (b : MessageBuffer) : Option Nat := (find b.bytes CRLF 0).map (b.head + ·)

namespace Context

/-- What a context is built as and reset to. -/
def new : Context := ⟨.kExpectRequestLine, .new⟩

def parseOk (ctx : Context) : Bool := ctx.state = .kGotAll

/-- The `for (;;)` of `parseRequest`; `fuel` bounds its rounds. -/
def parseLoop : Nat → Context → MessageBuffer → Except Fault (Bool × Context × MessageBuffer)
  | 0, _, _ => .error .stackOverflow
  | fuel + 1, ctx, buffer =>
    match ctx.state with
    | .kExpectRequestLine =>
      match findCRLF buffer with
      | none => .ok (true, ctx, buffer)
      | some crlf => do
        let text ← buffer.load buffer.head (subSz crlf buffer.head)
        let (request, ok) := processRequestLine ctx.request text
        if ok then
          let buffer ← buffer.retrieveUntil (crlf + 2)
          parseLoop fuel ⟨.kExpectHeaders, request⟩ buffer
        else .ok (false, { ctx with request }, buffer)
    | .kExpectHeaders =>
      match findCRLF buffer with
      | none => .ok (true, ctx, buffer)
      | some crlf =>
        if buffer.readableBytes = 2 then
          .ok (true, { ctx with state := .kGotAll }, buffer.retrieve 2)
        else do
          let text ← buffer.load buffer.head (subSz crlf buffer.head)
          match find text [colon] 0 with
          | none => .ok (false, ctx, buffer)
          | some sep =>
            let request ← ctx.request.addHeader (text.take sep) (text.drop (sep + 1))
            let buffer ← buffer.retrieveUntil (crlf + 2)
            parseLoop fuel { ctx with request } buffer
    | .kExpectBody => parseLoop fuel ctx buffer
    | .kGotAll => .ok (true, ctx, buffer)

/-- Every round but the last one takes a line. -/
def parseRequest (ctx : Context) (buffer : MessageBuffer) :
    Except Fault (Bool × Context × MessageBuffer) :=
  parseLoop (buffer.readableBytes + 1) ctx buffer

end Context

/-! ## Lines -/

/-- There is no end of a line in it. -/
def Free (xs : List Byte) : Prop := ¬ CRLF <:+: xs

theorem CRLF_ne_nil : CRLF ≠ [] := by decide

theorem find_none_iff {xs : List Byte} : find xs CRLF 0 = none ↔ Free xs :=
  find_eq_none CRLF_ne_nil

theorem find_line {line : List Byte} (h : Free line) (rest : List Byte) :
    find (line ++ CRLF ++ rest) CRLF 0 = some line.length := by
  have hle : line.length ≤ (line ++ CRLF ++ rest).length := by
    rw [List.append_assoc, List.length_append]
    exact Nat.le_add_right _ _
  refine find_eq_some.mpr ⟨⟨Nat.zero_le _, hle⟩, ?_, fun j _ hj hp => ?_⟩
  · rw [List.append_assoc, List.drop_left]
    exact List.prefix_append _ _
  · rw [List.append_assoc, List.drop_append_of_le_length (Nat.le_of_lt hj)] at hp
    have hsuf : line.drop j <:+ line := List.drop_suffix j line
    cases hd : line.drop j with
    | nil =>
        have := congrArg List.length hd
        simp only [List.length_drop, List.length_nil] at this
        omega
    | cons x xs =>
        rw [hd] at hp hsuf
        cases xs with
        | nil => simp [CRLF] at hp
        | cons y ys =>
            refine h (List.IsInfix.trans ?_ hsuf.isInfix)
            simp only [CRLF, List.cons_append, List.cons_prefix_cons, List.nil_prefix,
              and_true] at hp
            obtain ⟨rfl, rfl⟩ := hp
            exact ⟨[], ys, rfl⟩

theorem exists_line {xs : List Byte} {i : Nat} (h : find xs CRLF 0 = some i) :
    ∃ line rest, xs = line ++ CRLF ++ rest ∧ Free line ∧ i = line.length := by
  have hlen := (find_eq_some.mp h).1.2
  have hsplit := find_split h
  have hfree := find_first h CRLF_ne_nil
  rw [List.drop_zero] at hsplit
  exact ⟨slice xs 0 i, _, hsplit, hfree, by rw [slice_length hlen, Nat.sub_zero]⟩

theorem line_inj {line line' rest rest' : List Byte} (h : Free line) (h' : Free line')
    (heq : line ++ CRLF ++ rest = line' ++ CRLF ++ rest') : line = line' ∧ rest = rest' := by
  have hlen : line.length = line'.length := by
    have h1 := find_line h rest
    rw [heq, find_line h'] at h1
    exact (Option.some.inj h1).symm
  rw [List.append_assoc, List.append_assoc] at heq
  obtain ⟨hl, hr⟩ := List.append_inj heq hlen
  exact ⟨hl, List.append_cancel_left hr⟩

theorem free_nil : Free [] := by simp [Free, CRLF]

theorem line_eq_blank {line rest : List Byte} (h : Free line) (heq : line ++ CRLF ++ rest = CRLF) :
    line = [] ∧ rest = [] :=
  line_inj h free_nil (heq.trans (by simp))

theorem not_free_line (line rest : List Byte) : ¬ Free (line ++ CRLF ++ rest) := fun h =>
  h ⟨line, rest, rfl⟩

theorem find_byte {c : Byte} {xs : List Byte} (h : c ∉ xs) (rest : List Byte) :
    find (xs ++ c :: rest) [c] 0 = some xs.length := by
  refine find_eq_some.mpr ⟨⟨Nat.zero_le _, by simp⟩, ?_, fun j _ hj hp => h ?_⟩
  · rw [List.drop_left]
    exact ⟨rest, rfl⟩
  · rw [List.drop_append_of_le_length (Nat.le_of_lt hj), List.drop_eq_getElem_cons hj,
      List.cons_append, List.cons_prefix_cons] at hp
    rw [hp.1]
    exact List.getElem_mem hj

theorem find_byte_none {c : Byte} {xs : List Byte} : find xs [c] 0 = none ↔ c ∉ xs := by
  rw [find_eq_none (by simp), List.drop_zero, List.singleton_infix_iff]

theorem exists_byte {c : Byte} {xs : List Byte} {i : Nat} (h : find xs [c] 0 = some i) :
    ∃ pre post, xs = pre ++ c :: post ∧ c ∉ pre ∧ i = pre.length := by
  have hlen := (find_eq_some.mp h).1.2
  have hsplit := find_split h
  have hfree := find_first h (by simp)
  rw [List.drop_zero, List.append_assoc] at hsplit
  refine ⟨slice xs 0 i, _, hsplit, ?_, by rw [slice_length hlen, Nat.sub_zero]⟩
  rwa [List.singleton_infix_iff] at hfree

/-! ## Header values -/

/-- The spaces at both ends taken off. -/
def strip (value : List Byte) : List Byte :=
  (value.reverse.dropWhile (· = space)).reverse.dropWhile (· = space)

theorem spaces_le_length (value : List Byte) : Request.spaces value ≤ value.length :=
  (List.takeWhile_prefix _).length_le

theorem spaces_eq_length_iff {value : List Byte} :
    Request.spaces value = value.length ↔ ∀ x ∈ value, x = space := by
  rw [Request.spaces]
  constructor
  · intro h
    have := (List.takeWhile_prefix (p := (· = space)) (l := value)).eq_of_length h
    rw [List.takeWhile_eq_self_iff] at this
    simpa using this
  · intro h
    rw [List.takeWhile_eq_self_iff.mpr (by simpa using h)]

theorem drop_spaces (value : List Byte) :
    value.drop (Request.spaces value) = value.dropWhile (· = space) := by
  have h := @List.drop_left _ (value.takeWhile (· = space)) (value.dropWhile (· = space))
  rwa [List.takeWhile_append_dropWhile] at h

/-- The two cursors of `addHeader` are around the stripped value. -/
theorem slice_spaces {value : List Byte} (h : ¬ ∀ x ∈ value, x = space) :
    Request.spaces value ≤ value.length - Request.spaces value.reverse ∧
      slice value (Request.spaces value) (value.length - Request.spaces value.reverse) =
        strip value := by
  obtain ⟨front, hfront⟩ : ∃ front, (value.reverse.dropWhile (· = space)).reverse = front :=
    ⟨_, rfl⟩
  obtain ⟨back, hback⟩ : ∃ back, (value.reverse.takeWhile (· = space)).reverse = back := ⟨_, rfl⟩
  have hsplit : front ++ back = value := by
    rw [← hfront, ← hback, ← List.reverse_append, List.takeWhile_append_dropWhile,
      List.reverse_reverse]
  have hspaces : ∀ x ∈ back, x = space := by
    intro x hx
    rw [← hback, List.mem_reverse] at hx
    simpa using List.mem_takeWhile_imp hx
  have hend : value.length - Request.spaces value.reverse = front.length := by
    have hk : Request.spaces value.reverse = back.length := by
      rw [← hback, List.length_reverse, Request.spaces]
    rw [hk, ← hsplit, List.length_append, Nat.add_sub_cancel]
  -- the front is not made of spaces only, so its spaces are those of the value
  have hsame : Request.spaces value = Request.spaces front := by
    have hne : ¬ Request.spaces front = front.length := by
      rw [spaces_eq_length_iff]
      intro hall
      refine h fun x hx => ?_
      rw [← hsplit] at hx
      exact (List.mem_append.mp hx).elim (hall x) (hspaces x)
    unfold Request.spaces at hne ⊢
    rw [← hsplit, List.takeWhile_append, if_neg hne]
  refine ⟨?_, ?_⟩
  · rw [hsame, hend]
    exact spaces_le_length front
  · rw [hsame, hend, slice, ← hsplit, List.take_left, drop_spaces, strip, hsplit, hfront]

/-- Below 2 GiB the cursors do what they are meant to do. -/
theorem addHeader_eq (r : Request) (key : List Byte) {value : List Byte}
    (hshort : value.length < 2 ^ 31) :
    r.addHeader key value = .ok (r.setHeader key (strip value)) := by
  have hi := spaces_le_length value
  have hsize : (value.length : Int).bmod (2 ^ 32) = value.length :=
    Int.bmod_eq_of_le (by omega) (by omega)
  unfold Request.addHeader
  dsimp only
  rw [if_neg (by omega), hsize]
  by_cases hall : ∀ x ∈ value, x = space
  · have hstrip : strip value = [] := by
      have hnil : value.reverse.dropWhile (· = space) = [] :=
        List.dropWhile_eq_nil_iff.mpr (by simpa using hall)
      rw [strip, hnil]
      rfl
    rw [if_pos (spaces_eq_length_iff.mpr hall), hstrip]
  · have hne := mt spaces_eq_length_iff.mp hall
    obtain ⟨hle, hslice⟩ := slice_spaces hall
    have hrev : Request.spaces value.reverse ≠ value.length := by
      intro h
      rw [← List.length_reverse, spaces_eq_length_iff] at h
      exact hall (by simpa using h)
    have hback := spaces_le_length value.reverse
    rw [List.length_reverse] at hback
    rw [if_neg hne, if_neg (by omega), if_neg (by omega), Int.toNat_natCast, List.take_length,
      if_neg (by omega), if_neg (Nat.not_lt.mpr hle), hslice]

/-- The parser fails on 2 GiB or more only, and in `addHeader`. -/
def HeaderTooLong (xs : List Byte) (f : Fault) : Prop :=
  (f = .intOverflow ∨ f = .lengthError) ∧ 2 ^ 31 ≤ xs.length

theorem HeaderTooLong.mono {xs ys : List Byte} {f : Fault} (h : HeaderTooLong xs f)
    (hle : xs.length ≤ ys.length) : HeaderTooLong ys f :=
  ⟨h.1, h.2.trans hle⟩

theorem addHeader_tooLong {r : Request} {key value : List Byte} {f : Fault}
    (h : r.addHeader key value = .error f) : HeaderTooLong value f := by
  refine ⟨?_, Nat.not_lt.mp fun hshort => by cases (addHeader_eq r key hshort).symm.trans h⟩
  unfold Request.addHeader at h
  dsimp only at h
  split_ifs at h <;> cases h <;> simp

/-! ## One call of the parser -/

namespace Context

/-- The parser expects a line. -/
def Open (ctx : Context) : Prop :=
  ctx.state = .kExpectRequestLine ∨ ctx.state = .kExpectHeaders

/-- What a complete line does; `none` if it is refused. -/
def line (ctx : Context) (text : List Byte) : Except Fault (Option Context) :=
  match ctx.state with
  | .kExpectRequestLine =>
    if (processRequestLine ctx.request text).2 then
      .ok (some ⟨.kExpectHeaders, (processRequestLine ctx.request text).1⟩)
    else .ok none
  | .kExpectHeaders =>
    match find text [colon] 0 with
    | some sep =>
      match ctx.request.addHeader (text.take sep) (text.drop (sep + 1)) with
      | .ok request => .ok (some { ctx with request })
      | .error f => .error f
    | none => .ok none
  | _ => .ok none

theorem line_state {ctx ctx' : Context} {text : List Byte} (h : ctx.line text = .ok (some ctx')) :
    ctx'.state = .kExpectHeaders := by
  unfold line at h
  split at h
  next hst =>
      split at h
      · cases h
        rfl
      · cases h
  next hst =>
      split at h
      · split at h
        · cases h
          exact hst
        · cases h
      · cases h
  · cases h

theorem line_tooLong {ctx : Context} {text : List Byte} {f : Fault}
    (h : ctx.line text = .error f) : HeaderTooLong text f := by
  unfold line at h
  split at h
  · split at h <;> cases h
  · split at h
    · split at h
      · cases h
      next hadd =>
          cases h
          refine (addHeader_tooLong hadd).mono ?_
          rw [List.length_drop]
          exact Nat.sub_le _ _
    · cases h
  · cases h

end Context

open Context

/-- What a call makes of the bytes in the buffer: whether they are
acceptable, the context, and the bytes that are left. -/
inductive Parsed : Context → List Byte → Bool → Context → List Byte → Prop
  | waits {ctx : Context} {xs : List Byte} : ctx.Open → Free xs → Parsed ctx xs true ctx xs
  | gotAll {ctx : Context} : ctx.state = .kExpectHeaders →
      Parsed ctx CRLF true { ctx with state := .kGotAll } []
  | refused {ctx ctx' : Context} {text rest : List Byte} : ctx.Open → Free text →
      ctx.line text = .ok none → ctx'.state = ctx.state →
      ¬ (ctx.state = .kExpectHeaders ∧ text = [] ∧ rest = []) →
      Parsed ctx (text ++ CRLF ++ rest) false ctx' (text ++ CRLF ++ rest)
  | line {ctx ctx' ctx'' : Context} {text rest ys : List Byte} {ok : Bool} : ctx.Open →
      Free text → ctx.line text = .ok (some ctx') → Parsed ctx' rest ok ctx'' ys →
      Parsed ctx (text ++ CRLF ++ rest) ok ctx'' ys

theorem findCRLF_none {b : MessageBuffer} (h : Free b.bytes) : findCRLF b = none := by
  rw [findCRLF, find_none_iff.mpr h]
  rfl

theorem findCRLF_line {b : MessageBuffer} {text rest : List Byte}
    (hb : b.bytes = text ++ CRLF ++ rest) (h : Free text) :
    findCRLF b = some (b.head + text.length) := by
  rw [findCRLF, hb, find_line h]
  rfl

theorem line_view {b : MessageBuffer} {text rest : List Byte} (hb : Sized b)
    (hbytes : b.bytes = text ++ CRLF ++ rest) :
    b.load b.head (subSz (b.head + text.length) b.head) = .ok text ∧
      ∃ b', b.retrieveUntil (b.head + text.length + 2) = .ok b' ∧ Becomes b rest b' := by
  have hlen : text.length + 2 + rest.length = b.readableBytes := by
    rw [← hb.toRep.bytes_length, hbytes]
    simp [CRLF]
    omega
  have hr := hb.toRep.readable_eq
  have htail := hb.toRep.tail_le
  have hsize := hb.toRep.size_le
  have hlim := limit_lt
  constructor
  · rw [subSz_eq (by omega) (by omega), Nat.add_sub_cancel_left, hb.toRep.load_eq (by omega), hbytes,
      List.append_assoc, List.take_left]
  · rw [Nat.add_assoc]
    obtain ⟨b', hr', hbe⟩ := hb.toRep.retrieveUntil (k := text.length + 2) (by omega)
      fun _ => hb.shrunkSize_ge
    refine ⟨b', hr', ?_⟩
    have hdrop : b.bytes.drop (text.length + 2) = rest := by
      rw [hbytes, show text.length + 2 = (text ++ CRLF).length by simp [CRLF], List.drop_left]
    rwa [hdrop] at hbe

theorem exists_sep {ctx : Context} {text : List Byte} {r : Except Fault (Option Context)}
    (hst : ctx.state = .kExpectHeaders) (hl : ctx.line text = r) (hr : r ≠ .ok none) :
    ∃ sep, find text [colon] 0 = some sep := by
  cases hsep : find text [colon] 0 with
  | some sep => exact ⟨sep, rfl⟩
  | none =>
      refine absurd hl.symm ?_
      simpa [Context.line, hst, hsep] using hr

theorem readableBytes_ne_two {b : MessageBuffer} {text rest : List Byte} {sep : Nat} (hb : Sized b)
    (hbytes : b.bytes = text ++ CRLF ++ rest) (hsep : find text [colon] 0 = some sep) :
    b.readableBytes ≠ 2 := by
  obtain ⟨pre, post, rfl, -⟩ := exists_byte hsep
  rw [← hb.toRep.bytes_length, hbytes]
  simp [CRLF]
  omega

section round

variable {ctx : Context} {b : MessageBuffer} {text rest : List Byte} (fuel : Nat)

theorem parseLoop_waits (hopen : ctx.Open) (hfree : Free b.bytes) :
    parseLoop (fuel + 1) ctx b = .ok (true, ctx, b) := by
  have hnone := findCRLF_none hfree
  rcases hopen with hst | hst <;> simp only [parseLoop, hst, hnone]

theorem parseLoop_gotAll (hst : ctx.state = .kExpectHeaders) (hb : Sized b)
    (hbytes : b.bytes = CRLF) :
    parseLoop (fuel + 1) ctx b = .ok (true, { ctx with state := .kGotAll }, b.retrieve 2) := by
  have htwo : b.readableBytes = 2 := by
    rw [← hb.toRep.bytes_length, hbytes]
    rfl
  have hblank : b.bytes = [] ++ CRLF ++ [] := hbytes
  have hcrlf : findCRLF b = some (b.head + 0) := findCRLF_line hblank free_nil
  simp only [parseLoop, hst, hcrlf, htwo, if_true]

variable (hopen : ctx.Open) (hb : Sized b) (hbytes : b.bytes = text ++ CRLF ++ rest)
  (htext : Free text)
include hopen hb hbytes htext

theorem parseLoop_line {ctx' : Context} (hl : ctx.line text = .ok (some ctx')) :
    ∃ b', parseLoop (fuel + 1) ctx b = parseLoop fuel ctx' b' ∧ Becomes b rest b' := by
  have hcrlf := findCRLF_line hbytes htext
  obtain ⟨hload, b', hret, hbe⟩ := line_view hb hbytes
  refine ⟨b', ?_, hbe⟩
  rcases hopen with hst | hst
  · have hok : (processRequestLine ctx.request text).2 = true := by
      by_contra hok
      simp [Context.line, hst, hok] at hl
    simp only [Context.line, hst, hok, if_true, Except.ok.injEq, Option.some.injEq] at hl
    subst hl
    simp only [parseLoop, hst, hcrlf, hload, ok_bind, hok, hret, if_true]
  · obtain ⟨sep, hsep⟩ := exists_sep hst hl (by simp)
    have htwo := readableBytes_ne_two hb hbytes hsep
    simp only [Context.line, hst, hsep] at hl
    split at hl
    next request hadd =>
        cases hl
        simp only [parseLoop, hst, hcrlf, if_neg htwo, hload, ok_bind, hsep, hadd, hret]
    next => cases hl

theorem parseLoop_fails {f : Fault} (hl : ctx.line text = .error f) :
    parseLoop (fuel + 1) ctx b = .error f := by
  have hcrlf := findCRLF_line hbytes htext
  obtain ⟨hload, -⟩ := line_view hb hbytes
  rcases hopen with hst | hst
  · simp only [Context.line, hst] at hl
    split at hl <;> cases hl
  · obtain ⟨sep, hsep⟩ := exists_sep hst hl (by simp)
    have htwo := readableBytes_ne_two hb hbytes hsep
    simp only [Context.line, hst, hsep] at hl
    split at hl
    next => cases hl
    next hadd =>
        cases hl
        simp only [parseLoop, hst, hcrlf, if_neg htwo, hload, ok_bind, hsep, hadd]
        rfl

theorem parseLoop_refused (hl : ctx.line text = .ok none)
    (hmore : ¬ (ctx.state = .kExpectHeaders ∧ text = [] ∧ rest = [])) :
    ∃ ctx', parseLoop (fuel + 1) ctx b = .ok (false, ctx', b) ∧ ctx'.state = ctx.state := by
  have hcrlf := findCRLF_line hbytes htext
  obtain ⟨hload, -⟩ := line_view hb hbytes
  rcases hopen with hst | hst
  · have hok : (processRequestLine ctx.request text).2 = false := by
      simpa [Context.line, hst] using hl
    refine ⟨{ ctx with request := (processRequestLine ctx.request text).1 }, ?_, rfl⟩
    simp only [parseLoop, hst, hcrlf, hload, ok_bind, hok]
    rfl
  · have hsep : find text [colon] 0 = none := by
      cases hsep : find text [colon] 0 with
      | none => rfl
      | some sep =>
          simp only [Context.line, hst, hsep] at hl
          split at hl <;> cases hl
    have htwo : b.readableBytes ≠ 2 := by
      intro htwo
      rw [← hb.toRep.bytes_length, hbytes] at htwo
      simp only [CRLF, List.length_append, List.length_cons, List.length_nil] at htwo
      exact hmore ⟨hst, List.length_eq_zero_iff.mp (by omega), List.length_eq_zero_iff.mp (by omega)⟩
    exact ⟨ctx, by simp only [parseLoop, hst, hcrlf, if_neg htwo, hload, ok_bind, hsep], rfl⟩

end round

/-- The result of a call, its context and its buffer. -/
def ParseResult (ctx : Context) (xs : List Byte) (r : Bool × Context × MessageBuffer) : Prop :=
  Parsed ctx xs r.1 r.2.1 r.2.2.bytes ∧ Sized r.2.2

theorem parseLoop_spec (fuel : Nat) : ∀ (ctx : Context) (b : MessageBuffer), ctx.Open → Sized b →
    b.readableBytes < fuel →
    Post (HeaderTooLong b.bytes) (ParseResult ctx b.bytes) (parseLoop fuel ctx b) := by
  induction fuel with
  | zero => exact fun _ _ _ _ h => absurd h (Nat.not_lt_zero _)
  | succ fuel ih =>
      intro ctx b hopen hb hfuel
      by_cases hfree : Free b.bytes
      · rw [parseLoop_waits fuel hopen hfree]
        exact ⟨.waits hopen hfree, hb⟩
      obtain ⟨i, hi⟩ := Option.ne_none_iff_exists'.mp (mt find_none_iff.mp hfree)
      obtain ⟨text, rest, hbytes, htext, -⟩ := exists_line hi
      have hlen := congrArg List.length hbytes
      simp only [CRLF, List.length_append, List.length_cons, List.length_nil] at hlen
      cases hl : ctx.line text with
      | error f =>
          rw [parseLoop_fails fuel hopen hb hbytes htext hl]
          exact (line_tooLong hl).mono (by omega)
      | ok next =>
          cases next with
          | some ctx' =>
              obtain ⟨b', hround, hbe⟩ := parseLoop_line fuel hopen hb hbytes htext hl
              have hshort : b'.readableBytes < fuel := by
                rw [hb.toRep.bytes_length] at hlen
                rw [← hbe.rep.bytes_length, hbe.bytes_eq]
                omega
              rw [hround]
              refine (ih ctx' b' (Or.inr (line_state hl)) (hbe.sized hb) hshort).mono ?_ ?_
              · intro f hf
                rw [hbe.bytes_eq] at hf
                exact hf.mono (by omega)
              · rintro r ⟨hp, hs⟩
                rw [hbe.bytes_eq] at hp
                exact ⟨hbytes ▸ .line hopen htext hl hp, hs⟩
          | none =>
              by_cases hend : ctx.state = .kExpectHeaders ∧ text = [] ∧ rest = []
              · obtain ⟨hst, rfl, rfl⟩ := hend
                have hbe := hb.toRep.retrieve 2 fun _ => hb.shrunkSize_ge
                rw [parseLoop_gotAll fuel hst hb hbytes]
                refine ⟨?_, hbe.sized hb⟩
                rw [hbe.bytes_eq, hbytes]
                exact .gotAll hst
              · obtain ⟨ctx', hround, hst⟩ := parseLoop_refused fuel hopen hb hbytes htext hl hend
                rw [hround]
                exact ⟨hbytes ▸ .refused hopen htext hl hst hend, hb⟩

/-- A call takes in the lines that are complete; it returns unless a header
in the buffer is too long for `addHeader`. -/
theorem parseRequest_spec {ctx : Context} {b : MessageBuffer} (h : ctx.Open) (hb : Sized b) :
    Post (HeaderTooLong b.bytes) (ParseResult ctx b.bytes) (ctx.parseRequest b) :=
  parseLoop_spec _ ctx b h hb (Nat.lt_succ_self _)

/-! ## Calls in a row -/

/-- What is taken in piece by piece is taken in as a whole. -/
theorem Parsed.append {ctx ctx' ctx'' : Context} {xs ys zs ws : List Byte} {ok : Bool}
    (h : Parsed ctx xs true ctx' ys) (hopen : ctx'.Open)
    (h' : Parsed ctx' (ys ++ zs) ok ctx'' ws) : Parsed ctx (xs ++ zs) ok ctx'' ws := by
  generalize htrue : true = acc at h
  induction h with
  | waits => exact h'
  | gotAll => simp [Open] at hopen
  | refused => cases htrue
  | @line ctx ctx₁ _ text rest _ _ hctx hfree hl _ ih =>
      have hrest := ih hopen h' htrue
      rw [List.append_assoc]
      exact .line hctx hfree hl hrest

theorem Parsed.of_free {ctx ctx' : Context} {xs ys : List Byte} {ok : Bool}
    (h : Parsed ctx xs ok ctx' ys) (hfree : Free xs) : ok = true ∧ ctx' = ctx ∧ ys = xs := by
  cases h with
  | waits => exact ⟨rfl, rfl, rfl⟩
  | gotAll => exact absurd hfree (not_free_line [] [])
  | refused => exact absurd hfree (not_free_line _ _)
  | line => exact absurd hfree (not_free_line _ _)

theorem Parsed.of_line {ctx ctx' : Context} {text rest ys : List Byte} {ok : Bool}
    (h : Parsed ctx (text ++ CRLF ++ rest) ok ctx' ys) (hfree : Free text) :
    (∃ ctx₁, ctx.line text = .ok (some ctx₁) ∧ Parsed ctx₁ rest ok ctx' ys) ∨
      ctx.line text = .ok none ∧
        ((ctx.state = .kExpectHeaders ∧ text = [] ∧ rest = []) ∧ ok = true ∧
            ctx' = { ctx with state := .kGotAll } ∧ ys = [] ∨
          ¬ (ctx.state = .kExpectHeaders ∧ text = [] ∧ rest = []) ∧ ok = false ∧
            ctx'.state = ctx.state ∧ ys = text ++ CRLF ++ rest) := by
  generalize hxs : text ++ CRLF ++ rest = xs at h
  cases h with
  | waits _ hfree' => exact absurd (hxs ▸ hfree') (not_free_line _ _)
  | gotAll hst =>
      obtain ⟨rfl, rfl⟩ := line_eq_blank hfree hxs
      refine Or.inr ⟨?_, Or.inl ⟨⟨hst, rfl, rfl⟩, rfl, rfl, rfl⟩⟩
      simp [Context.line, hst, find_byte_none.mpr]
  | refused _ hfree' hl hst hmore =>
      obtain ⟨rfl, rfl⟩ := line_inj hfree hfree' hxs
      exact Or.inr ⟨hl, Or.inr ⟨hmore, rfl, hst, rfl⟩⟩
  | line _ hfree' hl hp =>
      obtain ⟨rfl, rfl⟩ := line_inj hfree hfree' hxs
      exact Or.inl ⟨_, hl, hp⟩

theorem Parsed.det {ctx ctx₁ ctx₂ : Context} {xs ys₁ ys₂ : List Byte} {ok₁ ok₂ : Bool}
    (h₁ : Parsed ctx xs ok₁ ctx₁ ys₁) (h₂ : Parsed ctx xs ok₂ ctx₂ ys₂) :
    ok₁ = ok₂ ∧ (ok₁ = true → ctx₁ = ctx₂) := by
  induction h₁ generalizing ok₂ ctx₂ ys₂ with
  | waits hopen hfree =>
      obtain ⟨rfl, rfl, rfl⟩ := h₂.of_free hfree
      exact ⟨rfl, fun _ => rfl⟩
  | gotAll hst =>
      have hblank : Parsed _ ([] ++ CRLF ++ []) ok₂ ctx₂ ys₂ := h₂
      rcases hblank.of_line free_nil with
        ⟨ctx₁, hl, -⟩ | ⟨-, ⟨-, rfl, rfl, rfl⟩ | ⟨hmore, -⟩⟩
      · simp [Context.line, hst, find_byte_none.mpr] at hl
      · exact ⟨rfl, fun _ => rfl⟩
      · exact absurd ⟨hst, rfl, rfl⟩ hmore
  | refused _ hfree hl _ hmore =>
      rcases h₂.of_line hfree with ⟨ctx₁, hl', -⟩ | ⟨-, ⟨hend, -⟩ | ⟨-, rfl, -⟩⟩
      · cases hl.symm.trans hl'
      · exact absurd hend hmore
      · exact ⟨rfl, fun h => by cases h⟩
  | line _ hfree hl _ ih =>
      rcases h₂.of_line hfree with ⟨ctx₁, hl', hp⟩ | ⟨hl', -⟩
      · obtain rfl := Option.some.inj (Except.ok.inj (hl.symm.trans hl'))
        exact ih hp
      · cases hl.symm.trans hl'

theorem Parsed.nil_of_gotAll {ctx ctx' : Context} {xs ys : List Byte} {ok : Bool}
    (h : Parsed ctx xs ok ctx' ys) (hall : ctx'.state = .kGotAll) : ys = [] := by
  induction h with
  | waits hopen => rcases hopen with hst | hst <;> cases hst.symm.trans hall
  | gotAll => rfl
  | refused hopen _ _ hst =>
      rw [hall] at hst
      rcases hopen with ho | ho <;> cases hst.trans ho
  | line _ _ _ _ ih => exact ih hall

theorem Parsed.append_refused {ctx ctx' : Context} {xs ys : List Byte}
    (h : Parsed ctx xs false ctx' ys) (zs : List Byte) :
    ∃ ctx'', Parsed ctx (xs ++ zs) false ctx'' (ys ++ zs) := by
  generalize hfalse : false = ok at h
  induction h with
  | waits | gotAll => cases hfalse
  | @refused ctx ctx' text rest hopen hfree hl hst hmore =>
      refine ⟨ctx', ?_⟩
      rw [List.append_assoc]
      refine .refused hopen hfree hl hst ?_
      rintro ⟨hst', ht, hr⟩
      exact hmore ⟨hst', ht, (List.append_eq_nil_iff.mp hr).1⟩
  | line hopen hfree hl _ ih =>
      obtain ⟨ctx'', hp⟩ := ih hfalse
      refine ⟨ctx'', ?_⟩
      rw [List.append_assoc]
      exact .line hopen hfree hl hp

/-- Bytes behind the blank line make it a header without a name. -/
theorem Parsed.append_gotAll {ctx ctx' : Context} {xs ys zs : List Byte} {ok : Bool}
    (h : Parsed ctx xs ok ctx' ys) (hall : ctx'.state = .kGotAll) (hctx : ctx.Open) (hzs : zs ≠ []) :
    ∃ ctx'' ws, Parsed ctx (xs ++ zs) false ctx'' ws := by
  induction h with
  | waits hopen => rcases hopen with hst | hst <;> cases hst.symm.trans hall
  | @gotAll ctx hst =>
      have hl : ctx.line [] = .ok none := by simp [Context.line, hst, find_byte_none.mpr]
      have hp : Parsed ctx ([] ++ CRLF ++ zs) false ctx ([] ++ CRLF ++ zs) :=
        .refused hctx free_nil hl rfl fun h => hzs h.2.2
      exact ⟨ctx, _, hp⟩
  | refused hopen _ _ hst =>
      rw [hall] at hst
      rcases hopen with ho | ho <;> cases hst.trans ho
  | line hopen hfree hl _ ih =>
      obtain ⟨ctx'', ws, hp⟩ := ih hall (Or.inr (line_state hl))
      refine ⟨ctx'', ws, ?_⟩
      rw [List.append_assoc]
      exact .line hopen hfree hl hp

theorem processRequestLine_ok (r r' : Request) (text : List Byte) :
    (processRequestLine r text).2 = (processRequestLine r' text).2 := by
  unfold processRequestLine processVersion
  split
  · rfl
  · dsimp only
    split
    · rfl
    · split
      · rfl
      · split
        · rfl
        · split
          · rfl
          · split
            · rfl
            · split
              · rfl
              · split <;> rfl

theorem line_eq_none {ctx ctx' : Context} (hst : ctx'.state = ctx.state) {text : List Byte}
    (h : ctx.line text = .ok none) : ctx'.line text = .ok none := by
  unfold Context.line at h ⊢
  rw [hst]
  split at h
  · rw [processRequestLine_ok _ ctx.request] 
    split at h
    · cases h
    · rw [if_neg]
      assumption
  · split at h
    · split at h <;> cases h
    · rfl
  · rfl

/-- The front of the bytes is a line that is refused. -/
def Stuck (ctx : Context) (xs : List Byte) : Prop :=
  ctx.Open ∧ ∃ text rest, xs = text ++ CRLF ++ rest ∧ Free text ∧ ctx.line text = .ok none ∧
    ¬ (ctx.state = .kExpectHeaders ∧ text = [] ∧ rest = [])

theorem Parsed.stuck {ctx ctx' : Context} {xs ys : List Byte} (h : Parsed ctx xs false ctx' ys) :
    Stuck ctx' ys := by
  generalize hfalse : false = ok at h
  induction h with
  | waits | gotAll => cases hfalse
  | @refused ctx ctx' text rest hopen hfree hl hst hmore =>
      refine ⟨?_, text, rest, rfl, hfree, line_eq_none hst hl, by rwa [hst]⟩
      unfold Open
      rw [hst]
      exact hopen
  | line _ _ _ _ ih => exact ih hfalse

theorem Stuck.append {ctx : Context} {xs : List Byte} (h : Stuck ctx xs) (zs : List Byte) :
    Stuck ctx (xs ++ zs) := by
  obtain ⟨hopen, text, rest, rfl, hfree, hl, hmore⟩ := h
  refine ⟨hopen, text, rest ++ zs, List.append_assoc .., hfree, hl, ?_⟩
  rintro ⟨hst, ht, hr⟩
  exact hmore ⟨hst, ht, (List.append_eq_nil_iff.mp hr).1⟩

/-- A refused line stays where it is and is refused again. -/
theorem Stuck.again {ctx ctx' : Context} {xs ys : List Byte} {ok : Bool} (h : Stuck ctx xs)
    (hp : Parsed ctx xs ok ctx' ys) : ok = false ∧ ys = xs ∧ Stuck ctx' xs := by
  obtain ⟨hopen, text, rest, rfl, hfree, hl, hmore⟩ := h
  rcases hp.of_line hfree with ⟨ctx₁, hl', -⟩ | ⟨-, ⟨hend, -⟩ | ⟨-, rfl, -, rfl⟩⟩
  · cases hl.symm.trans hl'
  · exact absurd hend hmore
  · exact ⟨rfl, rfl, hp.stuck⟩

/-! ## Well-formed requests -/

def Method.name : Method → List Byte
  | .kInvalid => []
  | .kGET => ascii ['G', 'E', 'T']
  | .kPOST => ascii ['P', 'O', 'S', 'T']
  | .kHEAD => ascii ['H', 'E', 'A', 'D']
  | .kPUT => ascii ['P', 'U', 'T']
  | .kDELETE => ascii ['D', 'E', 'L', 'E', 'T', 'E']

def Version.name : Version → List Byte
  | .kUnknown => []
  | .kHttp10 => http1 ++ [48]
  | .kHttp11 => http1 ++ [49]

/-- The path, with the query if there is one. -/
def target (path : List Byte) : Option (List Byte) → List Byte
  | none => path
  | some query => path ++ question :: query

structure RequestLine where
  method : Method
  path : List Byte
  query : Option (List Byte)
  version : Version
  method_ne : method ≠ .kInvalid
  version_ne : version ≠ .kUnknown
  path_free : space ∉ path ∧ question ∉ path
  query_free : ∀ q ∈ query, space ∉ q
  free : Free (method.name ++ space :: (target path query ++ space :: version.name))

namespace RequestLine

def bytes (l : RequestLine) : List Byte :=
  l.method.name ++ space :: (target l.path l.query ++ space :: l.version.name)

def request (l : RequestLine) : Request :=
  ⟨l.method, l.version, l.path, l.query.getD [], fun _ => none⟩

end RequestLine

/-- A header; its value is one that `addHeader` can walk. -/
structure Header where
  key : List Byte
  value : List Byte
  key_free : colon ∉ key
  free : Free (key ++ colon :: value)
  short : value.length < 2 ^ 31

def Header.bytes (h : Header) : List Byte := h.key ++ colon :: h.value

/-- A request as it is meant. -/
structure Message where
  line : RequestLine
  headers : List Header

namespace Message

/-- What is sent: lines, and a blank line. -/
def bytes (m : Message) : List Byte :=
  m.line.bytes ++ CRLF ++ (m.headers.flatMap (fun h => h.bytes ++ CRLF) ++ CRLF)

/-- The last header of a name counts. -/
def request (m : Message) : Request :=
  { m.line.request with
    headers := fun key => ((m.headers.filter (·.key = key)).getLast?).map (strip ·.value) }

end Message

/-! ### Request lines -/

theorem methodMapping_name {m : Method} (hm : m ≠ .kInvalid) : methodMapping m.name = m := by
  cases m with
  | kInvalid => exact absurd rfl hm
  | kGET | kPOST | kHEAD | kPUT | kDELETE => decide

theorem name_methodMapping {xs : List Byte} (h : methodMapping xs ≠ .kInvalid) :
    (methodMapping xs).name = xs := by
  unfold methodMapping at h ⊢
  repeat' split
  all_goals first | (symm; assumption) | skip
  simp_all

theorem space_not_mem_name (m : Method) : space ∉ m.name := by
  cases m <;> decide

theorem processVersion_name {r : Request} {v : Version} (hv : v ≠ .kUnknown) :
    processVersion r v.name = ({ r with version := v }, true) := by
  cases v with
  | kUnknown => exact absurd rfl hv
  | kHttp10 | kHttp11 => rfl

theorem exists_version {r r' : Request} {sv : List Byte} (h : processVersion r sv = (r', true)) :
    ∃ v : Version, v ≠ .kUnknown ∧ sv = v.name := by
  unfold processVersion at h
  split at h
  · cases h
  next hdrop =>
      have hlast : ∀ d, sv.getLast? = some d → sv = http1 ++ [d] := by
        intro d hd
        rw [← Classical.not_not.mp hdrop]
        exact (List.dropLast_append_getLast? d hd).symm
      split at h
      next hd => exact ⟨.kHttp10, by simp, hlast _ hd⟩
      · split at h
        next hd => exact ⟨.kHttp11, by simp, hlast _ hd⟩
        · cases h

theorem processPath_target {r : Request} {path : List Byte} {query : Option (List Byte)}
    (hq : question ∉ path) :
    processPath r (target path query) = { r with path, query := query.getD r.query } := by
  cases query with
  | none =>
      simp only [target, processPath, find_byte_none.mpr hq]
      rfl
  | some q =>
      simp only [target, processPath, find_byte hq, List.take_left]
      rw [List.drop_append]
      simp

theorem exists_target (sv : List Byte) : ∃ path query, sv = target path query ∧ question ∉ path := by
  cases h : find sv [question] 0 with
  | none => exact ⟨sv, none, rfl, find_byte_none.mp h⟩
  | some i =>
      obtain ⟨pre, post, rfl, hq, -⟩ := exists_byte h
      exact ⟨pre, some post, rfl, hq⟩

theorem drop_left_cons {c : Byte} {xs ys : List Byte} :
    (xs ++ c :: ys).drop (xs.length + 1) = ys := by
  rw [List.drop_append]
  simp

theorem space_not_mem_target {path : List Byte} {query : Option (List Byte)} :
    space ∉ target path query ↔ space ∉ path ∧ ∀ q ∈ query, space ∉ q := by
  cases query with
  | none => simp [target]
  | some q =>
      have hne : space ≠ question := by decide
      simp [target, hne]

theorem processRequestLine_bytes (l : RequestLine) :
    processRequestLine .new l.bytes = (l.request, true) := by
  have hfirst := find_byte (space_not_mem_name l.method)
    (target l.path l.query ++ space :: l.version.name)
  have hsecond := find_byte (space_not_mem_target.mpr ⟨l.path_free.1, l.query_free⟩) l.version.name
  simp only [processRequestLine, RequestLine.bytes, hfirst, List.take_left, drop_left_cons, hsecond,
    methodMapping_name l.method_ne, processPath_target l.path_free.2,
    processVersion_name l.version_ne, if_neg l.method_ne]
  rw [if_neg (by simp), if_neg (by simp)]
  rfl

theorem exists_requestLine {r r' : Request} {text : List Byte} (hfree : Free text)
    (h : processRequestLine r text = (r', true)) : ∃ l : RequestLine, text = l.bytes := by
  unfold processRequestLine at h
  split at h
  · cases h
  next next hfirst =>
      obtain ⟨name, sv, rfl, hname, rfl⟩ := exists_byte hfirst
      simp only [List.take_left, drop_left_cons] at h
      split at h
      · cases h
      next hm =>
          split at h
          · cases h
          · split at h
            · cases h
            next next hsecond =>
                obtain ⟨tgt, ver, rfl, htgt, rfl⟩ := exists_byte hsecond
                simp only [List.take_left, drop_left_cons] at h
                split at h
                · cases h
                · obtain ⟨v, hv, rfl⟩ := exists_version h
                  obtain ⟨path, query, rfl, hq⟩ := exists_target tgt
                  obtain ⟨hpath, hquery⟩ := space_not_mem_target.mp htgt
                  have hmethod := name_methodMapping hm
                  refine ⟨⟨methodMapping name, path, query, v, hm, hv, ⟨hpath, hq⟩, hquery, ?_⟩, ?_⟩
                  · rw [hmethod]
                    exact hfree
                  · simp only [RequestLine.bytes, hmethod]

/-! ### Headers -/

/-- The headers of a message, stored one by one. -/
def storeHeaders (r : Request) (hs : List Header) : Request :=
  hs.foldl (fun r h => r.setHeader h.key (strip h.value)) r

theorem storeHeaders_eq (r : Request) (hs : List Header) :
    storeHeaders r hs =
      { r with headers := fun key =>
          (((hs.filter (·.key = key)).getLast?).map (strip ·.value)).or (r.headers key) } := by
  unfold storeHeaders
  induction hs using List.reverseRecOn with
  | nil => simp
  | append_singleton hs h ih =>
      rw [List.foldl_append, ih, List.foldl_cons, List.foldl_nil, Request.setHeader]
      congr 1
      funext key
      by_cases hkey : h.key = key
      · subst hkey
        simp [List.filter_append]
      · simp [List.filter_append, hkey, Function.update_of_ne (Ne.symm hkey)]

theorem line_header {ctx : Context} (hst : ctx.state = .kExpectHeaders) (h : Header) :
    ctx.line h.bytes =
      .ok (some { ctx with request := ctx.request.setHeader h.key (strip h.value) }) := by
  simp only [Context.line, hst, Header.bytes, find_byte h.key_free, List.take_left, drop_left_cons,
    addHeader_eq _ _ h.short]

theorem exists_header {ctx ctx' : Context} {text : List Byte} (hst : ctx.state = .kExpectHeaders)
    (hfree : Free text) (hlen : text.length < 2 ^ 31) (h : ctx.line text = .ok (some ctx')) :
    ∃ hd : Header, text = hd.bytes ∧
      ctx' = { ctx with request := ctx.request.setHeader hd.key (strip hd.value) } := by
  obtain ⟨sep, hsep⟩ := exists_sep hst h (by simp)
  obtain ⟨key, value, rfl, hkey, -⟩ := exists_byte hsep
  have hshort : value.length < 2 ^ 31 := by
    simp only [List.length_append, List.length_cons] at hlen
    omega
  have hline := line_header hst ⟨key, value, hkey, hfree, hshort⟩
  exact ⟨⟨key, value, hkey, hfree, hshort⟩, rfl,
    Option.some.inj (Except.ok.inj (h.symm.trans hline))⟩

/-! ### Requests -/

theorem parsed_headers {ctx : Context} (hst : ctx.state = .kExpectHeaders) (hs : List Header) :
    Parsed ctx (hs.flatMap (fun h => h.bytes ++ CRLF) ++ CRLF) true
      ⟨.kGotAll, storeHeaders ctx.request hs⟩ [] := by
  induction hs generalizing ctx with
  | nil =>
      obtain ⟨state, request⟩ := ctx
      obtain rfl : state = .kExpectHeaders := hst
      exact .gotAll rfl
  | cons hd hs ih =>
      rw [List.flatMap_cons, List.append_assoc]
      exact .line (Or.inr hst) hd.free (line_header hst hd) (ih hst)

theorem exists_headers {ctx ctx' : Context} {xs ys : List Byte} (hst : ctx.state = .kExpectHeaders)
    (h : Parsed ctx xs true ctx' ys) (hall : ctx'.state = .kGotAll) (hlen : xs.length < 2 ^ 31) :
    ∃ hs : List Header, xs = hs.flatMap (fun h => h.bytes ++ CRLF) ++ CRLF ∧ ys = [] ∧
      ctx' = ⟨.kGotAll, storeHeaders ctx.request hs⟩ := by
  generalize htrue : true = ok at h
  induction h with
  | waits => cases hst.symm.trans hall
  | gotAll => exact ⟨[], rfl, rfl, rfl⟩
  | refused => cases htrue
  | line _ hfree hl _ ih =>
      simp only [List.length_append] at hlen
      obtain ⟨hd, rfl, rfl⟩ := exists_header hst hfree (by omega) hl
      obtain ⟨hs, rfl, rfl, rfl⟩ := ih hst hall (by omega) htrue
      exact ⟨hd :: hs, by simp, rfl, rfl⟩

theorem line_requestLine (l : RequestLine) :
    Context.new.line l.bytes = .ok (some ⟨.kExpectHeaders, l.request⟩) := by
  have h := processRequestLine_bytes l
  simp [Context.line, Context.new, h]

theorem line_new_eq_some {ctx : Context} {text : List Byte} (hfree : Free text)
    (h : Context.new.line text = .ok (some ctx)) :
    ∃ l : RequestLine, text = l.bytes ∧ ctx = ⟨.kExpectHeaders, l.request⟩ := by
  have hok : processRequestLine .new text = ((processRequestLine .new text).1, true) := by
    cases hok : (processRequestLine .new text).2 with
    | true => exact Prod.ext rfl hok
    | false => simp [Context.line, Context.new, hok] at h
  obtain ⟨l, rfl⟩ := exists_requestLine hfree hok
  exact ⟨l, rfl, Option.some.inj (Except.ok.inj (h.symm.trans (line_requestLine l)))⟩

theorem Message.request_eq (m : Message) : storeHeaders m.line.request m.headers = m.request := by
  rw [storeHeaders_eq]
  simp [Message.request, RequestLine.request]

/-- The bytes of a message are taken in as the request it stands for. -/
theorem parsed_message (m : Message) : Parsed .new m.bytes true ⟨.kGotAll, m.request⟩ [] := by
  rw [← Message.request_eq]
  exact .line (Or.inl rfl) m.line.free (line_requestLine m.line) (parsed_headers rfl m.headers)

/-- Nothing else is taken in as a request, below 2 GiB. -/
theorem exists_message {ctx' : Context} {xs ys : List Byte} (h : Parsed .new xs true ctx' ys)
    (hall : ctx'.state = .kGotAll) (hlen : xs.length < 2 ^ 31) :
    ∃ m : Message, xs = m.bytes ∧ ctx'.request = m.request := by
  cases h with
  | waits => cases hall
  | gotAll hst => cases hst
  | line _ hfree hl hp =>
      obtain ⟨l, rfl, rfl⟩ := line_new_eq_some hfree hl
      simp only [List.length_append] at hlen
      obtain ⟨hs, rfl, -, rfl⟩ := exists_headers rfl hp hall (by omega)
      exact ⟨⟨l, hs⟩, rfl, Message.request_eq ⟨l, hs⟩⟩

/-- A part of a request is neither refused nor taken for a request. -/
theorem parsed_part {m : Message} {xs zs ys : List Byte} {ok : Bool} {ctx : Context}
    (hm : xs ++ zs = m.bytes) (hzs : zs ≠ []) (h : Parsed .new xs ok ctx ys) :
    ok = true ∧ ctx.state ≠ .kGotAll := by
  have hwhole := parsed_message m
  rw [← hm] at hwhole
  constructor
  · rw [← Bool.not_eq_false]
    rintro rfl
    obtain ⟨ctx', hp⟩ := h.append_refused zs
    cases (hp.det hwhole).1
  · intro hall
    obtain ⟨ctx', ws, hp⟩ := h.append_gotAll hall (Or.inl rfl) hzs
    cases (hp.det hwhole).1

theorem parsed_past {m : Message} {zs ys : List Byte} {ok : Bool} {ctx : Context} (hzs : zs ≠ [])
    (h : Parsed .new (m.bytes ++ zs) ok ctx ys) : ok = false := by
  have hwhole := parsed_message m
  obtain ⟨ctx', ws, hp⟩ := hwhole.append_gotAll rfl (Or.inl rfl) hzs
  exact (h.det hp).1

/-- Of a stream that begins with a message, the message itself is what can be
taken in as a request. -/
theorem gotAll_of_prefix {m : Message} {xs ws ys : List Byte} {ctx : Context}
    (hpre : xs <+: m.bytes ++ ws) (h : Parsed .new xs true ctx ys) (hall : ctx.state = .kGotAll) :
    xs = m.bytes ∧ ctx.request = m.request := by
  rcases List.prefix_or_prefix_of_prefix hpre (List.prefix_append m.bytes ws) with hle | hle
  · obtain ⟨zs, hzs⟩ := hle
    by_cases hnil : zs = []
    · subst hnil
      rw [List.append_nil] at hzs
      subst hzs
      refine ⟨rfl, ?_⟩
      rw [(h.det (parsed_message m)).2 rfl]
    · exact absurd hall (parsed_part hzs hnil h).2
  · obtain ⟨zs, rfl⟩ := hle
    by_cases hnil : zs = []
    · subst hnil
      rw [List.append_nil] at h ⊢
      refine ⟨rfl, ?_⟩
      rw [(h.det (parsed_message m)).2 rfl]
    · cases parsed_past hnil h

/-! ### Messages as code words -/

theorem byte_inj {c : Byte} {xs xs' ys ys' : List Byte} (h : c ∉ xs) (h' : c ∉ xs')
    (heq : xs ++ c :: ys = xs' ++ c :: ys') : xs = xs' ∧ ys = ys' := by
  have hlen : xs.length = xs'.length := by
    have h1 := find_byte h ys
    rw [heq, find_byte h'] at h1
    exact (Option.some.inj h1).symm
  obtain ⟨hx, hy⟩ := List.append_inj heq hlen
  exact ⟨hx, List.tail_eq_of_cons_eq hy⟩

theorem target_inj {path path' : List Byte} {query query' : Option (List Byte)}
    (h : question ∉ path) (h' : question ∉ path')
    (heq : target path query = target path' query') : path = path' ∧ query = query' := by
  cases query with
  | none =>
      cases query' with
      | none => exact ⟨heq, rfl⟩
      | some q =>
          obtain rfl : path = path' ++ question :: q := heq
          exact absurd (by simp) h
  | some q =>
      cases query' with
      | none =>
          obtain rfl : path ++ question :: q = path' := heq
          exact absurd (by simp) h'
      | some q' =>
          obtain ⟨rfl, rfl⟩ := byte_inj h h' heq
          exact ⟨rfl, rfl⟩

theorem Method.name_inj {m m' : Method} (h : m ≠ .kInvalid) (h' : m' ≠ .kInvalid)
    (heq : m.name = m'.name) : m = m' := by
  rw [← methodMapping_name h, heq, methodMapping_name h']

theorem Version.name_inj {v v' : Version} (h : v.name = v'.name) : v = v' := by
  cases v <;> cases v' <;> first | rfl | exact absurd h (by decide)

theorem RequestLine.bytes_inj {l l' : RequestLine} (h : l.bytes = l'.bytes) : l = l' := by
  obtain ⟨hm, hrest⟩ := byte_inj (space_not_mem_name l.method) (space_not_mem_name l'.method) h
  obtain ⟨ht, hv⟩ := byte_inj (space_not_mem_target.mpr ⟨l.path_free.1, l.query_free⟩)
    (space_not_mem_target.mpr ⟨l'.path_free.1, l'.query_free⟩) hrest
  obtain ⟨hp, hq⟩ := target_inj l.path_free.2 l'.path_free.2 ht
  have hm' := Method.name_inj l.method_ne l'.method_ne hm
  have hv' := Version.name_inj hv
  cases l
  cases l'
  simp_all

theorem Header.bytes_inj {h h' : Header} (heq : h.bytes = h'.bytes) : h = h' := by
  obtain ⟨hk, hv⟩ := byte_inj h.key_free h'.key_free heq
  cases h
  cases h'
  simp_all

theorem headers_inj {hs hs' : List Header}
    (h : hs.flatMap (fun h => h.bytes ++ CRLF) ++ CRLF =
      hs'.flatMap (fun h => h.bytes ++ CRLF) ++ CRLF) : hs = hs' := by
  have hblank : ∀ (hd : Header) (xs : List Byte), hd.bytes ++ CRLF ++ xs ≠ CRLF := by
    intro hd xs heq
    have hnil := (line_eq_blank hd.free heq).1
    simp at hnil
  induction hs generalizing hs' with
  | nil =>
      cases hs' with
      | nil => rfl
      | cons hd' hs' =>
          rw [List.flatMap_cons, List.append_assoc] at h
          exact absurd h.symm (hblank hd' _)
  | cons hd hs ih =>
      cases hs' with
      | nil =>
          rw [List.flatMap_cons, List.append_assoc] at h
          exact absurd h (hblank hd _)
      | cons hd' hs' =>
          simp only [List.flatMap_cons] at h
          rw [List.append_assoc, List.append_assoc (hd'.bytes ++ CRLF)] at h
          obtain ⟨hhd, hrest⟩ := line_inj hd.free hd'.free h
          rw [Header.bytes_inj hhd, ih hrest]

theorem Message.bytes_inj {m n : Message} (h : m.bytes = n.bytes) : m = n := by
  obtain ⟨hl, hh⟩ := line_inj m.line.free n.line.free h
  cases m
  cases n
  simp only [Message.mk.injEq]
  exact ⟨RequestLine.bytes_inj hl, headers_inj hh⟩

theorem message_prefixCode : PrefixCode Message.bytes where
  nonempty m h := by
    have := congrArg List.length h
    simp [Message.bytes, CRLF] at this
  eq_of_prefix {m n} h := by
    obtain ⟨zs, hzs⟩ := h
    have hp := parsed_message m
    by_cases hnil : zs = []
    · subst hnil
      exact Message.bytes_inj (by rw [← hzs, List.append_nil])
    · exact absurd rfl (parsed_part hzs hnil hp).2

end Http

end Netpoll
