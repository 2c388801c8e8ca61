import Mathlib.Tactic.Ring
import Netpoll.BufferReach

/-!
# Integers through a `MessageBuffer`

The typed accessors as the machine executes them: an integer has a
representation in memory that depends on the byte order of the host,
`htons` and `htonl` are the standard conversions, and `hton64` is the
hand-written one of `util/funcs.h` with its run-time test. Whatever the
host, what reaches the buffer is the big-endian encoding
(`NetInt.onHost_eq`), and what is read from it is its value
(`IntWidth.ofHost_eq`).

The round trip is then a statement about byte sequences: any list of
integers of mixed widths, pushed to the back of an empty buffer in order
or to the front of any content in reverse order, is read back in order,
and the content behind it is left as it was.
-/

namespace Netpoll

open MessageBuffer

/-! ## Big-endian encodings -/

theorem netBytes_succ (w v : Nat) :
    netBytes (w + 1) v = UInt8.ofNat (v / 256 ^ w) :: netBytes w v := by
  simp only [netBytes, List.range_succ_eq_map, List.map_cons, List.map_map]
  congr 1
  apply List.map_congr_left
  intro k _
  simp only [Function.comp]
  congr 3
  omega

theorem netValue_foldl (xs : List Byte) (v : Nat) :
    xs.foldl (fun v x => 256 * v + x.toNat) v = v * 256 ^ xs.length + netValue xs := by
  induction xs generalizing v with
  | nil => simp [netValue]
  | cons x xs ih =>
      have hx : netValue (x :: xs) = (256 * 0 + x.toNat) * 256 ^ xs.length + netValue xs := ih _
      rw [List.foldl_cons, ih, hx, List.length_cons]
      ring

theorem netValue_cons (x : Byte) (xs : List Byte) :
    netValue (x :: xs) = x.toNat * 256 ^ xs.length + netValue xs := by
  rw [netValue, List.foldl_cons, netValue_foldl, Nat.mul_zero, Nat.zero_add]

theorem netValue_netBytes (w v : Nat) : netValue (netBytes w v) = v % 256 ^ w := by
  induction w with
  | zero => simp [netBytes, netValue, Nat.mod_one]
  | succ w ih =>
      have hbyte : (UInt8.ofNat (v / 256 ^ w)).toNat = v / 256 ^ w % 256 := UInt8.toNat_ofNat'
      rw [netBytes_succ, netValue_cons, netBytes_length, ih, hbyte, Nat.pow_succ, Nat.mod_mul]
      ring

theorem netValue_lt (xs : List Byte) : netValue xs < 256 ^ xs.length := by
  induction xs with
  | nil => decide
  | cons x xs ih =>
      have hx : x.toNat < 256 := x.toNat_lt
      have hmul : x.toNat * 256 ^ xs.length ≤ 255 * 256 ^ xs.length :=
        Nat.mul_le_mul_right _ (by omega)
      rw [netValue_cons, List.length_cons, Nat.pow_succ]
      omega

theorem netValue_inj {xs ys : List Byte} (hlen : xs.length = ys.length)
    (h : netValue xs = netValue ys) : xs = ys := by
  induction xs generalizing ys with
  | nil => exact (List.length_eq_zero_iff.mp hlen.symm).symm
  | cons x xs ih =>
      cases ys with
      | nil => cases hlen
      | cons y ys =>
          have hlen := Nat.succ.inj hlen
          have hpos : 0 < 256 ^ xs.length := Nat.pow_pos (by decide)
          have hx := netValue_lt xs
          have hy := netValue_lt ys
          rw [← hlen] at hy
          rw [netValue_cons, netValue_cons, ← hlen] at h
          have hhead : x.toNat = y.toNat := by
            have hdiv := congrArg (· / 256 ^ xs.length) h
            simp only [Nat.add_comm _ (netValue _), Nat.add_mul_div_right _ _ hpos,
              Nat.div_eq_of_lt hx, Nat.div_eq_of_lt hy, Nat.zero_add] at hdiv
            exact hdiv
          rw [UInt8.toNat_inj.mp hhead, ih hlen (by rw [hhead] at h; omega)]

theorem netBytes_netValue (xs : List Byte) : netBytes xs.length (netValue xs) = xs := by
  refine netValue_inj (netBytes_length _ _) ?_
  rw [netValue_netBytes, Nat.mod_eq_of_lt (netValue_lt xs)]

/-! ## The host -/

inductive ByteOrder where
  | little
  | big
deriving Repr, DecidableEq

namespace ByteOrder

/-- The bytes of an unsigned integer of `w` bytes in memory. -/
def repr (o : ByteOrder) (w v : Nat) : List Byte :=
  match o with
  | .little => (netBytes w v).reverse
  | .big => netBytes w v

/-- The unsigned integer that bytes in memory stand for. -/
def value (o : ByteOrder) (xs : List Byte) : Nat :=
  match o with
  | .little => netValue xs.reverse
  | .big => netValue xs

variable (o : ByteOrder)

theorem repr_value {w : Nat} {xs : List Byte} (h : xs.length = w) : o.repr w (o.value xs) = xs := by
  subst h
  cases o with
  | little =>
      have hrev := netBytes_netValue xs.reverse
      rw [List.length_reverse] at hrev
      rw [repr, value, hrev, List.reverse_reverse]
  | big => exact netBytes_netValue xs

theorem value_lt {w : Nat} {xs : List Byte} (h : xs.length = w) : o.value xs < 256 ^ w := by
  subst h
  cases o with
  | little =>
      have hrev := netValue_lt xs.reverse
      rw [List.length_reverse] at hrev
      exact hrev
  | big => exact netValue_lt xs

theorem repr_length (w v : Nat) : (o.repr w v).length = w := by
  cases o with
  | little => rw [repr, List.length_reverse, netBytes_length]
  | big => exact netBytes_length w v

/-- `htons`: the integer whose memory is the network order of `n`. -/
def htons (n : UInt16) : UInt16 := UInt16.ofNat (o.value (netBytes 2 n.toNat))

def htonl (n : UInt32) : UInt32 := UInt32.ofNat (o.value (netBytes 4 n.toNat))

/-- `ntohs`: the integer whose network order is the memory of `n`. -/
def ntohs (n : UInt16) : UInt16 := UInt16.ofNat (netValue (o.repr 2 n.toNat))

def ntohl (n : UInt32) : UInt32 := UInt32.ofNat (netValue (o.repr 4 n.toNat))

/-- `hton64`: `sig` is the first byte of the `int` 1; unless it is 0 the
bytes of `n` are reversed in place. -/
def hton64 (n : UInt64) : UInt64 :=
  let sig := (o.repr 4 1).headD 0
  if sig = 0 then n
  else UInt64.ofNat (o.value (o.repr 8 n.toNat).reverse)

def ntoh64 (n : UInt64) : UInt64 := o.hton64 n

theorem repr_htons (n : UInt16) : o.repr 2 (o.htons n).toNat = netBytes 2 n.toNat := by
  have hlt : o.value (netBytes 2 n.toNat) < 2 ^ 16 := o.value_lt (netBytes_length _ _)
  rw [htons, UInt16.toNat_ofNat', Nat.mod_eq_of_lt hlt, o.repr_value (netBytes_length _ _)]

theorem repr_htonl (n : UInt32) : o.repr 4 (o.htonl n).toNat = netBytes 4 n.toNat := by
  have hlt : o.value (netBytes 4 n.toNat) < 2 ^ 32 := o.value_lt (netBytes_length _ _)
  rw [htonl, UInt32.toNat_ofNat', Nat.mod_eq_of_lt hlt, o.repr_value (netBytes_length _ _)]

theorem repr_hton64 (n : UInt64) : o.repr 8 (o.hton64 n).toNat = netBytes 8 n.toNat := by
  cases o with
  | little =>
      have hlen : (repr .little 8 n.toNat).reverse.length = 8 := by
        rw [List.length_reverse, repr_length]
      have hlt : value .little (repr .little 8 n.toNat).reverse < 2 ^ 64 := value_lt .little hlen
      rw [hton64, if_neg (by decide), UInt64.toNat_ofNat', Nat.mod_eq_of_lt hlt,
        repr_value .little hlen, repr, List.reverse_reverse]
  | big => rfl

theorem ntohs_value {xs : List Byte} (h : xs.length = 2) :
    (o.ntohs (UInt16.ofNat (o.value xs))).toNat = netValue xs := by
  have hlt : o.value xs < 2 ^ 16 := o.value_lt h
  have hnet : netValue xs < 2 ^ 16 := value_lt .big h
  rw [ntohs, UInt16.toNat_ofNat', UInt16.toNat_ofNat', Nat.mod_eq_of_lt hlt, o.repr_value h,
    Nat.mod_eq_of_lt hnet]

theorem ntohl_value {xs : List Byte} (h : xs.length = 4) :
    (o.ntohl (UInt32.ofNat (o.value xs))).toNat = netValue xs := by
  have hlt : o.value xs < 2 ^ 32 := o.value_lt h
  have hnet : netValue xs < 2 ^ 32 := value_lt .big h
  rw [ntohl, UInt32.toNat_ofNat', UInt32.toNat_ofNat', Nat.mod_eq_of_lt hlt, o.repr_value h,
    Nat.mod_eq_of_lt hnet]

theorem ntoh64_value {xs : List Byte} (h : xs.length = 8) :
    (o.ntoh64 (UInt64.ofNat (o.value xs))).toNat = netValue xs := by
  have hlt : o.value xs < 2 ^ 64 := o.value_lt h
  have hnet : netValue xs < 2 ^ 64 := value_lt .big h
  have hval : (UInt64.ofNat (o.value xs)).toNat = o.value xs := by
    rw [UInt64.toNat_ofNat', Nat.mod_eq_of_lt hlt]
  cases o with
  | little =>
      rw [ntoh64, hton64, if_neg (by decide), hval, repr_value .little h, value,
        List.reverse_reverse, UInt64.toNat_ofNat', Nat.mod_eq_of_lt hnet]
  | big => exact hval

end ByteOrder

namespace NetInt

def width : NetInt → IntWidth
  | .i8 _ => .w8
  | .i16 _ => .w16
  | .i32 _ => .w32
  | .i64 _ => .w64

def value : NetInt → Nat
  | .i8 v => v.toNat
  | .i16 v => v.toNat
  | .i32 v => v.toNat
  | .i64 v => v.toNat

/-- The memory that `pushBackIntN` and `pushFrontIntN` hand on. -/
def onHost (o : ByteOrder) : NetInt → List Byte
  | .i8 v => o.repr 1 v.toNat
  | .i16 v => o.repr 2 (o.htons v).toNat
  | .i32 v => o.repr 4 (o.htonl v).toNat
  | .i64 v => o.repr 8 (o.hton64 v).toNat

def pushBackOn (o : ByteOrder) (b : MessageBuffer) (v : NetInt) : Except Fault MessageBuffer :=
  b.pushBack (v.onHost o)

def pushFrontOn (o : ByteOrder) (b : MessageBuffer) (v : NetInt) : Except Fault MessageBuffer :=
  b.pushFront (v.onHost o)

theorem onHost_eq (o : ByteOrder) (v : NetInt) : v.onHost o = v.bytes := by
  cases v with
  | i8 v => cases o <;> rfl
  | i16 v => exact o.repr_htons v
  | i32 v => exact o.repr_htonl v
  | i64 v => exact o.repr_hton64 v

theorem bytes_eq (v : NetInt) : v.bytes = netBytes v.width.bytes v.value := by
  cases v <;> rfl

theorem bytes_length (v : NetInt) : v.bytes.length = v.width.bytes := by
  rw [bytes_eq, netBytes_length]

theorem bytes_ne_nil (v : NetInt) : v.bytes ≠ [] := by
  cases v <;> exact List.cons_ne_nil _ _

theorem value_lt (v : NetInt) : v.value < 256 ^ v.width.bytes := by
  cases v with
  | i8 v => exact v.toNat_lt
  | i16 v => exact v.toNat_lt
  | i32 v => exact v.toNat_lt
  | i64 v => exact v.toNat_lt

theorem netValue_bytes (v : NetInt) : netValue v.bytes = v.value := by
  rw [bytes_eq, netValue_netBytes, Nat.mod_eq_of_lt v.value_lt]

end NetInt

namespace IntWidth

/-- What `peekIntN` makes of the memory it has copied out. -/
def ofHost (o : ByteOrder) (xs : List Byte) : IntWidth → Nat
  | .w8 => o.value xs
  | .w16 => (o.ntohs (UInt16.ofNat (o.value xs))).toNat
  | .w32 => (o.ntohl (UInt32.ofNat (o.value xs))).toNat
  | .w64 => (o.ntoh64 (UInt64.ofNat (o.value xs))).toNat

/-- `peekIntN()`. -/
def peekOn (o : ByteOrder) (b : MessageBuffer) (w : IntWidth) : Except Fault Nat := do
  if b.readableBytes ≥ w.bytes then
    let xs ← b.load b.head w.bytes
    return w.ofHost o xs
  else .error .assertion

/-- `readIntN()`. -/
def readOn (o : ByteOrder) (b : MessageBuffer) (w : IntWidth) :
    Except Fault (Nat × MessageBuffer) := do
  let ret ← w.peekOn o b
  return (ret, b.retrieve w.bytes)

theorem ofHost_eq (o : ByteOrder) (w : IntWidth) {xs : List Byte} (h : xs.length = w.bytes) :
    w.ofHost o xs = netValue xs := by
  cases w with
  | w8 =>
      obtain ⟨x, rfl⟩ := List.length_eq_one_iff.mp h
      cases o <;> rfl
  | w16 => exact o.ntohs_value h
  | w32 => exact o.ntohl_value h
  | w64 => exact o.ntoh64_value h

end IntWidth

/-! ## Frames -/

/-- Push a list of integers to the back, in order. -/
def pushBackAll (o : ByteOrder) (vs : List NetInt) (b : MessageBuffer) :
    Except Fault MessageBuffer :=
  vs.foldlM (NetInt.pushBackOn o) b

/-- Push a list of integers to the front, the last one first. -/
def pushFrontAll (o : ByteOrder) (vs : List NetInt) (b : MessageBuffer) :
    Except Fault MessageBuffer :=
  vs.foldrM (fun v b => NetInt.pushFrontOn o b v) b

/-- Read integers of the given widths, each one with a peek before it. -/
def readAllInts (o : ByteOrder) : List IntWidth → MessageBuffer →
    Except Fault (List (Nat × Nat) × MessageBuffer)
  | [], b => .ok ([], b)
  | w :: ws, b => do
      let peeked ← w.peekOn o b
      let (v, b) ← w.readOn o b
      let (vs, b) ← readAllInts o ws b
      return ((peeked, v) :: vs, b)

/-- The encodings of a list of integers. -/
def frame (vs : List NetInt) : List Byte := vs.flatMap NetInt.bytes

variable {b : MessageBuffer} {o : ByteOrder}

theorem NetInt.bytes_length_le (v : NetInt) : v.bytes.length ≤ kAllocLimit :=
  Nat.le_trans (BufStore.netInt_bytes_length v) (by decide)

theorem pushBackOn_spec (h : Rep b) (v : NetInt) :
    Post (TooLong (b.bytes.length + v.bytes.length)) (Becomes b (b.bytes ++ v.bytes))
      (NetInt.pushBackOn o b v) := by
  rw [NetInt.pushBackOn, NetInt.onHost_eq]
  exact h.pushBack_tooLong v.bytes_length_le

theorem pushFrontOn_spec (h : Rep b) (v : NetInt) :
    Post (TooLong (v.bytes.length + b.bytes.length)) (Becomes b (v.bytes ++ b.bytes))
      (NetInt.pushFrontOn o b v) := by
  rw [NetInt.pushFrontOn, NetInt.onHost_eq]
  exact h.pushFront_tooLong v.bytes_length_le

theorem frame_cons (v : NetInt) (vs : List NetInt) : frame (v :: vs) = v.bytes ++ frame vs :=
  List.flatMap_cons

theorem pushBackAll_spec (h : Rep b) (vs : List NetInt) :
    Post (TooLong (b.bytes.length + (frame vs).length)) (Becomes b (b.bytes ++ frame vs))
      (pushBackAll o vs b) := by
  induction vs generalizing b with
  | nil =>
      simp only [pushBackAll, List.foldlM_nil, frame, List.flatMap_nil, List.append_nil]
      exact h.becomes_self
  | cons v vs ih =>
      rw [pushBackAll, List.foldlM_cons, frame_cons, List.length_append]
      refine Post.bind ((pushBackOn_spec h v).mono (fun _ hf => hf.mono (by omega)) fun _ hb => hb)
        fun b' hb' => ?_
      have hlen : b'.bytes.length = b.bytes.length + v.bytes.length := by
        rw [hb'.bytes_eq, List.length_append]
      refine (ih hb'.rep).mono (fun _ hf => hf.mono (by omega)) fun b'' hb'' => ?_
      rw [hb'.bytes_eq, List.append_assoc] at hb''
      exact hb'.trans hb''

theorem pushFrontAll_spec (h : Rep b) (vs : List NetInt) :
    Post (TooLong ((frame vs).length + b.bytes.length)) (Becomes b (frame vs ++ b.bytes))
      (pushFrontAll o vs b) := by
  induction vs with
  | nil => exact h.becomes_self
  | cons v vs ih =>
      rw [pushFrontAll, List.foldrM_cons, frame_cons, List.length_append]
      refine Post.bind (ih.mono (fun _ hf => hf.mono (by omega)) fun _ hb => hb) fun b' hb' => ?_
      have hlen : b'.bytes.length = (frame vs).length + b.bytes.length := by
        rw [hb'.bytes_eq, List.length_append]
      refine (pushFrontOn_spec hb'.rep v).mono (fun _ hf => hf.mono (by omega)) fun b'' hb'' => ?_
      rw [hb'.bytes_eq, ← List.append_assoc] at hb''
      exact hb'.trans hb''

theorem peekOn_spec (h : Rep b) {v : NetInt} {rest : List Byte} (hb : b.bytes = v.bytes ++ rest) :
    v.width.peekOn o b = .ok v.value := by
  have hlen := h.bytes_length
  have hv := v.bytes_length
  rw [hb, List.length_append] at hlen
  have hload := h.load_eq (show v.width.bytes ≤ b.readableBytes by omega)
  rw [hb, List.take_append_of_le_length (by omega), List.take_of_length_le (by omega)] at hload
  rw [IntWidth.peekOn, if_pos (by omega), hload]
  exact congrArg Except.ok ((IntWidth.ofHost_eq o _ hv).trans v.netValue_bytes)

/-- Reading the integer at the front leaves the bytes behind it; only
when nothing is behind it can the storage shrink. -/
theorem retrieve_frame (h : Rep b) {v : NetInt} {rest : List Byte}
    (hb : b.bytes = v.bytes ++ rest) :
    (b.retrieve v.width.bytes).bytes = rest ∧ (rest ≠ [] → Rep (b.retrieve v.width.bytes)) := by
  have hlen := h.bytes_length
  have hv := v.bytes_length
  rw [hb, List.length_append] at hlen
  by_cases hrest : rest = []
  · subst hrest
    refine ⟨?_, fun hne => absurd rfl hne⟩
    rw [MessageBuffer.retrieve, if_pos (by simp only [List.length_nil] at hlen; omega), bytes,
      retrieveAll_head, retrieveAll_tail, slice_self]
  · have hpos := List.length_pos_iff.mpr hrest
    have hbe := h.retrieve v.width.bytes fun hall => absurd hall (by omega)
    rw [hb, ← hv, List.drop_left] at hbe
    rw [← hv]
    exact ⟨hbe.bytes_eq, fun _ => hbe.rep⟩

theorem frame_eq_nil {vs : List NetInt} (h : frame vs = []) : vs = [] := by
  cases vs with
  | nil => rfl
  | cons v vs =>
      rw [frame_cons] at h
      exact absurd (List.append_eq_nil_iff.mp h).1 v.bytes_ne_nil

theorem readAllInts_spec (h : Rep b) {vs : List NetInt} {rest : List Byte}
    (hb : b.bytes = frame vs ++ rest) :
    ∃ b', readAllInts o (vs.map NetInt.width) b = .ok (vs.map fun v => (v.value, v.value), b') ∧
      b'.bytes = rest := by
  induction vs generalizing b with
  | nil => exact ⟨b, rfl, hb⟩
  | cons v vs ih =>
      rw [frame_cons, List.append_assoc] at hb
      have hpeek : v.width.peekOn o b = .ok v.value := peekOn_spec h hb
      obtain ⟨hbytes, hrep⟩ := retrieve_frame h hb
      have hread : v.width.readOn o b = .ok (v.value, b.retrieve v.width.bytes) := by
        rw [IntWidth.readOn, hpeek]
        rfl
      rw [List.map_cons, readAllInts, hpeek, ok_bind, hread, ok_bind]
      by_cases hmore : frame vs ++ rest = []
      · -- the last integer of an otherwise empty buffer
        obtain ⟨hvs, rfl⟩ := List.append_eq_nil_iff.mp hmore
        obtain rfl := frame_eq_nil hvs
        exact ⟨_, rfl, hbytes⟩
      · obtain ⟨b', hall, hb'⟩ := ih (hrep hmore) hbytes
        refine ⟨b', ?_, hb'⟩
        simp only [hall, ok_bind]
        rfl

/-- **Integer framing round trip.** On every reachable buffer, on a host of
either byte order and for every list of integers of mixed widths: pushed
to the back of an empty buffer in order, or to the front of any content
in reverse order, the bytes in between are the big-endian encodings, and
reading the same widths returns the values, each one agreeing with the
peek before it, and leaves the content. The pushes fail only if the
allocator refuses, and not before what is pushed and the content are near
its limit. -/
theorem int_framing_round_trip (h : Reached b) (o : ByteOrder) (vs : List NetInt) :
    (b.bytes = [] →
      Post (TooLong (frame vs).length)
        (fun b' => b'.bytes = frame vs ∧
          ∃ b'', readAllInts o (vs.map NetInt.width) b' =
            .ok (vs.map fun v => (v.value, v.value), b'') ∧ b''.bytes = [])
        (pushBackAll o vs b)) ∧
      Post (TooLong ((frame vs).length + b.bytes.length))
        (fun b' => b'.bytes = frame vs ++ b.bytes ∧
          ∃ b'', readAllInts o (vs.map NetInt.width) b' =
            .ok (vs.map fun v => (v.value, v.value), b'') ∧ b''.bytes = b.bytes)
        (pushFrontAll o vs b) := by
  constructor
  · intro hnil
    have hpush := pushBackAll_spec (o := o) h.rep vs
    rw [hnil, List.length_nil, Nat.zero_add] at hpush
    refine hpush.mono (fun _ hf => hf) fun b' hb' => ?_
    have hbytes : b'.bytes = frame vs := hb'.bytes_eq
    exact ⟨hbytes, readAllInts_spec hb'.rep (by rw [hbytes, List.append_nil])⟩
  · refine (pushFrontAll_spec h.rep vs).mono (fun _ hf => hf) fun b' hb' => ?_
    exact ⟨hb'.bytes_eq, readAllInts_spec hb'.rep hb'.bytes_eq⟩

theorem Post.returns {Q : MessageBuffer → Prop} {x : Except Fault MessageBuffer} {n : Nat}
    (h : Post (TooLong n) Q x) (hn : 5 * n + 4 * kBufferOffset ≤ kAllocLimit) :
    ∃ b, x = .ok b ∧ Q b :=
  (h.mono (fun _ hf => absurd hf.2 (Nat.not_lt.mpr hn)) fun _ hq => hq).exists_ok

/-- A 16-bit and a 64-bit integer in front of eight bytes, on a
little-endian host. -/
theorem int_framing_front :
    ∃ b' b'', pushFrontAll .little [.i16 258, .i64 5] fullEight = .ok b' ∧
      b'.bytes = frame [.i16 258, .i64 5] ++ fullEight.bytes ∧
      readAllInts .little [.w16, .w64] b' = .ok ([(258, 258), (5, 5)], b'') ∧
      b''.bytes = fullEight.bytes := by
  have hpost := (int_framing_round_trip reached_fullEight .little [.i16 258, .i64 5]).2
  obtain ⟨b', hok, hbytes, b'', hread, hrest⟩ := hpost.returns (by decide)
  exact ⟨b', b'', hok, hbytes, hread, hrest⟩

end Netpoll
