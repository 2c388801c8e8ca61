import Netpoll.BufferReach

/-!
# How the storage of a `MessageBuffer` grows

The storage is replaced by a larger one in two places, and `alloc` is
the size that an operation asks the allocator for. The replacement is a
`MessageBuffer` of its own whose members are swapped in, `m_initCap`
included; so the test in `retrieveAll`, which compares the storage with
`m_initCap`, always compares it with the storage itself and the size
never goes down again (`OneBuffer.step_size`).

Emptying a buffer built with length `len` therefore leaves at most
`max(2 * len, len + 8)` bytes of storage exactly when no operation so
far has gone beyond that.
-/

namespace Netpoll

open MessageBuffer

namespace MessageBuffer

/-- The storage size that `ensureWritableBytes(len)` asks for, if it does. -/
def ensureAlloc (b : MessageBuffer) (len : Nat) : Option Nat :=
  if b.writableBytes ≥ len then none
  else if addSz b.head b.writableBytes ≥ addSz len kBufferOffset then none
  else some (addSz (b.grownLen len) kBufferOffset)

/-- The storage size that a `pushFront` of `n` bytes asks for. -/
def pushFrontAlloc (b : MessageBuffer) (n : Nat) : Option Nat :=
  if b.head ≥ n then none
  else if n ≤ b.writableBytes then none
  else
    let newLen := if addSz n b.readableBytes < b.initCap then b.initCap else addSz n b.readableBytes
    some (addSz newLen kBufferOffset)

/-- The storage size that `readFd` asks for, when it pushes the overflow. -/
def readFdAlloc (b : MessageBuffer) (offer : Option (List Byte)) : Option Nat :=
  match b.received offer with
  | none => none
  | some data =>
    if data.length ≤ b.writableBytes then none
    else { b with tail := b.buffer.length }.ensureAlloc (data.length - iovLen b.writableBytes)

/-- The storage size that an operation on `b` asks the allocator for. -/
def alloc (b : MessageBuffer) : BufOp → Option Nat
  | .pushBack _ v => b.ensureAlloc v.bytes.length
  | .pushFront _ v => b.pushFrontAlloc v.bytes.length
  | .readFd _ offer => b.readFdAlloc offer
  | .ensureWritableBytes _ n => b.ensureAlloc n.toNat
  | _ => none

/-- The storage size after a request that the allocator may refuse. -/
def sizeAfter (b : MessageBuffer) : Option Nat → Nat
  | some m => if m ≤ kAllocLimit then m else b.buffer.length
  | none => b.buffer.length

/-- The result of an operation has the storage that the request gives; an
operation that throws has been refused. -/
def Resized (b : MessageBuffer) (a : Option Nat) : Except Fault MessageBuffer → Prop
  | .ok b' => b'.buffer.length = b.sizeAfter a
  | .error _ => b.sizeAfter a = b.buffer.length

end MessageBuffer

variable {b b' : MessageBuffer} {len : Nat} {xs : List Byte}

/-! ## The size after each operation -/

theorem store_size {p : Nat} (h : b.store p xs = .ok b') :
    b'.buffer.length = b.buffer.length := by
  rw [store] at h
  split at h
  · rename_i hst
    obtain rfl := Except.ok.inj h
    simp only [splice, List.length_append, List.length_take, List.length_drop]
    omega
  · cases h

theorem move_size {src n dst : Nat} (h : b.move src n dst = .ok b') :
    b'.buffer.length = b.buffer.length := by
  rw [move] at h
  cases hl : b.load src n with
  | error f => rw [hl] at h; cases h
  | ok ys =>
      rw [hl, ok_bind] at h
      exact store_size h

theorem MessageBuffer.Rep.ensure_resized (h : Rep b) (hfit : EnsureFits b len) :
    Resized b (b.ensureAlloc len) (b.ensureWritableBytes len) := by
  rw [MessageBuffer.ensureWritableBytes, ensureWritable, ensureAlloc]
  by_cases hle : len ≤ b.writableBytes
  · rw [if_pos hle, if_pos hle]
    exact rfl
  rw [if_neg hle, if_neg hle]
  have hfit := hfit.resolve_left hle
  by_cases hc : addSz len kBufferOffset ≤ addSz b.head b.writableBytes
  · rw [if_pos hc] at hfit
    rw [if_pos hc, if_pos hc]
    obtain ⟨b', hmv, -⟩ := h.compact len hc hfit
    have hsz := move_size hmv
    rw [hmv]
    exact hsz
  · rw [if_neg hc] at hfit
    rw [if_neg hc, if_neg hc]
    have hfresh := new_fresh hfit
    cases hnew : MessageBuffer.new (b.grownLen len) with
    | error f =>
        have hlim := (hfresh.of_error hnew).2
        rw [addSz_eq hfit]
        exact if_neg (by omega)
    | ok nb =>
        have hnb := hfresh.of_ok hnew
        have hroom := h.replacement_room len hnew
        have hx : b.bytes.length ≤ nb.writableBytes := by rw [h.bytes_length]; exact hroom
        have hlim := hnb.rep.size_le
        rw [hnb.size_eq] at hlim
        rw [ok_bind, ensureWritable_of_le hroom, ok_bind, hnb.rep.append_eq h hroom, addSz_eq hfit]
        exact (hnb.rep.pushed_size hx).trans (hnb.size_eq.trans (if_pos hlim).symm)

theorem MessageBuffer.Rep.pushBack_resized (h : Rep b) (hx : xs.length ≤ kAllocLimit) :
    Resized b (b.ensureAlloc xs.length) (b.pushBack xs) := by
  have hres := h.ensure_resized (h.ensureFits hx)
  have hspec := h.pushBack hx
  rw [MessageBuffer.pushBack] at hspec ⊢
  cases he : b.ensureWritableBytes xs.length with
  | error f =>
      rw [he] at hres
      exact hres
  | ok b1 =>
      rw [he] at hres hspec
      rw [ok_bind] at hspec ⊢
      cases hst : b1.store b1.tail xs with
      | error f =>
          rw [hst] at hspec
          have hfault : f = .outOfBounds := by
            rw [store] at hst
            split at hst
            · cases hst
            · exact (Except.error.inj hst).symm
          subst hfault
          exact absurd (show Fault.outOfBounds = .badAlloc from hspec.1) (by decide)
      | ok b2 =>
          exact (store_size hst).trans hres

theorem MessageBuffer.Rep.pushFront_resized (h : Rep b) (hx : xs.length ≤ kAllocLimit) :
    Resized b (b.pushFrontAlloc xs.length) (b.pushFront xs) := by
  have hw := h.writable_eq
  have hr := h.readable_eq
  have hlen := h.bytes_length
  have hc := h.cap_le
  have hl := limit_lt
  have hoff := offset_le
  obtain ⟨h1, h2, h3, h4⟩ := id h
  rw [MessageBuffer.pushFront, pushFrontAlloc]
  by_cases hres : b.head ≥ xs.length
  · rw [if_pos hres, if_pos hres, subSz_eq hres (by omega), store_eq (by omega), ok_bind]
    exact splice_length (by omega)
  rw [if_neg hres, if_neg hres]
  by_cases hshift : xs.length ≤ b.writableBytes
  · have hst : b.head + xs.length + b.bytes.length ≤ b.buffer.length := by omega
    rw [if_pos hshift, if_pos hshift, move, h.load_all, ok_bind, store_eq hst, ok_bind,
      store_eq (show b.head + xs.length ≤ (splice b.buffer (b.head + xs.length) b.bytes).length by
        rw [splice_length hst]; omega), ok_bind]
    exact (splice_length (p := b.head) (by rw [splice_length hst]; omega)).trans (splice_length hst)
  · rw [if_neg hshift, if_neg hshift,
      addSz_eq (show xs.length + b.readableBytes < sizeMod by omega)]
    generalize hnl : (if xs.length + b.readableBytes < b.initCap then b.initCap
      else xs.length + b.readableBytes) = newLen
    have hneed : xs.length + b.readableBytes ≤ newLen ∧ newLen ≤ kAllocLimit + kAllocLimit := by
      split at hnl <;> omega
    have hfit : newLen + kBufferOffset < sizeMod := by omega
    have hfresh := new_fresh hfit
    simp only [addSz_eq hfit]
    cases hnew : MessageBuffer.new newLen with
    | error f =>
        have hlim := (hfresh.of_error hnew).2
        exact if_neg (by omega)
    | ok nb =>
        have hnb := hfresh.of_ok hnew
        have hnw := hnb.writable_eq
        have hlim := hnb.rep.size_le
        rw [hnb.size_eq] at hlim
        have hx1 : xs.length ≤ nb.writableBytes := by omega
        have hrep := hnb.rep.pushed hx1
        have hsz := hnb.rep.pushed_size hx1
        have hx2 : b.readableBytes ≤ (nb.pushed xs).writableBytes := by
          rw [hrep.writable_eq, hsz, hnb.size_eq]
          simp only [MessageBuffer.pushed, hnb.tail_eq]
          omega
        rw [ok_bind, hnb.rep.pushBack_room hx1, ok_bind, hrep.pushBackBuffer_room h hx2]
        have hx3 : b.bytes.length ≤ (nb.pushed xs).writableBytes := by omega
        exact (hrep.pushed_size hx3).trans (hsz.trans (hnb.size_eq.trans (if_pos hlim).symm))

theorem ensureAlloc_congr (hhd : b.head = b'.head) (htl : b.tail = b'.tail)
    (hsz : b.buffer.length = b'.buffer.length) : b.ensureAlloc len = b'.ensureAlloc len := by
  have hw : b.writableBytes = b'.writableBytes := by rw [writableBytes, hsz, htl, writableBytes]
  have hr : b.readableBytes = b'.readableBytes := by rw [readableBytes, hhd, htl, readableBytes]
  have hgl : b.grownLen len = b'.grownLen len := by
    rw [grownLen, hr, hsz, grownLen]
  rw [ensureAlloc, ensureAlloc, hw, hhd, hgl]

/-- `readFd` fills the storage first; the overflow is an ordinary push. -/
theorem MessageBuffer.Rep.readFd_resized (h : Rep b) (offer : Option (List Byte)) :
    (b.readFd offer).1.buffer.length = b.sizeAfter (b.readFdAlloc offer) := by
  unfold MessageBuffer.readFd readFdAlloc
  cases hrec : b.received offer with
  | none => rfl
  | some data =>
      obtain ⟨hlen, htot⟩ := received_length hrec
      unfold iovTotal at hlen htot
      by_cases hle : data.length ≤ b.writableBytes
      · simp only [if_pos hle]
        cases hst : b.store b.tail (data.take (iovLen b.writableBytes)) with
        | error f => rfl
        | ok b1 =>
            have hsz := store_size hst
            exact hsz
      · have hw : b.writableBytes < kExtBuffer := by
          by_contra hw
          rw [if_neg hw] at hlen htot
          have := iovLen_le htot
          omega
        rw [if_pos hw, iovLen_eq hw] at hlen
        simp only [if_neg hle, iovLen_eq hw]
        obtain ⟨hst, hpu⟩ := h.readFd_overflow (Nat.lt_of_not_le hle)
        have hx : (data.take b.writableBytes).length ≤ b.writableBytes := by
          rw [List.length_take]; omega
        have hrep := h.pushed hx
        have hsz := h.pushed_size hx
        have hk := extBuffer_le
        have hdrop : (data.drop b.writableBytes).length ≤ kAllocLimit := by
          rw [List.length_drop]; omega
        have hres := hrep.pushBack_resized hdrop
        have halloc : (b.pushed (data.take b.writableBytes)).ensureAlloc
            (data.drop b.writableBytes).length =
            { b with tail := b.buffer.length }.ensureAlloc (data.length - b.writableBytes) := by
          rw [List.length_drop]
          refine ensureAlloc_congr rfl ?_ hsz
          rw [← hsz, hpu]
        have hafter : ∀ a, (b.pushed (data.take b.writableBytes)).sizeAfter a = b.sizeAfter a := by
          intro a
          cases a <;> simp only [sizeAfter, hsz]
        rw [halloc] at hres
        simp only [hst]
        rw [hpu] at hres hsz hafter
        split
        · rename_i f hf
          rw [hf] at hres
          exact (hres.symm.trans (hafter _))
        · rename_i b2 hb2
          rw [hb2] at hres
          exact hres.trans (hafter _)

/-! ## One buffer and its operations -/

/-- The operations that fill and drain the first buffer of a program. -/
def BufOp.OnFirst : BufOp → Prop
  | .pushBack i _ | .pushFront i _ | .readFd i _ | .ensureWritableBytes i _ | .retrieve i _
  | .read i _ => i = 0
  | _ => False

namespace OneBuffer

/-- The allocations of an operation that succeed stay within `bound`. -/
def StaysWithin (bound : Nat) (s : BufStore) (op : BufOp) : Prop :=
  ∀ b m, s.bufs[0]? = some b → b.alloc op = some m → m ≤ bound ∨ kAllocLimit < m

variable {s s' : BufStore} {op : BufOp}

theorem set_size {r : Except Fault MessageBuffer} {a : Option Nat} (hs : s.bufs = [b])
    (hr : Resized b a r) :
    ∃ b', (s.settle r fun b' => ⟨s.bufs.set 0 b', .returned []⟩).bufs = [b'] ∧
      b'.buffer.length = b.sizeAfter a := by
  cases r with
  | error f => exact ⟨b, hs, hr.symm⟩
  | ok b' => exact ⟨b', by simp only [BufStore.settle, hs, List.set_cons_zero], hr⟩

/-- The step lemma: the storage is the one asked for, and otherwise the
old one. In particular `retrieveAll` never shrinks it. -/
theorem step_size (hs : s.bufs = [b]) (h : Sized b) (hop : op.OnFirst) (hg : BufGuard s op)
    (hstep : BufStep s op s') :
    ∃ b', s'.bufs = [b'] ∧ b'.buffer.length = b.sizeAfter (b.alloc op) := by
  have hget : s.bufs[0]? = some b := by rw [hs]; rfl
  have hretr : ∀ n, (b.retrieve n).buffer.length = b.buffer.length := by
    intro n
    rw [MessageBuffer.retrieve]
    split
    · rw [h.retrieveAll_size, h.shrunkSize_eq]
    · rfl
  have hexec := hstep.2
  cases op with
  | pushBack i v =>
      obtain rfl : i = 0 := hop
      simp only [BufStore.exec, BufStore.on, hget, Option.map_some, Option.some.injEq] at hexec
      exact hexec ▸ set_size hs (h.pushBack_resized v.fits)
  | pushFront i v =>
      obtain rfl : i = 0 := hop
      simp only [BufStore.exec, BufStore.on, hget, Option.map_some, Option.some.injEq] at hexec
      exact hexec ▸ set_size hs (h.pushFront_resized v.fits)
  | ensureWritableBytes i n =>
      obtain rfl : i = 0 := hop
      simp only [BufStore.exec, BufStore.on, hget, Option.map_some, Option.some.injEq] at hexec
      exact hexec ▸ set_size hs (h.ensure_resized (hg b hget))
  | retrieve i n =>
      obtain rfl : i = 0 := hop
      simp only [BufStore.exec, BufStore.on, hget, Option.map_some, Option.some.injEq] at hexec
      exact hexec ▸ set_size hs (show Resized b none (.ok _) from hretr _)
  | read i n =>
      obtain rfl : i = 0 := hop
      obtain ⟨b1, hread, -⟩ := h.read n.toNat fun _ => h.shrunkSize_ge
      have hb1 : b1.buffer.length = b.buffer.length := by
        by_cases hall : b.readableBytes ≤ n.toNat
        · obtain ⟨-, rfl⟩ := Prod.mk.inj (Except.ok.inj (hread.symm.trans (h.read_all hall)))
          rw [h.retrieveAll_size, h.shrunkSize_eq]
        · rw [MessageBuffer.read, if_neg (by omega), h.load_eq (by omega), ok_bind] at hread
          obtain ⟨-, rfl⟩ := Prod.mk.inj (Except.ok.inj hread)
          exact hretr _
      simp only [BufStore.exec, hget, Option.map_some, Option.some.injEq, hread] at hexec
      subst hexec
      exact ⟨b1, by simp only [BufStore.settle, hs, List.set_cons_zero], hb1⟩
  | readFd i offer =>
      obtain rfl : i = 0 := hop
      have hsz := h.readFd_resized offer
      simp only [BufStore.exec, hget, Option.map_some, Option.some.injEq] at hexec
      subst hexec
      refine ⟨(b.readFd offer).1, ?_, hsz⟩
      cases hr : b.readFd offer with
      | mk b1 f => cases f <;> simp only [hs, List.set_cons_zero]
  | _ => exact hop.elim

theorem size_le_ensureAlloc (h : Rep b) {m : Nat} (hfit : EnsureFits b len)
    (hm : b.ensureAlloc len = some m) : b.buffer.length ≤ m := by
  rw [ensureAlloc] at hm
  split at hm
  · cases hm
  · rename_i hle
    split at hm
    · cases hm
    · rename_i hc
      have hfit := hfit.resolve_left hle
      rw [if_neg hc] at hfit
      obtain rfl := Option.some.inj hm
      rw [addSz_eq hfit]
      have := h.grownLen_ge len
      omega

theorem size_le_pushFrontAlloc (h : Sized b) (v : View) {m : Nat}
    (hm : b.pushFrontAlloc v.bytes.length = some m) : b.buffer.length ≤ m := by
  have hl := limit_lt
  have hoff := offset_le
  have hrl := h.readable_le
  have hv := v.fits
  have hc := h.cap_le
  have h3 := h.size_le
  have hse := h.size_eq
  rw [pushFrontAlloc] at hm
  split at hm
  · cases hm
  · split at hm
    · cases hm
    · obtain rfl := Option.some.inj hm
      rw [addSz_eq (show v.bytes.length + b.readableBytes < sizeMod by omega)]
      split <;> rw [addSz_eq (by omega)] <;> omega

theorem size_le_readFdAlloc (h : Sized b) {offer : Option (List Byte)} {m : Nat}
    (hm : b.readFdAlloc offer = some m) : b.buffer.length ≤ m := by
  have hl := limit_lt
  simp only [readFdAlloc] at hm
  cases hrec : b.received offer with
  | none => rw [hrec] at hm; cases hm
  | some data =>
      rw [hrec] at hm
      simp only at hm
      split at hm
      · cases hm
      · rename_i hle
        obtain ⟨hlen, htot⟩ := received_length hrec
        have hfull : Rep { b with tail := b.buffer.length } :=
          ⟨Nat.le_trans h.head_le h.tail_le, Nat.le_refl _, h.size_le, h.cap_le⟩
        have hk : (2 : Nat) ^ 63 < sizeMod := by decide
        have hkl : (2 : Nat) ^ 62 = kAllocLimit := rfl
        refine size_le_ensureAlloc hfull (hfull.ensureFits ?_) hm
        unfold iovTotal at hlen htot
        by_cases hw : b.writableBytes < kExtBuffer
        · rw [if_pos hw, iovLen_eq hw] at hlen
          rw [iovLen_eq hw]
          have hke := extBuffer_le
          omega
        · rw [if_neg hw] at hlen htot
          have := iovLen_le htot
          omega

theorem size_le_alloc (h : Sized b) (hs : s.bufs = [b]) (hop : op.OnFirst) (hg : BufGuard s op)
    {m : Nat} (hm : b.alloc op = some m) : b.buffer.length ≤ m := by
  have hget : s.bufs[0]? = some b := by rw [hs]; rfl
  cases op with
  | pushBack i v => exact size_le_ensureAlloc h.toRep (h.ensureFits v.fits) hm
  | ensureWritableBytes i n =>
      obtain rfl : i = 0 := hop
      exact size_le_ensureAlloc h.toRep (hg b hget) hm
  | pushFront i v => exact size_le_pushFrontAlloc h v hm
  | readFd i offer => exact size_le_readFdAlloc h hm
  | retrieve | read => cases hm
  | _ => exact hop.elim

/-- What a run is reduced to: one buffer, as well built as a fresh one. -/
def Holds (s : BufStore) (b : MessageBuffer) : Prop := s.bufs = [b] ∧ Sized b

theorem step_holds (h : Holds s b) (hop : op.OnFirst) (hg : BufGuard s op)
    (hstep : BufStep s op s') (bound : Nat) :
    ∃ b', Holds s' b' ∧
      (b'.buffer.length ≤ bound ↔ b.buffer.length ≤ bound ∧ StaysWithin bound s op) := by
  obtain ⟨hs, hsz⟩ := h
  have hget : s.bufs[0]? = some b := by rw [hs]; rfl
  obtain ⟨b', hs', hsize⟩ := step_size hs hsz hop hg hstep
  have hall : BufStore.AllSized s := by
    intro c hc
    rw [hs] at hc
    exact List.mem_singleton.mp hc ▸ hsz
  have hin : op.InSeq := by
    cases op <;> first | exact hop.elim | trivial
  have hseq : s.SeqGuard op := by
    cases op <;> first | exact hop.elim | exact hg | trivial
  have hall' := (BufStore.allSized_step hall hseq ⟨hstep, hin⟩).1
  refine ⟨b', ⟨hs', hall' b' (by rw [hs']; exact List.mem_singleton.mpr rfl)⟩, ?_⟩
  have hwithin : StaysWithin bound s op ↔
      ∀ m, b.alloc op = some m → m ≤ bound ∨ kAllocLimit < m :=
    ⟨fun hw m hm => hw b m hget hm,
      fun hw c m hc hm => hw m (Option.some.inj (hget.symm.trans hc) ▸ hm)⟩
  rw [hsize, hwithin]
  cases ha : b.alloc op with
  | none =>
      refine ⟨fun hle => ⟨hle, fun m hm => ?_⟩, fun hle => hle.1⟩
      cases hm
  | some m =>
      have hle := size_le_alloc hsz hs hop hg ha
      rw [sizeAfter]
      by_cases hlim : m ≤ kAllocLimit
      · rw [if_pos hlim]
        constructor
        · intro hm
          refine ⟨by omega, fun k hk => Or.inl ?_⟩
          obtain rfl := Option.some.inj hk
          exact hm
        · rintro ⟨-, hw⟩
          rcases hw m rfl with hm | hm
          · exact hm
          · omega
      · rw [if_neg hlim]
        refine ⟨fun hm => ⟨hm, fun k hk => Or.inr ?_⟩, fun hm => hm.1⟩
        obtain rfl := Option.some.inj hk
        omega

theorem bufStep_det (s : BufStore) (op : BufOp) (t u : BufStore) (h1 : BufStep s op t)
    (h2 : BufStep s op u) : t = u :=
  Option.some.inj (h1.2.symm.trans h2.2)

theorem run_holds {bound : Nat} {s₀ : BufStore} {b₀ : MessageBuffer} (h₀ : Holds s₀ b₀)
    (hb₀ : b₀.buffer.length ≤ bound) {ops : List BufOp} (hrun : Run BufStep s₀ ops s)
    (hops : ∀ op ∈ ops, op.OnFirst) (hguard : EveryStep BufStep BufGuard s₀ ops) :
    ∃ b, Holds s b ∧ (b.buffer.length ≤ bound ↔ EveryStep BufStep (StaysWithin bound) s₀ ops) := by
  induction hrun with
  | nil => exact ⟨b₀, h₀, iff_of_true hb₀ everyStep_nil⟩
  | @snoc t u ops' op hr hs ih =>
      have hg := (everyStep_snoc bufStep_det hr hs).mp hguard
      obtain ⟨b, hb, hiff⟩ :=
        ih (fun m hm => hops m (List.mem_append_left _ hm)) hg.1
      obtain ⟨b', hb', hstep⟩ :=
        step_holds hb (hops op (List.mem_append_right _ List.mem_cons_self)) hg.2 hs bound
      refine ⟨b', hb', ?_⟩
      rw [hstep, hiff, everyStep_snoc bufStep_det hr hs]

/-- Every operation that empties `b` leaves at most `bound` bytes of storage. -/
def EmptiesWithin (bound : Nat) (b : MessageBuffer) : Prop :=
  ∀ n : UInt64, b.readableBytes ≤ n.toNat →
    (b.retrieve n.toNat).buffer.length ≤ bound ∧
      ∀ out b', b.read n.toNat = .ok (out, b') → b'.buffer.length ≤ bound

theorem emptiesWithin_iff (h : Sized b) (bound : Nat) :
    EmptiesWithin bound b ↔ b.buffer.length ≤ bound := by
  have hall : b.retrieveAll.buffer.length = b.buffer.length := by
    rw [h.retrieveAll_size, h.shrunkSize_eq]
  constructor
  · intro hw
    have hr := h.readable_le
    have hl := limit_lt
    have hn : (UInt64.ofNat b.readableBytes).toNat = b.readableBytes :=
      UInt64.toNat_ofNat_of_lt' (Nat.lt_of_le_of_lt hr (by decide))
    have hle := (hw (UInt64.ofNat b.readableBytes) (by rw [hn])).1
    rw [hn, MessageBuffer.retrieve, if_pos (Nat.le_refl _), hall] at hle
    exact hle
  · intro hle n hn
    refine ⟨by rw [MessageBuffer.retrieve, if_pos hn, hall]; exact hle, fun out b' hread => ?_⟩
    rw [h.read_all hn] at hread
    obtain ⟨-, rfl⟩ := Prod.mk.inj (Except.ok.inj hread)
    rw [hall]
    exact hle

theorem constructed {len : UInt64} (hlen : kBufferOffset ≤ len.toNat)
    (hg : len.toNat + kBufferOffset < sizeMod) (hs : BufStep BufStore.empty (.construct len) s) :
    s.bufs = [] ∨ ∃ b, Holds s b ∧ b.buffer.length = len.toNat + kBufferOffset := by
  obtain rfl := Option.some.inj hs.2
  have hfresh := new_fresh hg
  cases hnew : MessageBuffer.new len.toNat with
  | error f => exact Or.inl rfl
  | ok b =>
      have hb := hfresh.of_ok hnew
      exact Or.inr ⟨b, ⟨rfl, hb.sized hlen⟩, hb.size_eq⟩

theorem not_step_of_nil (hs : s.bufs = []) (hop : op.OnFirst) : ¬ BufStep s op s' := by
  rintro ⟨-, hexec⟩
  cases op with
  | pushBack i v | pushFront i v | ensureWritableBytes i n | retrieve i n | read i n
  | readFd i offer => simp [BufStore.exec, BufStore.on, hs] at hexec
  | _ => exact hop.elim

/-- **When the memory shrinks back.** Take a buffer built with `len ≥ 8`
and any sequence of filling and draining operations that stays in bounds.
Emptying it then leaves at most `max(2 * len, len + 8)` bytes of storage
exactly when no operation so far has replaced the storage by a larger one
than that. -/
theorem emptied_storage_iff {len : UInt64} {ops : List BufOp} (hlen : kBufferOffset ≤ len.toNat)
    (hops : ∀ op ∈ ops, op.OnFirst)
    (hsound : Throughout BufStep BufStore.Sound BufStore.empty (.construct len :: ops))
    (hrun : Run BufStep BufStore.empty (.construct len :: ops) s) :
    (∀ b ∈ s.bufs,
        EmptiesWithin (max (2 * len.toNat) (len.toNat + kBufferOffset)) b) ↔
      EveryStep BufStep (StaysWithin (max (2 * len.toNat) (len.toNat + kBufferOffset)))
        BufStore.empty (.construct len :: ops) := by
  have hguard := (BufStore.sound_iff_guard _).mp hsound
  obtain ⟨s₀, hs₀, hrest⟩ := hrun.cons_inv
  obtain ⟨hg₀, hguard⟩ := (everyStep_cons_iff bufStep_det hs₀).mp hguard
  have hfirst : StaysWithin (max (2 * len.toNat) (len.toNat + kBufferOffset)) BufStore.empty
      (.construct len) := fun b m hb => nomatch hb
  rw [everyStep_cons_iff bufStep_det hs₀, and_iff_right hfirst]
  rcases constructed hlen hg₀ hs₀ with hnil | ⟨b₀, hb₀, hsz₀⟩
  · -- the constructor threw, so nothing follows
    cases ops with
    | nil =>
        obtain rfl := hrest.nil_inv
        refine iff_of_true (fun b hb => ?_) everyStep_nil
        rw [hnil] at hb
        cases hb
    | cons op ops =>
        obtain ⟨u, hu, -⟩ := hrest.cons_inv
        exact absurd hu (not_step_of_nil hnil (hops op List.mem_cons_self))
  · have hle₀ : b₀.buffer.length ≤ max (2 * len.toNat) (len.toNat + kBufferOffset) := by
      rw [hsz₀]
      exact Nat.le_max_right _ _
    obtain ⟨b, ⟨hs, hb⟩, hiff⟩ := run_holds hb₀ hle₀ hrest hops hguard
    rw [← hiff, ← emptiesWithin_iff hb, hs]
    exact ⟨fun hall => hall b (List.mem_singleton.mpr rfl),
      fun hw c hc => List.mem_singleton.mp hc ▸ hw⟩

/-- Nine bytes, as a `StringView`. -/
def nine : View := ⟨List.replicate 9 1, by decide⟩

/-- `MessageBuffer b(16); b.pushBack(nine bytes); b.pushFront(nine bytes);` -/
def frontSixteen : List BufOp := [.construct 16, .pushBack 0 nine, .pushFront 0 nine]

/-- What it leaves: 18 bytes in a storage of 26 instead of 24. -/
def grownSixteen : MessageBuffer := ⟨8, 26, 18, List.replicate 8 0 ++ List.replicate 18 1⟩

/-- Only `pushFront` has replaced the storage, and by a little larger one. -/
theorem emptied_storage_sixteen :
    Run BufStep BufStore.empty frontSixteen ⟨[grownSixteen], .returned []⟩ ∧
      16 + kBufferOffset < grownSixteen.buffer.length ∧
      EmptiesWithin (max (2 * 16) (16 + kBufferOffset)) grownSixteen := by
  let fresh : MessageBuffer := ⟨8, 8, 16, List.replicate 24 0⟩
  let half : MessageBuffer :=
    ⟨8, 17, 16, List.replicate 8 0 ++ List.replicate 9 1 ++ List.replicate 7 0⟩
  have h1 : BufStep BufStore.empty (.construct 16) ⟨[fresh], .returned []⟩ :=
    ⟨BufStore.live_of_returned rfl, rfl⟩
  have h2 : BufStep ⟨[fresh], .returned []⟩ (.pushBack 0 nine) ⟨[half], .returned []⟩ :=
    ⟨BufStore.live_of_returned rfl, by decide⟩
  have h3 : BufStep ⟨[half], .returned []⟩ (.pushFront 0 nine) ⟨[grownSixteen], .returned []⟩ :=
    ⟨BufStore.live_of_returned rfl, by decide⟩
  have hrun : Run BufStep BufStore.empty frontSixteen ⟨[grownSixteen], .returned []⟩ :=
    .cons h1 (.cons h2 (.cons h3 (.nil _)))
  have hguard : ∀ op ∈ frontSixteen, ∀ s, BufGuard s op := by
    simp only [frontSixteen, List.forall_mem_cons]
    exact ⟨fun _ => (by decide : (16 : UInt64).toNat + kBufferOffset < sizeMod), fun _ => trivial,
      fun _ => trivial, by simp⟩
  have hone : ∀ op ∈ [BufOp.pushBack 0 nine, .pushFront 0 nine], op.OnFirst := by
    simp [BufOp.OnFirst]
  have hlen : kBufferOffset ≤ (16 : UInt64).toNat := by decide
  refine ⟨hrun, by decide, ?_⟩
  refine (emptied_storage_iff hlen hone
    ((BufStore.sound_iff_guard _).mpr (everyStep_of_labels hguard)) hrun).mpr ?_
    grownSixteen (List.mem_singleton.mpr rfl)
  rw [everyStep_cons_iff bufStep_det h1, everyStep_cons_iff bufStep_det h2,
    everyStep_cons_iff bufStep_det h3]
  refine ⟨?_, ?_, ?_, everyStep_nil⟩
  · intro b m hb
    cases hb
  · intro b m hb hm
    obtain rfl := Option.some.inj hb
    have hnone : fresh.alloc (.pushBack 0 nine) = none := by decide
    rw [hnone] at hm
    cases hm
  · intro b m hb hm
    obtain rfl := Option.some.inj hb
    have hsome : half.alloc (.pushFront 0 nine) = some 26 := by decide
    rw [hsome] at hm
    obtain rfl := Option.some.inj hm
    exact Or.inl (by decide)

/-- The storage after the nine bytes have been pushed into a buffer of 8. -/
def grownStorage : List Byte := List.replicate 8 0 ++ List.replicate 9 1 ++ List.replicate 23 0

/-- `MessageBuffer b(8); b.pushBack(nine bytes); b.retrieve(9);` leaves an
empty buffer with 40 bytes of storage. -/
theorem emptied_storage_exceeds :
    Run BufStep BufStore.empty [.construct 8, .pushBack 0 nine, .retrieve 0 9]
        ⟨[⟨8, 8, 32, grownStorage⟩], .returned []⟩ ∧
      max (2 * 8) (8 + kBufferOffset) < grownStorage.length := by
  have h1 : BufStep BufStore.empty (.construct 8) ⟨[freshEight], .returned []⟩ :=
    ⟨BufStore.live_of_returned rfl, rfl⟩
  have h2 : BufStep ⟨[freshEight], .returned []⟩ (.pushBack 0 nine)
      ⟨[⟨8, 17, 32, grownStorage⟩], .returned []⟩ := ⟨BufStore.live_of_returned rfl, by decide⟩
  have h3 : BufStep ⟨[⟨8, 17, 32, grownStorage⟩], .returned []⟩ (.retrieve 0 9)
      ⟨[⟨8, 8, 32, grownStorage⟩], .returned []⟩ := ⟨BufStore.live_of_returned rfl, by decide⟩
  exact ⟨.cons h1 (.cons h2 (.cons h3 (.nil _))), by decide⟩

end OneBuffer

end Netpoll
