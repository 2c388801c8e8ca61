import Mathlib.Data.List.Infix
import Netpoll.Bytes
import Netpoll.MessageBuffer

/-!
# `toUtf8` and `fromUtf8`

The conversions of `util/encode_util.cc` as a C++17 compiler on Linux sees
them: a wide string is a list of Unicode scalar values, the C library
converts it character by character into a buffer whose size was chosen
before, and the string is cut to what has been written.

`toUtf8` reserves three bytes for each character. The encoding is complete
exactly when it fits into that buffer as a whole; `fromUtf8` reserves one
character for each byte, which is always enough.
-/

namespace Netpoll

/-- The UTF-8 encoding of a string of scalar values. -/
def utf8 (w : List Char) : List Byte := w.flatMap String.utf8EncodeChar

/-- The character that ends a wide string. -/
def nul : Char := Char.ofNat 0

/-- What `wcstombs(dst, src, n)` writes: it stops at the end of the string,
and before a character whose encoding does not fit. -/
def wcstombs : List Char → Nat → List Byte
  | [], _ => []
  | c :: cs, n =>
    if c = nul then []
    else if (String.utf8EncodeChar c).length ≤ n then
      String.utf8EncodeChar c ++ wcstombs cs (n - (String.utf8EncodeChar c).length)
    else []

/-- What `mbstowcs(dst, src, n)` writes; `none` is its result -1 for bytes
that encode no character. -/
def mbstowcs : List Byte → Nat → Option (List Char)
  | _, 0 => some []
  | [], _ + 1 => some []
  | b :: bs, n + 1 =>
    match (b :: bs).toByteArray.utf8DecodeChar? 0 with
    | none => none
    | some c =>
        if c = nul then some []
        else (mbstowcs ((b :: bs).drop (String.utf8EncodeChar c).length) n).map (c :: ·)

/-- `wstr.length()` is far below the largest `size_t`. -/
def toUtf8 (wstr : List Char) : List Byte :=
  if wstr = [] then []
  else
    let strTo := List.replicate (3 * wstr.length) 0
    let written := wcstombs wstr strTo.length
    (splice strTo 0 written).take written.length

/-- `none`: `wstrTo.resize(-1)` throws `std::length_error`. -/
def fromUtf8 (str : List Byte) : Option (List Char) :=
  if str = [] then some []
  else
    let wstrTo := List.replicate str.length nul
    (mbstowcs str wstrTo.length).map fun written =>
      (splice wstrTo 0 written).take written.length

/-! ## Encoding -/

variable {w : List Char} {n : Nat}

@[simp] theorem utf8_cons (c : Char) (cs : List Char) :
    utf8 (c :: cs) = String.utf8EncodeChar c ++ utf8 cs := rfl

theorem utf8EncodeChar_pos (c : Char) : 0 < (String.utf8EncodeChar c).length := by
  rw [String.length_utf8EncodeChar]
  exact c.utf8Size_pos

theorem length_le_utf8 (w : List Char) : w.length ≤ (utf8 w).length := by
  induction w with
  | nil => exact Nat.le_refl _
  | cons c cs ih =>
      have := utf8EncodeChar_pos c
      rw [utf8_cons, List.length_append, List.length_cons]
      omega

theorem wcstombs_length (w : List Char) (n : Nat) : (wcstombs w n).length ≤ n := by
  induction w generalizing n with
  | nil => exact Nat.zero_le n
  | cons c cs ih =>
      rw [wcstombs]
      split
      · exact Nat.zero_le n
      · split
        · have := ih (n - (String.utf8EncodeChar c).length)
          rw [List.length_append]
          omega
        · exact Nat.zero_le n

theorem wcstombs_prefix (w : List Char) (n : Nat) : ∃ cs, cs <+: w ∧ wcstombs w n = utf8 cs := by
  induction w generalizing n with
  | nil => exact ⟨[], List.nil_prefix, rfl⟩
  | cons c cs ih =>
      rw [wcstombs]
      split
      · exact ⟨[], List.nil_prefix, rfl⟩
      · split
        · obtain ⟨ds, hds, heq⟩ := ih (n - (String.utf8EncodeChar c).length)
          exact ⟨c :: ds, List.cons_prefix_cons.mpr ⟨rfl, hds⟩, by rw [heq, utf8_cons]⟩
        · exact ⟨[], List.nil_prefix, rfl⟩

theorem wcstombs_of_le (hw : ∀ c ∈ w, c ≠ nul) (hn : (utf8 w).length ≤ n) :
    wcstombs w n = utf8 w := by
  induction w generalizing n with
  | nil => rfl
  | cons c cs ih =>
      rw [utf8_cons, List.length_append] at hn
      rw [wcstombs, if_neg (hw c List.mem_cons_self), if_pos (by omega), utf8_cons,
        ih (fun d hd => hw d (List.mem_cons_of_mem c hd)) (by omega)]

theorem take_splice {α : Type*} {l xs : List α} : (splice l 0 xs).take xs.length = xs := by
  simp [splice]

theorem toUtf8_eq (w : List Char) : toUtf8 w = wcstombs w (3 * w.length) := by
  unfold toUtf8
  split
  · rename_i h
    rw [h]
    rfl
  · simp only [List.length_replicate]
    exact take_splice

theorem toUtf8_complete_iff (hw : ∀ c ∈ w, c ≠ nul) :
    toUtf8 w = utf8 w ↔ (utf8 w).length ≤ 3 * w.length := by
  rw [toUtf8_eq]
  constructor
  · intro h
    rw [← h]
    exact wcstombs_length w _
  · exact wcstombs_of_le hw

/-! ## Decoding -/

theorem mbstowcs_utf8 (hw : ∀ c ∈ w, c ≠ nul) (hn : w.length ≤ n) :
    mbstowcs (utf8 w) n = some w := by
  induction w generalizing n with
  | nil => cases n <;> rfl
  | cons c cs ih =>
      obtain ⟨n, rfl⟩ : ∃ k, n = k + 1 := ⟨n - 1, by rw [List.length_cons] at hn; omega⟩
      have hdec : (utf8 (c :: cs)).toByteArray.utf8DecodeChar? 0 = some c := by
        rw [utf8_cons, List.toByteArray_append]
        exact ByteArray.utf8DecodeChar?_utf8EncodeChar_append
      have hdrop : (utf8 (c :: cs)).drop (String.utf8EncodeChar c).length = utf8 cs := by
        rw [utf8_cons, List.drop_left]
      have hne : utf8 (c :: cs) ≠ [] := by
        have := length_le_utf8 (c :: cs)
        exact List.ne_nil_of_length_pos (Nat.lt_of_lt_of_le (Nat.succ_pos _) this)
      obtain ⟨b, bs, hb⟩ := List.exists_cons_of_ne_nil hne
      rw [hb] at hdec hdrop ⊢
      rw [mbstowcs, hdec]
      simp only
      rw [if_neg (hw c List.mem_cons_self), hdrop,
        ih (fun d hd => hw d (List.mem_cons_of_mem c hd)) (Nat.le_of_succ_le_succ hn)]
      rfl

theorem fromUtf8_utf8 (hw : ∀ c ∈ w, c ≠ nul) : fromUtf8 (utf8 w) = some w := by
  have hlen := length_le_utf8 w
  unfold fromUtf8
  split
  · rename_i h
    rw [h] at hlen
    rw [List.eq_nil_of_length_eq_zero (Nat.le_zero.mp hlen)]
  · simp only [List.length_replicate, mbstowcs_utf8 hw hlen, Option.map_some, take_splice]

theorem fromUtf8_toUtf8_iff (hw : ∀ c ∈ w, c ≠ nul) :
    fromUtf8 (toUtf8 w) = some w ↔ toUtf8 w = utf8 w := by
  obtain ⟨cs, hcs, heq⟩ := wcstombs_prefix w (3 * w.length)
  have hback := fromUtf8_utf8 fun c hc => hw c (hcs.subset hc)
  rw [toUtf8_eq, heq, hback]
  constructor
  · intro h
    rw [Option.some.inj h]
  · intro h
    rw [← fromUtf8_utf8 hw, ← h, hback]

/-- **The round trip.** A wide string without NUL comes back from its UTF-8
encoding, and that encoding is complete, exactly when it takes at most three
bytes for each character on average. -/
theorem utf8_round_trip_iff (w : List Char) (hw : ∀ c ∈ w, c ≠ nul) :
    (fromUtf8 (toUtf8 w) = some w ∧ toUtf8 w = utf8 w) ↔ (utf8 w).length ≤ 3 * w.length := by
  rw [← toUtf8_complete_iff hw, and_iff_right_iff_imp]
  exact (fromUtf8_toUtf8_iff hw).mpr

/-- U+00E9 and U+1F600 take six bytes together. -/
theorem utf8_round_trip_mixed :
    fromUtf8 (toUtf8 [Char.ofNat 0xE9, Char.ofNat 0x1F600]) =
        some [Char.ofNat 0xE9, Char.ofNat 0x1F600] ∧
      toUtf8 [Char.ofNat 0xE9, Char.ofNat 0x1F600] =
        utf8 [Char.ofNat 0xE9, Char.ofNat 0x1F600] := by
  refine (utf8_round_trip_iff _ ?_).mpr (by decide)
  intro c hc
  rcases List.mem_pair.mp hc with rfl | rfl <;> decide

/-- U+1F600 alone takes four bytes and three are reserved: nothing of it is
written. -/
theorem toUtf8_drops_character :
    toUtf8 [Char.ofNat 0x1F600] = [] ∧ utf8 [Char.ofNat 0x1F600] = [0xF0, 0x9F, 0x98, 0x80] ∧
      fromUtf8 (toUtf8 [Char.ofNat 0x1F600]) = some [] := by
  decide

end Netpoll
