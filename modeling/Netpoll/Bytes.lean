import Mathlib.Data.List.Basic

/-!
# Slices of a storage area

The pure part of `memcpy`/`memmove` over a vector modelled as a list:
`slice l a b` is the region `[a, b)` of `l`, `splice l p xs` overwrites
the region that starts at `p` with `xs`. The lemmas say what a write
leaves of a region before it, behind it and at it, and how adjacent
regions join; nothing here mentions what the storage is used for.

`copyUp` is a copy inside the storage that moves one element at a time,
the first one first. Unless the destination lies behind the start of the
source and inside it, it is the `splice` of the old source
(`copyUp_eq_splice`).
-/

namespace Netpoll

variable {α : Type*}

/-- The region `[a, b)` of `l`. -/
def slice (l : List α) (a b : Nat) : List α := (l.take b).drop a

/-- `l` with the region starting at `p` overwritten by `xs`. -/
def splice (l : List α) (p : Nat) (xs : List α) : List α :=
  l.take p ++ xs ++ l.drop (p + xs.length)

theorem slice_length {l : List α} {a b : Nat} (hb : b ≤ l.length) :
    (slice l a b).length = b - a := by
  simp [slice, Nat.min_eq_left hb]

theorem length_slice (l : List α) (a n : Nat) :
    (slice l a (a + n)).length = min n (l.length - a) := by
  simp only [slice, List.length_drop, List.length_take]
  omega

theorem slice_length_slice (l : List α) (a n : Nat) :
    slice l a (a + (slice l a (a + n)).length) = slice l a (a + n) := by
  rw [length_slice]
  by_cases h : n ≤ l.length - a
  · rw [Nat.min_eq_left h]
  · rw [slice, slice, List.take_of_length_le (by omega), List.take_of_length_le (by omega)]

@[simp] theorem slice_self (l : List α) (a : Nat) : slice l a a = [] := by
  simp [slice]

@[simp] theorem splice_nil (l : List α) (p : Nat) : splice l p [] = l := by
  simp [splice]

theorem splice_length {l xs : List α} {p : Nat} (h : p + xs.length ≤ l.length) :
    (splice l p xs).length = l.length := by
  simp only [splice, List.length_append, List.length_take, List.length_drop]
  omega

theorem slice_append {l : List α} {a b c : Nat} (hab : a ≤ b) (hbc : b ≤ c) :
    slice l a b ++ slice l b c = slice l a c := by
  simp only [slice]
  have hb : l.take b = (l.take c).take b := by rw [List.take_take, Nat.min_eq_left hbc]
  rw [hb]
  conv_rhs => rw [← List.take_append_drop b (l.take c)]
  rw [List.drop_append]
  congr 1
  -- either the cut at `b` is inside the taken part, or the rest is empty
  rcases Nat.le_total b (l.take c).length with h | h
  · have hlen : ((l.take c).take b).length = b := by
      rw [List.length_take, Nat.min_eq_left h]
    rw [hlen, Nat.sub_eq_zero_of_le hab, List.drop_zero]
  · rw [List.drop_of_length_le h, List.drop_nil]

theorem slice_take {l : List α} {a b n : Nat} (h : a + n ≤ b) :
    (slice l a b).take n = slice l a (a + n) := by
  simp only [slice]
  rw [List.take_drop, List.take_take, Nat.min_eq_left h]

theorem slice_drop {l : List α} {a b n : Nat} :
    (slice l a b).drop n = slice l (a + n) b := by
  simp [slice, List.drop_drop]

theorem slice_splice_before {l xs : List α} {p a b : Nat} (hb : b ≤ p)
    (hp : p ≤ l.length) : slice (splice l p xs) a b = slice l a b := by
  have h : (splice l p xs).take b = l.take b := by
    simp only [splice, List.append_assoc]
    rw [List.take_append_of_le_length (by simp; omega), List.take_take,
      Nat.min_eq_left hb]
  simp only [slice, h]

theorem slice_splice_self {l xs : List α} {p : Nat} (hp : p ≤ l.length) :
    slice (splice l p xs) p (p + xs.length) = xs := by
  have hlen : (l.take p).length = p := by simp [hp]
  have hlen' : (l.take p ++ xs).length = p + xs.length := by rw [List.length_append, hlen]
  simp only [slice, splice]
  rw [List.take_append_of_le_length (Nat.le_of_eq hlen'.symm),
    List.take_of_length_le (Nat.le_of_eq hlen')]
  rw [List.drop_append_of_le_length (by omega), List.drop_of_length_le (by omega),
    List.nil_append]

theorem slice_splice_after {l xs : List α} {p a b : Nat}
    (hp : p + xs.length ≤ l.length) (ha : p + xs.length ≤ a) :
    slice (splice l p xs) a b = slice l a b := by
  have h : ∀ n, p + xs.length ≤ n → (splice l p xs).drop n = l.drop n := by
    intro n hn
    have hlen : (l.take p ++ xs).length = p + xs.length := by
      simp only [List.length_append, List.length_take]; omega
    simp only [splice]
    rw [List.drop_append, List.drop_of_length_le (by omega), List.nil_append, hlen,
      List.drop_drop]
    congr 1; omega
  have hs : ∀ m : List α, slice m a b = (m.drop a).take (b - a) := by
    intro m
    simp only [slice]
    rw [List.drop_take]
  rw [hs, hs, h a ha]

/-! ## Element by element -/

/-- Copy `n` elements from index `src` on to index `dst` on, in
increasing order: each read sees the writes before it. -/
def copyUp (l : List α) (src dst : Nat) : Nat → List α
  | 0 => l
  | n + 1 =>
    let l := copyUp l src dst n
    match l[src + n]? with
    | some x => l.set (dst + n) x
    | none => l

@[simp] theorem copyUp_length (l : List α) (src dst n : Nat) :
    (copyUp l src dst n).length = l.length := by
  induction n with
  | zero => rfl
  | succ n ih =>
      rw [copyUp]
      split
      · rw [List.length_set, ih]
      · exact ih

/-- What a copy that never reads its own writes leaves at each index. -/
theorem getElem?_copyUp {l : List α} {src dst n : Nat} (hlegal : dst ≤ src ∨ src + n ≤ dst)
    (hsrc : src + n ≤ l.length) (hdst : dst + n ≤ l.length) (i : Nat) :
    (copyUp l src dst n)[i]? =
      if dst ≤ i ∧ i < dst + n then l[src + (i - dst)]? else l[i]? := by
  induction n generalizing i with
  | zero =>
      rw [copyUp, if_neg (by omega)]
  | succ n ih =>
      have ih := ih (by omega) (by omega) (by omega)
      -- the element read is still the old one
      have hread : (copyUp l src dst n)[src + n]? = some l[src + n] := by
        rw [ih, if_neg (by omega), List.getElem?_eq_getElem]
      rw [copyUp, hread]
      simp only [List.getElem?_set, copyUp_length]
      by_cases hi : dst + n = i
      · subst hi
        rw [if_pos rfl, if_pos (by omega), if_pos (by omega), Nat.add_sub_cancel_left,
          List.getElem?_eq_getElem]
      · rw [if_neg hi, ih]
        by_cases hin : dst ≤ i ∧ i < dst + n
        · rw [if_pos hin, if_pos (by omega)]
        · rw [if_neg hin, if_neg (by omega)]

theorem getElem?_slice {l : List α} {a b : Nat} (i : Nat) :
    (slice l a b)[i]? = if a + i < b then l[a + i]? else none := by
  simp only [slice, List.getElem?_drop, List.getElem?_take]

theorem getElem?_splice {l xs : List α} {p : Nat} (h : p + xs.length ≤ l.length) (i : Nat) :
    (splice l p xs)[i]? = if p ≤ i ∧ i < p + xs.length then xs[i - p]? else l[i]? := by
  have htake : (l.take p).length = p := by rw [List.length_take]; omega
  simp only [splice, List.getElem?_append, List.length_append, htake, List.getElem?_take,
    List.getElem?_drop]
  by_cases h1 : i < p
  · rw [if_pos (by omega), if_pos h1, if_pos h1, if_neg (by omega)]
  · by_cases h2 : i < p + xs.length
    · rw [if_pos h2, if_neg h1, if_pos (by omega)]
    · rw [if_neg h2, if_neg (by omega)]
      congr 1
      omega

/-- A copy whose destination does not start inside the source moves the
source as it was. -/
theorem copyUp_eq_splice {l : List α} {src dst n : Nat} (hlegal : dst ≤ src ∨ src + n ≤ dst)
    (hsrc : src + n ≤ l.length) (hdst : dst + n ≤ l.length) :
    copyUp l src dst n = splice l dst (slice l src (src + n)) := by
  have hlen : (slice l src (src + n)).length = n := by
    rw [slice_length hsrc, Nat.add_sub_cancel_left]
  apply List.ext_getElem?
  intro i
  rw [getElem?_copyUp hlegal hsrc hdst, getElem?_splice (by omega), hlen, getElem?_slice]
  by_cases hi : dst ≤ i ∧ i < dst + n
  · rw [if_pos hi, if_pos hi, if_pos (by omega)]
  · rw [if_neg hi, if_neg hi]

end Netpoll
