import Mathlib.Data.List.Infix
import Netpoll.Bytes

/-!
# `splitString`

The splitting of `util/funcs.h`: two cursors, `last` behind the delimiter
found last and `next` at the one found now, and a final piece behind the
loop. The characters are of any type.

`Cuts` is what the loop is to find in the string behind `last`: pieces that
do not contain the delimiter and that the delimiter joins. One turn of the
loop adds a piece in front of the cuts of what lies behind the delimiter
(`Cuts.cons`), so the induction is over the search positions. The empty
pieces are dropped as they are found; `keeps` is that test.

The loop runs on fuel, `running` says that it is used up. Every search
moves `last` past a delimiter that is not empty, so the length of the
string is enough.
-/

namespace Netpoll

variable {α : Type} [DecidableEq α]

/-- How a splitting may fail to return: `std::out_of_range`, or still in
the loop. -/
inductive SplitFault where
  | outOfRange
  | running
  deriving DecidableEq, Repr

/-- `s.find(delimiter, pos)`; `none` is `npos`. -/
def StdString.find (s delimiter : List α) (pos : Nat) : Option Nat :=
  (List.range' pos (s.length + 1 - pos)).find? fun i => delimiter.isPrefixOf (s.drop i)

/-- `s.substr(pos, n)` -/
def StdString.substr (s : List α) (pos n : Nat) : Except SplitFault (List α) :=
  if s.length < pos then .error .outOfRange else .ok (slice s pos (pos + n))

open StdString

/-- The `while` loop, with the pieces found so far; it ends with `last`. -/
def splitLoop (s delimiter : List α) (acceptEmptyString : Bool) :
    Nat → Nat → List (List α) → Except SplitFault (Nat × List (List α))
  | 0, _, _ => .error .running
  | fuel + 1, last, v =>
    match find s delimiter last with
    | none => .ok (last, v)
    | some next =>
        if next > last || acceptEmptyString then do
          let piece ← substr s last (next - last)
          splitLoop s delimiter acceptEmptyString fuel (next + delimiter.length) (v ++ [piece])
        else splitLoop s delimiter acceptEmptyString fuel (next + delimiter.length) v

def splitString (fuel : Nat) (s delimiter : List α) (acceptEmptyString : Bool) :
    Except SplitFault (List (List α)) :=
  if delimiter = [] then .ok []
  else do
    let (last, v) ← splitLoop s delimiter acceptEmptyString fuel 0 []
    if s.length > last || acceptEmptyString then do
      let piece ← substr s last (s.length - last)
      .ok (v ++ [piece])
    else .ok v

/-! ## Searching -/

variable {s d : List α} {pos i : Nat}

omit [DecidableEq α] in
theorem drop_eq_slice_append (hle : pos ≤ i) (hlen : i ≤ s.length) :
    s.drop pos = slice s pos i ++ s.drop i := by
  have hall : slice s pos s.length = s.drop pos := by rw [slice, List.take_length]
  have hrest : slice s i s.length = s.drop i := by rw [slice, List.take_length]
  rw [← hall, ← hrest, slice_append hle hlen]

theorem find_eq_some :
    find s d pos = some i ↔
      (pos ≤ i ∧ i ≤ s.length) ∧ d <+: s.drop i ∧ ∀ j, pos ≤ j → j < i → ¬ d <+: s.drop j := by
  simp only [find, List.find?_range'_eq_some, List.isPrefixOf_iff_prefix, List.mem_range'_1,
    Bool.not_eq_true', ← Bool.not_eq_true]
  constructor
  · rintro ⟨hd, ⟨hle, hlt⟩, hfirst⟩
    exact ⟨⟨hle, by omega⟩, hd, hfirst⟩
  · rintro ⟨⟨hle, hlen⟩, hd, hfirst⟩
    exact ⟨hd, ⟨hle, by omega⟩, hfirst⟩

theorem find_eq_none (hd : d ≠ []) :
    find s d pos = none ↔ ¬ d <:+: s.drop pos := by
  simp only [find, List.find?_range'_eq_none, Bool.not_eq_true', ← Bool.not_eq_true,
    List.isPrefixOf_iff_prefix]
  constructor
  · intro h hin
    obtain ⟨t, hpre, hsuf⟩ := List.infix_iff_prefix_suffix.mp hin
    obtain ⟨k, rfl⟩ : ∃ k, t = s.drop (pos + k) := by
      refine ⟨(s.drop pos).length - t.length, ?_⟩
      rw [← List.drop_drop]
      exact List.suffix_iff_eq_drop.mp hsuf
    refine h (pos + k) (by omega) ?_ hpre
    by_contra hlt
    rw [List.drop_eq_nil_of_le (by omega)] at hpre
    exact hd (List.prefix_nil.mp hpre)
  · intro h j hle _ hpre
    refine h (hpre.isInfix.trans ?_)
    rw [show j = pos + (j - pos) by omega, ← List.drop_drop]
    exact (List.drop_suffix _ _).isInfix

theorem find_split (h : find s d pos = some i) :
    s.drop pos = slice s pos i ++ d ++ s.drop (i + d.length) := by
  obtain ⟨⟨hle, hlen⟩, hd, -⟩ := find_eq_some.mp h
  obtain ⟨t, ht⟩ := hd
  have hrest : s.drop (i + d.length) = t := by
    rw [← List.drop_drop, ← ht, List.drop_left]
  rw [hrest, List.append_assoc, ht]
  exact drop_eq_slice_append hle hlen

theorem find_first (h : find s d pos = some i) (hd : d ≠ []) : ¬ d <:+: slice s pos i := by
  obtain ⟨⟨hle, hlen⟩, -, hfirst⟩ := find_eq_some.mp h
  rintro ⟨a, b, hab⟩
  have hlenab : a.length + d.length + b.length = i - pos := by
    rw [← slice_length hlen, ← hab]
    simp only [List.length_append]
  have hpos : 0 < d.length := List.length_pos_iff.mpr hd
  refine hfirst (pos + a.length) (by omega) (by omega) ?_
  rw [← List.drop_drop, drop_eq_slice_append hle hlen, ← hab, List.append_assoc,
    List.append_assoc, List.drop_left]
  exact List.prefix_append _ _

/-! ## The pieces -/

/-- The pieces of `s` behind `last`: those cut off by a delimiter, and what
is left at `rest`. -/
structure Cuts (s d : List α) (last : Nat) (pieces : List (List α)) (rest : Nat) : Prop where
  le : rest ≤ s.length
  join : d.intercalate (pieces ++ [s.drop rest]) = s.drop last
  free : ∀ p ∈ pieces ++ [s.drop rest], ¬ d <:+: p

theorem Cuts.none (hd : d ≠ []) (hle : pos ≤ s.length) (h : find s d pos = none) :
    Cuts s d pos [] pos where
  le := hle
  join := List.intercalate_singleton
  free _ hp := List.mem_singleton.mp hp ▸ (find_eq_none hd).mp h

theorem Cuts.cons {pieces : List (List α)} {rest : Nat} (hd : d ≠ [])
    (h : find s d pos = some i) (hc : Cuts s d (i + d.length) pieces rest) :
    Cuts s d pos (slice s pos i :: pieces) rest where
  le := hc.le
  join := by
    have hne : pieces ++ [s.drop rest] ≠ [] := by simp
    obtain ⟨q, qs, hq⟩ := List.exists_cons_of_ne_nil hne
    have hjoin := hc.join
    rw [hq] at hjoin
    rw [List.cons_append, hq, List.intercalate_cons_cons, hjoin]
    exact (find_split h).symm
  free p hp := by
    rcases List.mem_cons.mp hp with rfl | hp
    · exact find_first h hd
    · exact hc.free p hp

/-- Which pieces are pushed. -/
def keeps (acceptEmptyString : Bool) (p : List α) : Bool := acceptEmptyString || p ≠ []

omit [DecidableEq α] in
theorem substr_slice {len : Nat} (hi : pos ≤ i) (hlen : i ≤ s.length) (h : len = i - pos) :
    substr s pos len = .ok (slice s pos i) := by
  rw [substr, if_neg (by omega), h, Nat.add_sub_cancel' hi]

omit [DecidableEq α] in
theorem keeps_slice (hlen : i ≤ s.length) (acceptEmptyString : Bool) :
    (decide (i > pos) || acceptEmptyString) = keeps acceptEmptyString (slice s pos i) := by
  have hne : i > pos ↔ slice s pos i ≠ [] := by
    rw [← List.length_pos_iff, slice_length hlen]
    omega
  rw [keeps, Bool.or_comm]
  congr 1
  exact decide_eq_decide.mpr hne

/-- The loop finds the pieces, whether it keeps the empty ones or not. -/
theorem splitLoop_cuts (hd : d ≠ []) (n last : Nat) (hle : last ≤ s.length)
    (hn : s.length - last < n) :
    ∃ pieces rest, Cuts s d last pieces rest ∧ ∀ fuel, n ≤ fuel → ∀ acceptEmptyString v,
      splitLoop s d acceptEmptyString fuel last v =
        .ok (rest, v ++ pieces.filter (keeps acceptEmptyString)) := by
  induction n generalizing last with
  | zero => omega
  | succ n ih =>
      cases hfind : find s d last with
      | none =>
          refine ⟨[], last, Cuts.none hd hle hfind, fun fuel hfuel accept v => ?_⟩
          obtain ⟨fuel, rfl⟩ := Nat.exists_eq_add_of_le' hfuel
          simp [splitLoop, hfind]
      | some next =>
          obtain ⟨⟨hnext, hlen⟩, hpre, -⟩ := find_eq_some.mp hfind
          have hpos : 0 < d.length := List.length_pos_iff.mpr hd
          have hend : next + d.length ≤ s.length := by
            have := hpre.length_le
            rw [List.length_drop] at this
            omega
          obtain ⟨pieces, rest, hcuts, hloop⟩ := ih (next + d.length) hend (by omega)
          refine ⟨slice s last next :: pieces, rest, hcuts.cons hd hfind, ?_⟩
          intro fuel hfuel accept v
          obtain ⟨fuel, rfl⟩ : ∃ k, fuel = k + 1 := ⟨fuel - 1, by omega⟩
          have hrest := hloop fuel (Nat.le_of_succ_le_succ hfuel) accept
          simp only [splitLoop, hfind, keeps_slice hlen]
          by_cases hk : keeps accept (slice s last next) = true
          · rw [if_pos hk, substr_slice hnext hlen rfl, List.filter_cons_of_pos hk]
            change splitLoop s d accept fuel (next + d.length) (v ++ [slice s last next]) = _
            rw [hrest, List.append_assoc, List.singleton_append]
          · rw [if_neg hk, List.filter_cons_of_neg hk, hrest]

theorem splitString_cuts (hd : d ≠ []) :
    ∃ pieces rest, Cuts s d 0 pieces rest ∧ ∀ fuel, s.length < fuel → ∀ acceptEmptyString,
      splitString fuel s d acceptEmptyString =
        .ok ((pieces ++ [s.drop rest]).filter (keeps acceptEmptyString)) := by
  obtain ⟨pieces, rest, hcuts, hloop⟩ :=
    splitLoop_cuts (s := s) hd (s.length + 1) 0 (Nat.zero_le _) (by omega)
  refine ⟨pieces, rest, hcuts, fun fuel hfuel accept => ?_⟩
  have hle := hcuts.le
  have hslice : slice s rest s.length = s.drop rest := by rw [slice, List.take_length]
  have hkeep : (decide (s.length > rest) || accept) = keeps accept (slice s rest s.length) :=
    keeps_slice (Nat.le_refl _) accept
  rw [hslice] at hkeep
  rw [splitString, if_neg hd, hloop fuel hfuel]
  change (if (decide (s.length > rest) || accept) = true then _ else _) = _
  rw [hkeep, List.filter_append, List.nil_append]
  by_cases hk : keeps accept (s.drop rest) = true
  · rw [if_pos hk, substr_slice hle (Nat.le_refl _) rfl, hslice, List.filter_cons_of_pos hk]
    rfl
  · rw [if_neg hk, List.filter_cons_of_neg hk, List.filter_nil, List.append_nil]

/-- **Splitting inverts joining.** With empty pieces accepted the pieces
joined with the delimiter give back the string, none of them contains the
delimiter, and without them the empty ones are left out. The loop has ended
after as many searches as the string has characters, and one. -/
theorem splitString_joins (s d : List α) (hd : d ≠ []) :
    ∃ pieces, (∀ fuel, s.length < fuel →
        splitString fuel s d true = .ok pieces ∧
          splitString fuel s d false = .ok (pieces.filter (· ≠ []))) ∧
      d.intercalate pieces = s ∧ ∀ p ∈ pieces, ¬ d <:+: p := by
  obtain ⟨pieces, rest, hcuts, hsplit⟩ := splitString_cuts (s := s) hd
  refine ⟨pieces ++ [s.drop rest], fun fuel hfuel => ⟨?_, ?_⟩, hcuts.join, hcuts.free⟩
  · have hall : (pieces ++ [s.drop rest]).filter (keeps true) = pieces ++ [s.drop rest] :=
      List.filter_eq_self.mpr fun _ _ => rfl
    rw [hsplit fuel hfuel, hall]
  · rw [hsplit fuel hfuel]
    rfl

/-- `"aaaba"` at `"aa"`: the second `a` is not taken twice. -/
theorem splitString_joins_overlap :
    splitString 6 [1, 1, 1, 2, 1] [1, 1] true = .ok [[], [1, 2, 1]] ∧
      ∃ pieces, (∀ fuel, 5 < fuel →
          splitString fuel [1, 1, 1, 2, 1] [1, 1] true = .ok pieces ∧
            splitString fuel [1, 1, 1, 2, 1] [1, 1] false = .ok (pieces.filter (· ≠ []))) ∧
        List.intercalate [1, 1] pieces = [1, 1, 1, 2, 1] ∧ ∀ p ∈ pieces, ¬ [1, 1] <:+: p :=
  ⟨by decide, splitString_joins [1, 1, 1, 2, 1] [1, 1] (by decide)⟩

end Netpoll
