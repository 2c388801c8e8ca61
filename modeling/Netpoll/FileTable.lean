import Mathlib.Data.List.Nodup

/-!
# Descriptor tables

The table of what a process has open, by descriptor. The length of the
table is the limit of the process; `install` takes the lowest free
descriptor, as `open`, `socket` and `accept` do. `Lists` says which part of
a table belongs to somebody: `own` is a list of descriptors with what they
stand for, and the rules below say how it changes with the table.
-/

namespace Netpoll

abbrev FileTable (α : Type*) := List (Option α)

namespace FileTable

variable {α : Type*} {t t' : FileTable α} {fd n : Nat} {f g : α}

/-- What stands at a descriptor. -/
def file (t : FileTable α) (fd : Nat) : Option α := t[fd]?.join

/-- How many descriptors are left. -/
def free (t : FileTable α) : Nat := t.countP Option.isNone

/-- The lowest free descriptor is taken; `none` is `EMFILE`. -/
def install (t : FileTable α) (f : α) : Option (Nat × FileTable α) :=
  match t.findIdx? Option.isNone with
  | some fd => some (fd, t.set fd (some f))
  | none => none

def close (t : FileTable α) (fd : Nat) : FileTable α := t.set fd none

/-- The descriptor stands for something else from now on. -/
def give (t : FileTable α) (fd : Nat) (f : α) : FileTable α := t.set fd (some f)

theorem lt_length (h : t.file fd = some f) : fd < t.length := by
  by_contra hge
  rw [file, List.getElem?_eq_none (Nat.le_of_not_lt hge)] at h
  cases h

theorem getElem_eq (h : t.file fd = some f) : t.get ⟨fd, lt_length h⟩ = some f := by
  rw [file, List.getElem?_eq_getElem (lt_length h)] at h
  exact h

theorem file_set (hfd : fd < t.length) (x : Option α) :
    file (t.set fd x) n = if n = fd then x else t.file n := by
  unfold file
  rw [List.getElem?_set]
  by_cases hn : n = fd
  · subst hn
    rw [if_pos rfl, if_pos hfd, if_pos rfl]
    rfl
  · rw [if_neg (Ne.symm hn), if_neg hn]

theorem file_close (h : t.file fd = some f) :
    (t.close fd).file n = if n = fd then none else t.file n :=
  file_set (lt_length h) none

theorem free_close (h : t.file fd = some f) : (t.close fd).free = t.free + 1 := by
  have hget := getElem_eq h
  rw [List.get_eq_getElem] at hget
  simp only [free, close]
  rw [List.countP_set (lt_length h), hget]
  rfl

theorem file_give (h : t.file fd = some f) :
    (t.give fd g).file n = if n = fd then some g else t.file n :=
  file_set (lt_length h) (some g)

theorem install_eq_none : t.install f = none ↔ t.free = 0 := by
  unfold install free
  rw [List.countP_eq_zero]
  cases h : t.findIdx? Option.isNone with
  | none =>
      refine iff_of_true rfl fun x hx => ?_
      rw [List.findIdx?_eq_none_iff.mp h x hx]
      exact Bool.false_ne_true
  | some fd =>
      obtain ⟨hfd, hnone, -⟩ := List.findIdx?_eq_some_iff_getElem.mp h
      refine iff_of_false (by simp) fun hall => ?_
      exact hall _ (List.getElem_mem hfd) hnone

section install

variable (h : t.install f = some (fd, t'))
include h

theorem install_eq_some : ∃ hfd : fd < t.length, t.get ⟨fd, hfd⟩ = none ∧ t' = t.set fd (some f) := by
  unfold install at h
  cases hidx : t.findIdx? Option.isNone with
  | none =>
      rw [hidx] at h
      cases h
  | some i =>
      rw [hidx] at h
      obtain ⟨hlt, hnone, -⟩ := List.findIdx?_eq_some_iff_getElem.mp hidx
      obtain ⟨rfl, rfl⟩ := Prod.mk.inj (Option.some.inj h)
      exact ⟨hlt, Option.isNone_iff_eq_none.mp hnone, rfl⟩

theorem file_of_install : t.file fd = none := by
  obtain ⟨hfd, hnone, -⟩ := install_eq_some h
  rw [file, List.getElem?_eq_getElem hfd]
  exact hnone

theorem file_install : t'.file n = if n = fd then some f else t.file n := by
  obtain ⟨hfd, -, rfl⟩ := install_eq_some h
  exact file_set hfd (some f)

theorem free_install : t'.free + 1 = t.free := by
  obtain ⟨hfd, hnone, rfl⟩ := install_eq_some h
  rw [List.get_eq_getElem] at hnone
  have hpos : 0 < t.countP Option.isNone :=
    List.countP_pos_iff.mpr ⟨_, List.getElem_mem hfd, by rw [hnone]; rfl⟩
  unfold free
  rw [List.countP_set hfd, hnone]
  simp only [Option.isNone_none, Option.isNone_some, if_true]
  simp only [Bool.false_eq_true, if_false]
  omega

end install

/-! ## Whose descriptors -/

/-- The descriptors at which there is something of mine, and what it is. -/
structure Lists (mine : α → Prop) (t : FileTable α) (own : List (Nat × α)) : Prop where
  nodup : (own.map Prod.fst).Nodup
  mem : ∀ n g, (n, g) ∈ own ↔ t.file n = some g ∧ mine g

namespace Lists

variable {mine : α → Prop} {own own' : List (Nat × α)}

theorem nil (h : ∀ n g, t.file n = some g → ¬ mine g) : Lists mine t [] where
  nodup := List.nodup_nil
  mem n g := iff_of_false List.not_mem_nil fun hg => h n g hg.1 hg.2

theorem perm (h : Lists mine t own) (hp : own.Perm own') : Lists mine t own' where
  nodup := (hp.map Prod.fst).nodup_iff.mp h.nodup
  mem n g := hp.mem_iff.symm.trans (h.mem n g)

theorem not_mem (h : Lists mine t own) (hfd : ∀ g, t.file fd = some g → ¬ mine g) :
    fd ∉ own.map Prod.fst := by
  intro hmem
  obtain ⟨⟨_, g⟩, hg, rfl⟩ := List.mem_map.mp hmem
  have hfile := (h.mem _ g).mp hg
  exact hfd g hfile.1 hfile.2

theorem install (h : Lists mine t own) (hin : t.install f = some (fd, t')) (hf : mine f) :
    Lists mine t' ((fd, f) :: own) := by
  have hfd : fd ∉ own.map Prod.fst := h.not_mem fun g hg => by
    rw [file_of_install hin] at hg
    cases hg
  refine ⟨List.nodup_cons.mpr ⟨hfd, h.nodup⟩, fun n g => ?_⟩
  rw [List.mem_cons, h.mem, file_install hin]
  by_cases hn : n = fd
  · subst hn
    rw [if_pos rfl, file_of_install hin]
    simp only [Prod.mk.injEq, true_and, reduceCtorEq, false_and, or_false, Option.some.injEq]
    constructor
    · rintro rfl
      exact ⟨rfl, hf⟩
    · exact fun hg => hg.1.symm
  · rw [if_neg hn]
    simp [hn]

theorem install_other (h : Lists mine t own) (hin : t.install f = some (fd, t')) (hf : ¬ mine f) :
    Lists mine t' own := by
  refine ⟨h.nodup, fun n g => ?_⟩
  rw [h.mem, file_install hin]
  by_cases hn : n = fd
  · subst hn
    rw [if_pos rfl, file_of_install hin]
    refine iff_of_false (by simp) ?_
    rintro ⟨hg, hmine⟩
    obtain rfl := Option.some.inj hg
    exact hf hmine
  · rw [if_neg hn]

theorem file_head (h : Lists mine t ((fd, f) :: own)) : t.file fd = some f :=
  ((h.mem fd f).mp List.mem_cons_self).1

theorem drop (h : Lists mine t ((fd, f) :: own)) {x : Option α} (hx : ∀ g, x = some g → ¬ mine g)
    (ht' : ∀ n, t'.file n = if n = fd then x else t.file n) : Lists mine t' own := by
  obtain ⟨hfd, hnodup⟩ := List.nodup_cons.mp h.nodup
  refine ⟨hnodup, fun n g => ?_⟩
  rw [ht']
  by_cases hn : n = fd
  · subst hn
    rw [if_pos rfl]
    refine iff_of_false (fun hmem => hfd (List.mem_map.mpr ⟨_, hmem, rfl⟩)) ?_
    exact fun hg => hx g hg.1 hg.2
  · rw [if_neg hn, ← h.mem, List.mem_cons]
    simp [hn]

theorem close (h : Lists mine t ((fd, f) :: own)) : Lists mine (t.close fd) own :=
  h.drop (fun g hg => by cases hg) fun _ => file_close h.file_head

theorem give (h : Lists mine t ((fd, f) :: own)) (hg : ¬ mine g) : Lists mine (t.give fd g) own :=
  h.drop (fun _ hg' => Option.some.inj hg' ▸ hg) fun _ => file_give h.file_head

theorem close_other (h : Lists mine t own) (hfd : t.file fd = some f) (hf : ¬ mine f) :
    Lists mine (t.close fd) own := by
  refine ⟨h.nodup, fun n g => ?_⟩
  rw [h.mem, file_close hfd]
  by_cases hn : n = fd
  · subst hn
    rw [if_pos rfl, hfd]
    refine iff_of_false ?_ (by simp)
    rintro ⟨hg, hmine⟩
    obtain rfl := Option.some.inj hg
    exact hf hmine
  · rw [if_neg hn]

end Lists

end FileTable

end Netpoll
