/-
  Elogind.Lib.Window

  A window that slides over a block of memory: what is in use starts at an index and has a size.  It is written
  at its end and taken away at its front, the block is enlarged or replaced by another one, and what is in the
  window is all that matters.
-/

import Mathlib.Data.List.Basic

namespace Elogind.Lib

open List

variable {α : Type}

/-! ## Memory -/

/-- `m` with `xs` from this place on. -/
def overwrite (m : List α) (place : Nat) (xs : List α) : List α := m.take place ++ xs ++ m.drop (place + xs.length)

theorem length_overwrite {m xs : List α} {place : Nat} (h : place + xs.length ≤ m.length) :
    (overwrite m place xs).length = m.length := by
  unfold overwrite
  rw [length_append, length_append, length_take, length_drop]
  omega

/-- Up to the place and behind what is written, nothing is changed. -/
theorem take_overwrite {m xs : List α} {place : Nat} (h : place + xs.length ≤ m.length) :
    (overwrite m place xs).take (place + xs.length) = m.take place ++ xs := by
  unfold overwrite
  have hlength : (m.take place ++ xs).length = place + xs.length := by
    rw [length_append, length_take]
    omega
  rw [take_append_of_le_length (by omega), ← hlength, take_length]

/-- New memory for `n` values and some more, with whatever is in it. -/
def allocate (n slack : Nat) (junk : Nat → α) : List α := (List.range (n + slack)).map junk

theorem length_allocate (n slack : Nat) (junk : Nat → α) : (allocate n slack junk).length = n + slack := by
  unfold allocate
  rw [length_map, length_range]

/-- The block itself if it is large enough for `n` values, or else a larger one with the same in front. -/
def greedyRealloc (m : List α) (n slack : Nat) (junk : Nat → α) : List α :=
  if n ≤ m.length then m else m ++ allocate (n - m.length) slack junk

theorem length_greedyRealloc (m : List α) (n slack : Nat) (junk : Nat → α) :
    n ≤ (greedyRealloc m n slack junk).length ∧ m.length ≤ (greedyRealloc m n slack junk).length := by
  unfold greedyRealloc
  split_ifs with h
  · exact ⟨h, Nat.le_refl _⟩
  · rw [length_append, length_allocate]
    omega

theorem prefix_greedyRealloc (m : List α) (n slack : Nat) (junk : Nat → α) : m <+: greedyRealloc m n slack junk := by
  unfold greedyRealloc
  split_ifs
  · exact prefix_refl m
  · exact prefix_append _ _

/-! ## Windows -/

/-- A block of memory, of which `size` values from `index` on are in use. -/
structure Window (α : Type) where
  memory : List α
  index : Nat
  size : Nat

namespace Window

variable {w : Window α} {xs : List α}

/-- What is in use. -/
def contents (w : Window α) : List α := (w.memory.drop w.index).take w.size

/-- The window is within the memory. -/
def Fits (w : Window α) : Prop := w.index + w.size ≤ w.memory.length

/-- A window over nothing. -/
def empty : Window α := ⟨[], 0, 0⟩

theorem fits_empty : (empty : Window α).Fits := Nat.le_refl 0

theorem contents_empty : (empty : Window α).contents = [] := rfl

theorem length_contents (h : w.Fits) : w.contents.length = w.size := by
  unfold contents
  unfold Fits at h
  rw [length_take, length_drop]
  omega

theorem contents_of_size_zero (h : w.size = 0) : w.contents = [] := by
  unfold contents
  rw [h, take_zero]

/-- What is in use, and behind it. -/
theorem drop_memory (w : Window α) : w.memory.drop w.index = w.contents ++ w.memory.drop (w.index + w.size) := by
  unfold contents
  rw [← drop_drop, take_append_drop]

/-- A window over this alone. -/
def ofList (xs : List α) : Window α := ⟨xs, 0, xs.length⟩

theorem fits_ofList (xs : List α) : (ofList xs).Fits := Nat.le_of_eq (Nat.zero_add xs.length)

theorem contents_ofList (xs : List α) : (ofList xs).contents = xs := by
  unfold contents ofList
  rw [drop_zero, take_length]

/-! ## Writing and taking -/

/-- Write behind what is in use. -/
def write (w : Window α) (xs : List α) : Window α :=
  { w with memory := overwrite w.memory (w.index + w.size) xs, size := w.size + xs.length }

theorem fits_write (h : w.index + w.size + xs.length ≤ w.memory.length) : (w.write xs).Fits := by
  show w.index + (w.size + xs.length) ≤ (overwrite w.memory (w.index + w.size) xs).length
  rw [length_overwrite h]
  omega

theorem contents_write (h : w.index + w.size + xs.length ≤ w.memory.length) :
    (w.write xs).contents = w.contents ++ xs := by
  have htake := take_overwrite h
  have hdrop := congrArg (drop w.index) htake
  rw [drop_take, drop_append_of_le_length (by rw [length_take]; omega), drop_take] at hdrop
  have hsize : w.index + w.size + xs.length - w.index = w.size + xs.length := by omega
  have hsize' : w.index + w.size - w.index = w.size := by omega
  rw [hsize, hsize'] at hdrop
  exact hdrop

/-- Take `n` values away from the front, and begin again with the memory when nothing is left. -/
def consume (w : Window α) (n : Nat) : Window α :=
  { w with size := w.size - n, index := if w.size - n = 0 then 0 else w.index + n }

theorem contents_consume (h : w.Fits) (n : Nat) : (w.consume n).contents = w.contents.drop n := by
  have hlength := length_contents h
  by_cases hall : w.size - n = 0
  · rw [contents_of_size_zero hall, drop_eq_nil_of_le (by omega)]
  · unfold contents consume
    rw [if_neg hall, drop_take, drop_drop]

theorem fits_consume (h : w.Fits) {n : Nat} (hn : n ≤ w.size) : (w.consume n).Fits := by
  unfold Fits at h
  unfold Fits consume
  simp only
  split_ifs with hall
  · omega
  · omega

/-! ## Other memory -/

/-- Have space for `n` values from the start of the memory. -/
def enlarge (w : Window α) (n slack : Nat) (junk : Nat → α) : Window α :=
  { w with memory := greedyRealloc w.memory n slack junk }

theorem fits_enlarge (h : w.Fits) (n slack : Nat) (junk : Nat → α) : (w.enlarge n slack junk).Fits :=
  Nat.le_trans h (length_greedyRealloc w.memory n slack junk).2

theorem contents_enlarge (h : w.Fits) (n slack : Nat) (junk : Nat → α) :
    (w.enlarge n slack junk).contents = w.contents := by
  obtain ⟨rest, hrest⟩ := prefix_greedyRealloc w.memory n slack junk
  unfold Fits at h
  unfold contents enlarge
  simp only
  rw [← hrest, drop_append_of_le_length (by omega), take_append_of_le_length]
  rw [length_drop]
  omega

/-- Copy what is in use to the front of new memory for `n` values. -/
def copyTo (w : Window α) (n slack : Nat) (junk : Nat → α) : Window α :=
  ⟨overwrite (allocate n slack junk) 0 w.contents, 0, w.size⟩

theorem length_copyTo (h : w.Fits) {n : Nat} (hn : w.size ≤ n) (slack : Nat) (junk : Nat → α) :
    (w.copyTo n slack junk).memory.length = n + slack := by
  have hlength := length_contents h
  unfold copyTo
  rw [length_overwrite, length_allocate]
  rw [length_allocate]
  omega

theorem fits_copyTo (h : w.Fits) {n : Nat} (hn : w.size ≤ n) (slack : Nat) (junk : Nat → α) :
    (w.copyTo n slack junk).Fits := by
  show 0 + w.size ≤ (w.copyTo n slack junk).memory.length
  rw [length_copyTo h hn]
  omega

theorem contents_copyTo (h : w.Fits) {n : Nat} (hn : w.size ≤ n) (slack : Nat) (junk : Nat → α) :
    (w.copyTo n slack junk).contents = w.contents := by
  have hlength := length_contents h
  have hroom : 0 + w.contents.length ≤ (allocate n slack junk).length := by
    rw [length_allocate]
    omega
  have htake := take_overwrite hroom
  rw [Nat.zero_add, hlength, take_zero, nil_append] at htake
  exact htake

end Window

end Elogind.Lib
