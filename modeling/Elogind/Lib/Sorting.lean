/-
  Elogind.Lib.Sorting

  Sorting with a comparison function, as `qsort` is documented: the result has the same elements, and it is
  in order if the comparison is a consistent one on them.  The order of elements that compare as equal is
  left open.
-/

import Mathlib.Data.List.Pairwise
import Mathlib.Data.List.Perm.Basic

namespace Elogind.Lib

open List

/-- The function compares these elements like a total preorder. -/
structure Consistent {α : Type} (cmp : α → α → Ordering) (l : List α) : Prop where
  swap : ∀ a ∈ l, ∀ b ∈ l, cmp b a = (cmp a b).swap
  trans : ∀ a ∈ l, ∀ b ∈ l, ∀ c ∈ l, cmp a b ≠ .gt → cmp b c ≠ .gt → cmp a c ≠ .gt

/-- A function for sorting. -/
structure Sorter where
  sort {α : Type} : (α → α → Ordering) → List α → List α
  perm {α : Type} (cmp : α → α → Ordering) (l : List α) : (sort cmp l).Perm l
  ordered {α : Type} {cmp : α → α → Ordering} {l : List α} (h : Consistent cmp l) :
    (sort cmp l).Pairwise fun a b => cmp a b ≠ .gt

/-- A comparison on elements in strictly ascending order is a consistent one. -/
theorem consistent_of_pairwise {α : Type} {cmp : α → α → Ordering} {l : List α}
    (hswap : ∀ a ∈ l, ∀ b ∈ l, cmp b a = (cmp a b).swap) (h : l.Pairwise fun a b => cmp a b = .lt) :
    Consistent cmp l := by
  refine ⟨hswap, ?_⟩
  induction h with
  | nil =>
    intro a ha
    exact absurd ha not_mem_nil
  | @cons x l hx hl ih =>
    have hself : ∀ a ∈ x :: l, cmp a a = .eq := by
      intro a ha
      have hsym := hswap a ha a ha
      cases hc : cmp a a with
      | eq => rfl
      | lt | gt =>
        rw [hc] at hsym
        cases hsym
    have hgt : ∀ b ∈ l, cmp b x = .gt := by
      intro b hb
      rw [hswap x mem_cons_self b (mem_cons_of_mem x hb), hx b hb]
      rfl
    have ih' := ih fun a ha b hb => hswap a (mem_cons_of_mem x ha) b (mem_cons_of_mem x hb)
    have hhead : ∀ a ∈ x :: l, cmp a x ≠ .gt → a = x := by
      intro a ha hax
      obtain ha | ha := mem_cons.mp ha
      · exact ha
      · exact absurd (hgt a ha) hax
    have hleast : ∀ c ∈ x :: l, cmp x c ≠ .gt := by
      intro c hc
      obtain rfl | hc := mem_cons.mp hc
      · rw [hself c mem_cons_self]
        decide
      · rw [hx c hc]
        decide
    intro a ha b hb c hc hab hbc
    obtain rfl | ha' := mem_cons.mp ha
    · exact hleast c hc
    · obtain rfl | hb' := mem_cons.mp hb
      · obtain rfl := hhead a ha hab
        exact hbc
      · obtain rfl | hc' := mem_cons.mp hc
        · obtain rfl := hhead b hb hbc
          exact hab
        · exact ih' a ha' b hb' c hc' hab hbc

/-- Of two different elements, one is before the other one. -/
theorem lt_or_lt_of_pairwise {α : Type} {cmp : α → α → Ordering} {l : List α}
    (h : l.Pairwise fun a b => cmp a b = .lt) {a b : α} (ha : a ∈ l) (hb : b ∈ l) (hne : a ≠ b) :
    cmp a b = .lt ∨ cmp b a = .lt := by
  have hsymm : Std.Symm fun a b => cmp a b = .lt ∨ cmp b a = .lt := ⟨fun _ _ => Or.symm⟩
  have heither : l.Pairwise fun a b => cmp a b = .lt ∨ cmp b a = .lt := h.imp Or.inl
  exact heither.forall ha hb hne

namespace Sorter

/-- What is in strictly ascending order stays as it is. -/
theorem sort_eq_self (q : Sorter) {α : Type} {cmp : α → α → Ordering} {l : List α}
    (hswap : ∀ a ∈ l, ∀ b ∈ l, cmp b a = (cmp a b).swap) (h : l.Pairwise fun a b => cmp a b = .lt) :
    q.sort cmp l = l := by
  have hperm := q.perm cmp l
  have hordered := q.ordered (consistent_of_pairwise hswap h)
  have hself : l.Pairwise fun a b => cmp a b ≠ .gt := by
    refine h.imp ?_
    intro a b hab
    rw [hab]
    decide
  refine Perm.eq_of_pairwise ?_ hordered hself hperm
  intro a b ha hb hab hba
  by_contra hne
  have ha' := hperm.mem_iff.mp ha
  obtain hlt | hlt := lt_or_lt_of_pairwise h ha' hb hne
  · rw [hswap a ha' b hb, hlt] at hba
    exact hba rfl
  · rw [hswap b hb a ha', hlt] at hab
    exact hab rfl

/-! ## Insertion sort -/

variable {α : Type}

/-- An element before the first one that is not before it. -/
def insert (cmp : α → α → Ordering) (x : α) : List α → List α
  | [] => [x]
  | y :: ys => if cmp x y = .gt then y :: insert cmp x ys else x :: y :: ys

theorem insert_perm (cmp : α → α → Ordering) (x : α) (l : List α) : (insert cmp x l).Perm (x :: l) := by
  induction l with
  | nil => exact Perm.refl _
  | cons y ys ih =>
    rw [insert]
    split
    · exact (ih.cons y).trans (Perm.swap x y ys)
    · exact Perm.refl _

theorem insert_ordered {cmp : α → α → Ordering} {x : α} {l : List α} (h : Consistent cmp (x :: l))
    (hl : l.Pairwise fun a b => cmp a b ≠ .gt) : (insert cmp x l).Pairwise fun a b => cmp a b ≠ .gt := by
  induction l with
  | nil => exact pairwise_singleton _ _
  | cons y ys ih =>
    obtain ⟨hy, hys⟩ := pairwise_cons.mp hl
    have hx : x ∈ x :: y :: ys := mem_cons_self
    have hmem : y ∈ x :: y :: ys := mem_cons_of_mem x mem_cons_self
    rw [insert]
    split
    · rename_i hgt
      have hsub : ∀ a ∈ x :: ys, a ∈ x :: y :: ys := by
        intro a ha
        obtain rfl | ha := mem_cons.mp ha
        · exact hx
        · exact mem_cons_of_mem x (mem_cons_of_mem y ha)
      have hrest : Consistent cmp (x :: ys) :=
        ⟨fun a ha b hb => h.swap a (hsub a ha) b (hsub b hb),
          fun a ha b hb c hc => h.trans a (hsub a ha) b (hsub b hb) c (hsub c hc)⟩
      refine pairwise_cons.mpr ⟨fun z hz => ?_, ih hrest hys⟩
      obtain rfl | hz := mem_cons.mp ((insert_perm cmp x ys).mem_iff.mp hz)
      · rw [h.swap z hx y hmem, hgt]
        decide
      · exact hy z hz
    · rename_i hle
      refine pairwise_cons.mpr ⟨fun z hz => ?_, hl⟩
      obtain rfl | hz := mem_cons.mp hz
      · exact hle
      · exact h.trans x hx y hmem z (mem_cons_of_mem x (mem_cons_of_mem y hz)) hle (hy z hz)

def insertionSort (cmp : α → α → Ordering) : List α → List α
  | [] => []
  | x :: xs => insert cmp x (insertionSort cmp xs)

theorem insertionSort_perm (cmp : α → α → Ordering) (l : List α) : (insertionSort cmp l).Perm l := by
  induction l with
  | nil => exact Perm.refl _
  | cons x xs ih => exact (insert_perm cmp x _).trans (ih.cons x)

theorem insertionSort_ordered {cmp : α → α → Ordering} {l : List α} (h : Consistent cmp l) :
    (insertionSort cmp l).Pairwise fun a b => cmp a b ≠ .gt := by
  induction l with
  | nil => exact Pairwise.nil
  | cons x xs ih =>
    have hmem : ∀ a ∈ x :: insertionSort cmp xs, a ∈ x :: xs := fun a ha =>
      ((insertionSort_perm cmp xs).cons x).mem_iff.mp ha
    refine insert_ordered ⟨fun a ha b hb => h.swap a (hmem a ha) b (hmem b hb),
      fun a ha b hb c hc => h.trans a (hmem a ha) b (hmem b hb) c (hmem c hc)⟩ (ih ⟨?_, ?_⟩)
    · exact fun a ha b hb => h.swap a (mem_cons_of_mem x ha) b (mem_cons_of_mem x hb)
    · exact fun a ha b hb c hc =>
        h.trans a (mem_cons_of_mem x ha) b (mem_cons_of_mem x hb) c (mem_cons_of_mem x hc)

/-- Insertion sort. -/
def insertion : Sorter where
  sort := insertionSort
  perm := insertionSort_perm
  ordered := insertionSort_ordered

end Sorter

end Elogind.Lib
