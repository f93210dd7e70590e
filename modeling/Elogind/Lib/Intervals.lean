/-
  Elogind.Lib.Intervals

  Sets that are kept as lists of half-open intervals.  Intervals that overlap or are adjacent are joined, and in a list
  where none are, another interval is covered exactly if it is covered by one element.
-/

import Mathlib.Data.List.Pairwise
import Mathlib.Order.Interval.Set.LinearOrder

namespace Elogind.Lib

open List

/-- The elements from `lo` on that are less than `hi`. -/
structure HalfOpen (κ : Type) [LinearOrder κ] where
  lo : κ
  hi : κ
  le : lo ≤ hi

namespace HalfOpen

variable {κ : Type} [LinearOrder κ]

def toSet (x : HalfOpen κ) : Set κ := Set.Ico x.lo x.hi

/-- Two intervals overlap, or are adjacent. -/
def Touches (x y : HalfOpen κ) : Prop := x.lo ≤ y.hi ∧ y.lo ≤ x.hi

instance (x y : HalfOpen κ) : Decidable (x.Touches y) := inferInstanceAs (Decidable (_ ∧ _))

/-- The interval is before another one, with something between them. -/
def Before (x y : HalfOpen κ) : Prop := x.hi < y.lo

/-- The interval from the lower to the higher bound of two. -/
def join (x y : HalfOpen κ) : HalfOpen κ where
  lo := min x.lo y.lo
  hi := max x.hi y.hi
  le := (min_le_left _ _).trans (x.le.trans (le_max_left _ _))

/-- What is in one of the intervals. -/
def union (l : List (HalfOpen κ)) : Set κ := {a | ∃ x ∈ l, a ∈ x.toSet}

/-- Every interval is joined with those behind it that it touches, as far as the first one that it does not. -/
def coalesce : HalfOpen κ → List (HalfOpen κ) → List (HalfOpen κ)
  | x, [] => [x]
  | x, y :: l => if x.Touches y then coalesce (x.join y) l else x :: coalesce y l

/-- The intervals of a list, where those are joined that touch. -/
def coalesceAll : List (HalfOpen κ) → List (HalfOpen κ)
  | [] => []
  | x :: l => coalesce x l

theorem toSet_join {x y : HalfOpen κ} (h : x.Touches y) : (x.join y).toSet = x.toSet ∪ y.toSet :=
  (Set.Ico_union_Ico' h.2 h.1).symm

theorem union_cons (x : HalfOpen κ) (l : List (HalfOpen κ)) : union (x :: l) = x.toSet ∪ union l := by
  ext a
  unfold union
  simp only [Set.mem_ofPred_eq, mem_cons, exists_eq_or_imp, Set.mem_union]

theorem union_append (l m : List (HalfOpen κ)) : union (l ++ m) = union l ∪ union m := by
  ext a
  unfold union
  simp only [Set.mem_ofPred_eq, mem_append, or_and_right, exists_or, Set.mem_union]

theorem union_perm {l m : List (HalfOpen κ)} (h : l.Perm m) : union l = union m := by
  ext a
  unfold union
  simp only [Set.mem_ofPred_eq, h.mem_iff]

/-- The set does not change. -/
theorem union_coalesce (x : HalfOpen κ) (l : List (HalfOpen κ)) : union (coalesce x l) = union (x :: l) := by
  induction l generalizing x with
  | nil => rfl
  | cons y l ih =>
    unfold coalesce
    by_cases htouches : x.Touches y
    · rw [if_pos htouches, ih, union_cons, toSet_join htouches, union_cons, union_cons, Set.union_assoc]
    · rw [if_neg htouches, union_cons, ih, ← union_cons]

/-- An interval that does not begin before another one, nor touches it, is behind it. -/
theorem before_of_not_touches {x y : HalfOpen κ} (hlo : x.lo ≤ y.lo) (h : ¬ x.Touches y) : x.Before y := by
  by_contra hnot
  exact h ⟨hlo.trans y.le, not_lt.mp hnot⟩

theorem lo_le_of_mem_coalesce {x : HalfOpen κ} {l : List (HalfOpen κ)} (h : (x :: l).Pairwise fun x y => x.lo ≤ y.lo) :
    ∀ z ∈ coalesce x l, x.lo ≤ z.lo := by
  induction l generalizing x with
  | nil =>
    intro z hz
    rw [mem_singleton.mp hz]
  | cons y l ih =>
    obtain ⟨hx, hl⟩ := pairwise_cons.mp h
    have hxy := hx y (.head _)
    unfold coalesce
    by_cases htouches : x.Touches y
    · rw [if_pos htouches]
      have hjoin : (x.join y).lo = x.lo := min_eq_left hxy
      have hsorted : (x.join y :: l).Pairwise fun x y => x.lo ≤ y.lo := by
        refine pairwise_cons.mpr ⟨fun z hz => ?_, (pairwise_cons.mp hl).2⟩
        rw [hjoin]
        exact hx z (.tail _ hz)
      intro z hz
      rw [← hjoin]
      exact ih hsorted z hz
    · rw [if_neg htouches]
      intro z hz
      rcases mem_cons.mp hz with rfl | hz
      · exact le_refl _
      · exact hxy.trans (ih hl z hz)

/-- Of sorted intervals those remain that are before one another. -/
theorem coalesce_pairwise {x : HalfOpen κ} {l : List (HalfOpen κ)} (h : (x :: l).Pairwise fun x y => x.lo ≤ y.lo) :
    (coalesce x l).Pairwise Before := by
  induction l generalizing x with
  | nil => exact pairwise_singleton _ _
  | cons y l ih =>
    obtain ⟨hx, hl⟩ := pairwise_cons.mp h
    have hxy := hx y (.head _)
    unfold coalesce
    by_cases htouches : x.Touches y
    · rw [if_pos htouches]
      refine ih (pairwise_cons.mpr ⟨fun z hz => ?_, (pairwise_cons.mp hl).2⟩)
      exact (min_le_left _ _).trans (hx z (.tail _ hz))
    · rw [if_neg htouches]
      refine pairwise_cons.mpr ⟨fun z hz => ?_, ih hl⟩
      exact lt_of_lt_of_le (before_of_not_touches hxy htouches) (lo_le_of_mem_coalesce hl z hz)

theorem union_coalesceAll (l : List (HalfOpen κ)) : union (coalesceAll l) = union l := by
  cases l with
  | nil => rfl
  | cons x l => exact union_coalesce x l

theorem coalesceAll_pairwise {l : List (HalfOpen κ)} (h : l.Pairwise fun x y => x.lo ≤ y.lo) :
    (coalesceAll l).Pairwise Before := by
  cases l with
  | nil => exact .nil
  | cons x l => exact coalesce_pairwise h

/-- Of two different elements one is before the other one. -/
theorem before_or_before {l : List (HalfOpen κ)} (h : l.Pairwise Before) {x y : HalfOpen κ} (hx : x ∈ l) (hy : y ∈ l)
    (hne : x ≠ y) : x.Before y ∨ y.Before x := by
  have hsymm : Std.Symm fun x y : HalfOpen κ => x.Before y ∨ y.Before x := ⟨fun _ _ => Or.symm⟩
  have heither : l.Pairwise fun x y => x.Before y ∨ y.Before x := h.imp Or.inl
  exact heither.forall hx hy hne

/-- An interval that is not empty is covered exactly if it is covered by one element. -/
theorem subset_union_iff {l : List (HalfOpen κ)} (h : l.Pairwise Before) {a b : κ} (hab : a < b) :
    Set.Ico a b ⊆ union l ↔ ∃ x ∈ l, x.lo ≤ a ∧ b ≤ x.hi := by
  constructor
  · intro hsub
    obtain ⟨x, hx, hlo, hhi⟩ := hsub ⟨le_refl a, hab⟩
    refine ⟨x, hx, hlo, ?_⟩
    by_contra hb
    have hb : x.hi < b := not_le.mp hb
    -- The end of the element is not in it, and in no other one.
    obtain ⟨y, hy, hylo, hyhi⟩ := hsub ⟨hhi.le, hb⟩
    have hne : x ≠ y := by
      rintro rfl
      exact lt_irrefl _ hyhi
    rcases before_or_before h hx hy hne with hbefore | hbefore
    · exact absurd hylo (not_le.mpr hbefore)
    · exact absurd (hyhi.trans hbefore) (not_lt.mpr x.le)
  · rintro ⟨x, hx, hlo, hhi⟩ c ⟨hac, hcb⟩
    exact ⟨x, hx, hlo.trans hac, hcb.trans_le hhi⟩

end HalfOpen

end Elogind.Lib
