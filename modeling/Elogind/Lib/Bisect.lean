/-
  Elogind.Lib.Bisect

  Bisection of a list in which a comparison tells for each value whether what is looked for is before it, behind
  it, or there: what is found is what a search from the start would find.
-/

import Mathlib.Data.List.Pairwise

namespace Elogind.Lib

variable {α : Type}

/-- The loop of a bisection between two indices. -/
def bisect (cmp : α → Ordering) (l : List α) (a b : Nat) : Option α :=
  if _h : a < b then
    match l[(a + b) / 2]? with
    | none => none
    | some x =>
      match cmp x with
      | .eq => some x
      | .lt => bisect cmp l a ((a + b) / 2)
      | .gt => bisect cmp l ((a + b) / 2 + 1) b
  else none
termination_by b - a

/-- What is looked for is behind all values before one that it is not behind. -/
def Directs (cmp : α → Ordering) (l : List α) : Prop := l.Pairwise fun x y => cmp x ≠ .gt → cmp y = .lt

namespace Directs

variable {cmp : α → Ordering} {l : List α}

theorem lt_of_lt (h : Directs cmp l) {i j : Nat} (hj : j < l.length) (hij : i < j) (hi : cmp (l[i]) ≠ .gt) :
    cmp (l[j]) = .lt :=
  List.pairwise_iff_getElem.mp h i j (Nat.lt_trans hij hj) hj hij hi

/-- Where one value is found, there is no other one. -/
theorem eq_of_eq (h : Directs cmp l) {i j : Nat} (hi : i < l.length) (hj : j < l.length) (hieq : cmp (l[i]) = .eq)
    (hjeq : cmp (l[j]) = .eq) : i = j := by
  rcases Nat.lt_trichotomy i j with hij | hij | hij
  · have hlt := h.lt_of_lt hj hij (by rw [hieq]; decide)
    rw [hjeq] at hlt
    cases hlt
  · exact hij
  · have hlt := h.lt_of_lt hi hij (by rw [hjeq]; decide)
    rw [hieq] at hlt
    cases hlt

/-- A value that is found is the first one from the start. -/
theorem find?_of_eq (h : Directs cmp l) {i : Nat} (hi : i < l.length) (heq : cmp (l[i]) = .eq) :
    l.find? (fun x => cmp x = .eq) = some l[i] := by
  cases hfind : l.find? fun x => cmp x = .eq with
  | none =>
    have hnone := List.find?_eq_none.mp hfind (l[i]) (List.getElem_mem hi)
    exact absurd (decide_eq_true heq) hnone
  | some x =>
    have hx : cmp x = .eq := by simpa using List.find?_some hfind
    obtain ⟨j, hj, rfl⟩ := List.getElem_of_mem (List.mem_of_find?_eq_some hfind)
    obtain rfl := h.eq_of_eq hj hi hx heq
    rfl

/-- The loop invariant: what is before the first index is too small, and what is from the second one on too
    great. -/
theorem bisect_eq (h : Directs cmp l) {a b : Nat} (hb : b ≤ l.length)
    (hbefore : ∀ i (hi : i < l.length), i < a → cmp (l[i]) = .gt)
    (hbehind : ∀ i (hi : i < l.length), b ≤ i → cmp (l[i]) = .lt) :
    bisect cmp l a b = l.find? fun x => cmp x = .eq := by
  fun_induction bisect cmp l a b with
  | case1 a b hab hnone =>
    rw [List.getElem?_eq_none_iff] at hnone
    omega
  | case2 a b hab x hx heq =>
    obtain ⟨hi, rfl⟩ := List.getElem?_eq_some_iff.mp hx
    exact (h.find?_of_eq hi heq).symm
  | case3 a b hab x hx hlt ih =>
    obtain ⟨hi, rfl⟩ := List.getElem?_eq_some_iff.mp hx
    refine ih (by omega) hbefore fun j hj hij => ?_
    rcases Nat.eq_or_lt_of_le hij with rfl | hij
    · exact hlt
    · exact h.lt_of_lt hj hij (by rw [hlt]; decide)
  | case4 a b hab x hx hgt ih =>
    obtain ⟨hi, rfl⟩ := List.getElem?_eq_some_iff.mp hx
    refine ih hb (fun j hj hij => ?_) hbehind
    rcases Nat.eq_or_lt_of_le (Nat.le_of_lt_succ hij) with rfl | hij
    · exact hgt
    · -- a value before this one that is not too small would have it too great
      by_contra hne
      have hlt := h.lt_of_lt hi hij hne
      rw [hgt] at hlt
      cases hlt
  | case5 a b hab =>
    symm
    rw [List.find?_eq_none]
    intro x hx
    obtain ⟨i, hi, rfl⟩ := List.getElem_of_mem hx
    rcases Nat.lt_or_ge i a with hia | hia
    · rw [hbefore i hi hia]
      decide
    · rw [hbehind i hi (by omega)]
      decide

/-- Bisection of the whole list finds what a search from the start does. -/
theorem bisect_eq_find? (h : Directs cmp l) : bisect cmp l 0 l.length = l.find? fun x => cmp x = .eq :=
  h.bisect_eq (Nat.le_refl _) (fun _ _ hi => absurd hi (Nat.not_lt_zero _))
    fun _ hi hle => absurd hi (Nat.not_lt.mpr hle)

end Directs

end Elogind.Lib
