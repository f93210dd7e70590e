/-
  Elogind.Lib.Elect

  The election of a least element: a fold over candidates that replaces the one that was chosen where another one is
  strictly less.
-/

import Mathlib.Order.Lattice

namespace Elogind.Lib

variable {α κ : Type} [LinearOrder κ]

/-- The candidate that is chosen, where `c` is chosen at first. -/
def elect (key : α → κ) (c : α) (l : List α) : α := l.foldl (fun c x => if key x < key c then x else c) c

theorem elect_cons (key : α → κ) (c x : α) (l : List α) :
    elect key c (x :: l) = elect key (if key x < key c then x else c) l := rfl

theorem elect_le_first (key : α → κ) (c : α) (l : List α) : key (elect key c l) ≤ key c := by
  induction l generalizing c with
  | nil => exact le_refl _
  | cons x l ih =>
    rw [elect_cons]
    refine (ih _).trans ?_
    by_cases hlt : key x < key c
    · rw [if_pos hlt]
      exact hlt.le
    · rw [if_neg hlt]

/-- No candidate is less than the one that is chosen. -/
theorem elect_le (key : α → κ) (c : α) (l : List α) : ∀ x ∈ l, key (elect key c l) ≤ key x := by
  induction l generalizing c with
  | nil => exact nofun
  | cons y l ih =>
    intro x hx
    rw [elect_cons]
    rcases List.mem_cons.mp hx with rfl | hx
    · refine (elect_le_first key _ l).trans ?_
      by_cases hlt : key x < key c
      · rw [if_pos hlt]
      · rw [if_neg hlt]
        exact not_lt.mp hlt
    · exact ih _ x hx

/-- The first choice stays where no candidate is less. -/
theorem elect_eq_first {key : α → κ} {c : α} {l : List α} (h : ∀ x ∈ l, ¬ key x < key c) : elect key c l = c := by
  induction l with
  | nil => rfl
  | cons x l ih =>
    rw [elect_cons, if_neg (h x (.head _))]
    exact ih fun y hy => h y (.tail _ hy)

end Elogind.Lib
