/-
  Elogind.Lib.FlagsFirst

  Lists in which the elements with a flag stand before those without it.  In such
  a list the first element tells whether any element has the flag.
-/

import Mathlib.Logic.Function.Basic

namespace Elogind.Lib

open Function

variable {α : Type}

/-- No element without the flag stands before one that has it. -/
def FlagsFirst (flag : α → Bool) (l : List α) : Prop :=
  l.Pairwise fun a b => flag b = true → flag a = true

namespace FlagsFirst

variable {flag flag' : α → Bool} {l : List α}

theorem nil : FlagsFirst flag [] := List.Pairwise.nil

theorem sublist {l' : List α} (h : FlagsFirst flag l) (hl : l'.Sublist l) : FlagsFirst flag l' :=
  List.Pairwise.sublist hl h

/-- Only the flags of the elements matter. -/
theorem congr (h : FlagsFirst flag l) (hf : ∀ a ∈ l, flag' a = flag a) : FlagsFirst flag' l := by
  refine List.Pairwise.imp_of_mem ?_ h
  intro a b ha hb hab
  rw [hf a ha, hf b hb]
  exact hab

theorem cons_flag (h : FlagsFirst flag l) {a : α} (ha : flag a = true) : FlagsFirst flag (a :: l) :=
  List.pairwise_cons.mpr ⟨fun _ _ _ => ha, h⟩

/-- The first element has the flag if any has it. -/
theorem head?_any (h : FlagsFirst flag l) :
    l.head?.any flag = true ↔ ∃ a ∈ l, flag a = true := by
  cases l with
  | nil => simp
  | cons b l =>
    constructor
    · intro hb
      exact ⟨b, List.mem_cons_self, hb⟩
    · rintro ⟨a, ha, hflag⟩
      rcases List.mem_cons.mp ha with rfl | ha
      · exact hflag
      · exact (List.pairwise_cons.mp h).1 a ha hflag

/-- Giving the flag to an element that has nothing without the flag before it. -/
theorem set [DecidableEq α] (h : FlagsFirst flag l) {d : α} (b : Bool)
    (hd : b = true → ∀ i, [i, d].Sublist l → flag i = true) :
    FlagsFirst (update flag d (flag d || b)) l := by
  refine List.pairwise_of_forall_sublist ?_
  intro i j hij hj
  have hold : flag j = true → flag i = true := h.forall_sublist hij
  by_cases hi : i = d
  · subst hi
    rw [update_self]
    by_cases hji : j = i
    · subst hji
      rwa [update_self] at hj
    · rw [update_of_ne hji] at hj
      rw [hold hj, Bool.true_or]
  · rw [update_of_ne hi]
    by_cases hjd : j = d
    · subst hjd
      rw [update_self, Bool.or_eq_true] at hj
      rcases hj with hj | hb
      · exact hold hj
      · exact hd hb i hij
    · rw [update_of_ne hjd] at hj
      exact hold hj

end FlagsFirst

end Elogind.Lib
