/-
  Elogind.Basic.StringUtil

  The functions of the C library that order texts.  Only the sign of their result is specified, so that is
  what they return here.
-/

import Elogind.Basic.Bytes

namespace Elogind

open List

/-- The order of texts, as `strcmp` tells it. -/
def strcmp (s t : Bytes) : Ordering := if s < t then .lt else if t < s then .gt else .eq

/-- `startswith`: what follows `initial`. -/
def startswith (s initial : Bytes) : Option Bytes :=
  if initial.isPrefixOf s then some (s.drop initial.length) else none

/-- `memcmp` -/
def memcmp (s t : Bytes) (n : Nat) : Ordering := strcmp (s.take n) (t.take n)

theorem strcmp_swap (s t : Bytes) : strcmp t s = (strcmp s t).swap := by
  unfold strcmp
  by_cases hlt : s < t
  · rw [if_neg (List.lt_asymm hlt), if_pos hlt, if_pos hlt]
    rfl
  · by_cases hgt : t < s
    · rw [if_pos hgt, if_neg hlt, if_pos hgt]
      rfl
    · rw [if_neg hgt, if_neg hlt, if_neg hlt, if_neg hgt]
      rfl

theorem strcmp_ne_gt {s t : Bytes} : strcmp s t ≠ .gt ↔ s ≤ t := by
  unfold strcmp
  by_cases hlt : s < t
  · rw [if_pos hlt]
    exact iff_of_true (by decide) (List.le_of_lt hlt)
  · by_cases hgt : t < s
    · rw [if_neg hlt, if_pos hgt]
      exact iff_of_false (fun h => h rfl) (fun h => h hgt)
    · rw [if_neg hlt, if_neg hgt]
      exact iff_of_true (by decide) hgt

theorem strcmp_eq_iff {s t : Bytes} : strcmp s t = .eq ↔ t = s := by
  unfold strcmp
  by_cases hlt : s < t
  · rw [if_pos hlt]
    refine iff_of_false (by decide) ?_
    rintro rfl
    exact List.lt_irrefl _ hlt
  · by_cases hgt : t < s
    · rw [if_neg hlt, if_pos hgt]
      refine iff_of_false (by decide) ?_
      rintro rfl
      exact List.lt_irrefl _ hgt
    · rw [if_neg hlt, if_neg hgt]
      exact iff_of_true rfl (List.le_antisymm hlt hgt)

/-- Texts are in a linear order. -/
instance : Std.TransCmp strcmp where
  eq_swap {s t} := strcmp_swap t s
  isLE_trans {s t u} hst htu := by
    rw [Ordering.isLE_iff_ne_gt] at hst htu ⊢
    exact strcmp_ne_gt.mpr (List.le_trans (strcmp_ne_gt.mp hst) (strcmp_ne_gt.mp htu))

theorem strcmp_isLE_trans {s t u : Bytes} (hst : (strcmp s t).isLE) (htu : (strcmp t u).isLE) : (strcmp s u).isLE :=
  Std.TransCmp.isLE_trans hst htu

@[simp] theorem strcmp_nil_cons (d : UInt8) (t : Bytes) : strcmp [] (d :: t) = .lt := if_pos (nil_lt_cons d t)

@[simp] theorem strcmp_cons_nil (c : UInt8) (s : Bytes) : strcmp (c :: s) [] = .gt := by
  rfl

theorem strcmp_of_lt {c d : UInt8} (h : c < d) (s t : Bytes) : strcmp (c :: s) (d :: t) = .lt :=
  if_pos (cons_lt_cons_iff.mpr (.inl h))

theorem strcmp_of_gt {c d : UInt8} (h : d < c) (s t : Bytes) : strcmp (c :: s) (d :: t) = .gt := by
  rw [strcmp_swap, strcmp_of_lt h]
  rfl

/-- A common first character does not matter. -/
@[simp] theorem strcmp_cons_self (c : UInt8) (s t : Bytes) : strcmp (c :: s) (c :: t) = strcmp s t := by
  have hcons : ∀ s t : Bytes, c :: s < c :: t ↔ s < t := fun s t => by
    rw [cons_lt_cons_iff]
    exact or_iff_right (UInt8.lt_irrefl c) |>.trans (and_iff_right rfl)
  unfold strcmp
  rw [if_congr (hcons s t) rfl (if_congr (hcons t s) rfl rfl)]

/-- Comparing up to the length of the shorter one and then the lengths is comparing the texts. -/
theorem memcmp_then_compare (s t : Bytes) :
    (memcmp s t (min s.length t.length)).then (compare s.length t.length) = strcmp s t := by
  unfold memcmp
  induction s generalizing t with
  | nil =>
    cases t with
    | nil => rfl
    | cons d t =>
      exact Nat.compare_eq_lt.mpr (Nat.zero_lt_succ _)
  | cons c s ih =>
    cases t with
    | nil =>
      exact Nat.compare_eq_gt.mpr (Nat.zero_lt_succ _)
    | cons d t =>
      have hmin : min (c :: s).length (d :: t).length = min s.length t.length + 1 := Nat.succ_min_succ _ _
      rw [hmin, take_succ_cons, take_succ_cons]
      by_cases hne : c ≠ d
      · rcases UInt8.lt_or_lt_of_ne hne with hlt | hgt
        · rw [strcmp_of_lt hlt, strcmp_of_lt hlt]
          rfl
        · rw [strcmp_of_gt hgt, strcmp_of_gt hgt]
          rfl
      · obtain rfl := not_not.mp hne
        rw [strcmp_cons_self, strcmp_cons_self, ← ih t]
        have hlengths : compare (c :: s).length (c :: t).length = compare s.length t.length := by
          rw [length_cons, length_cons, Nat.compare_eq_ite_lt, Nat.compare_eq_ite_lt]
          simp only [Nat.add_lt_add_iff_right]
        rw [hlengths]

end Elogind
