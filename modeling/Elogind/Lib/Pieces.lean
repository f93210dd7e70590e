/-
  Elogind.Lib.Pieces

  The pieces of a text between separators, with the places at which they begin, as far as they are kept.
-/

import Mathlib.Data.UInt

namespace Elogind.Lib.Pieces

open List

variable {α : Type} [DecidableEq α]

/-- The places at which parts begin that are one separator apart, when the first one begins here. -/
def locate : Nat → List (List α) → List (Nat × List α)
  | _, [] => []
  | i, s :: ss => (i, s) :: locate (i + s.length + 1) ss

/-- The pieces of a text that begins here. -/
def pieces (sep : α) (keep : List α → Bool) (i : Nat) (l : List α) : List (Nat × List α) :=
  (locate i (l.splitOn sep)).filter fun e => keep e.2

/-- The length of parts with a separator after each of them. -/
def extent (ss : List (List α)) : Nat := (ss.map fun s => s.length + 1).sum

variable {sep : α} {keep : List α → Bool}

omit [DecidableEq α] in
theorem locate_append (i : Nat) (ss ts : List (List α)) :
    locate i (ss ++ ts) = locate i ss ++ locate (i + extent ss) ts := by
  induction ss generalizing i with
  | nil => rfl
  | cons s ss ih =>
    have hextent : i + extent (s :: ss) = i + s.length + 1 + extent ss := by
      unfold extent
      rw [map_cons, sum_cons]
      omega
    rw [cons_append, locate, ih, hextent]
    rfl

/-- The text is either a single part, or there is a first part and a separator after it. -/
theorem single_or_split (sep : α) (l : List α) : sep ∉ l ∨ ∃ s t, l = s ++ sep :: t ∧ sep ∉ s := by
  by_cases h : sep ∈ l
  · obtain ⟨s, t, rfl, hs⟩ := eq_append_cons_of_mem h
    exact .inr ⟨s, t, rfl, hs⟩
  · exact .inl h

theorem extent_splitOn (sep : α) (l : List α) : extent (l.splitOn sep) = l.length + 1 := by
  induction hn : l.length using Nat.strongRecOn generalizing l with
  | _ n ih =>
    rcases single_or_split sep l with hsingle | ⟨s, t, rfl, hs⟩
    · rw [splitOn_eq_singleton hsingle, ← hn]
      rfl
    · rw [length_append, length_cons] at hn
      have ht := ih t.length (by omega) t rfl
      rw [splitOn_append_cons_self_of_not_mem hs]
      unfold extent at ht ⊢
      rw [map_cons, sum_cons, ht]
      omega

/-- The pieces before and after a separator. -/
theorem pieces_append (i : Nat) (l l' : List α) :
    pieces sep keep i (l ++ sep :: l') = pieces sep keep i l ++ pieces sep keep (i + l.length + 1) l' := by
  unfold pieces
  rw [splitOn_append_cons_self, locate_append, extent_splitOn, filter_append, Nat.add_assoc]

/-- A text without separators. -/
theorem pieces_single {l : List α} (hsep : sep ∉ l) (i : Nat) :
    pieces sep keep i l = if keep l then [(i, l)] else [] := by
  unfold pieces
  rw [splitOn_eq_singleton hsep, locate, locate, filter_singleton]
  cases keep l with
  | false => rfl
  | true => rfl

theorem pieces_cons_sep (hnil : keep [] = false) (i : Nat) (l : List α) :
    pieces sep keep i (sep :: l) = pieces sep keep (i + 1) l := by
  have happend : pieces sep keep i ([] ++ sep :: l) = pieces sep keep i [] ++ pieces sep keep (i + 1) l :=
    pieces_append i [] l
  rw [pieces_single not_mem_nil, hnil] at happend
  exact happend

/-- A last separator does not matter. -/
theorem pieces_concat_sep (hnil : keep [] = false) (i : Nat) (l : List α) :
    pieces sep keep i (l ++ [sep]) = pieces sep keep i l := by
  rw [pieces_append, pieces_single not_mem_nil, hnil]
  exact append_nil _

/-- All pieces move along with the text. -/
theorem pieces_add (i j : Nat) (l : List α) :
    pieces sep keep (i + j) l = (pieces sep keep i l).map fun e => (e.1 + j, e.2) := by
  have hlocate : ∀ (ss : List (List α)) (i : Nat),
      locate (i + j) ss = (locate i ss).map fun e => (e.1 + j, e.2) := by
    intro ss
    induction ss with
    | nil => exact fun _ => rfl
    | cons s ss ih =>
      intro i
      have hnext : i + j + s.length + 1 = i + s.length + 1 + j := by omega
      rw [locate, hnext, ih]
      rfl
  unfold pieces
  rw [hlocate, filter_map]
  rfl

/-- What the pieces are does not depend on where the text is. -/
theorem map_snd_pieces (i : Nat) (l : List α) :
    (pieces sep keep i l).map Prod.snd = (pieces sep keep 0 l).map Prod.snd := by
  have hadd : pieces sep keep (0 + i) l = (pieces sep keep 0 l).map fun e => (e.1 + i, e.2) := pieces_add 0 i l
  rw [Nat.zero_add] at hadd
  rw [hadd, map_map]
  rfl

/-- A piece is in the text, has no separator in it and is kept. -/
theorem of_mem_pieces {i : Nat} {l : List α} {e : Nat × List α} (he : e ∈ pieces sep keep i l) :
    (∃ s t, l = s ++ e.2 ++ t ∧ e.1 = i + s.length) ∧ sep ∉ e.2 ∧ keep e.2 = true := by
  induction hn : l.length using Nat.strongRecOn generalizing i l with
  | _ n ih =>
    have hsingle : ∀ {i : Nat} {l : List α}, sep ∉ l → e ∈ pieces sep keep i l → e = (i, l) ∧ keep l = true := by
      intro i l hl he
      rw [pieces_single hl] at he
      split at he
      · rename_i hkeep
        exact ⟨mem_singleton.mp he, hkeep⟩
      · cases he
    rcases single_or_split sep l with hl | ⟨s, t, rfl, hs⟩
    · obtain ⟨rfl, hkeep⟩ := hsingle hl he
      exact ⟨⟨[], [], by simp, rfl⟩, hl, hkeep⟩
    · rw [pieces_append, mem_append] at he
      rcases he with he | he
      · obtain ⟨rfl, hkeep⟩ := hsingle hs he
        exact ⟨⟨[], sep :: t, by simp, rfl⟩, hs, hkeep⟩
      · rw [length_append, length_cons] at hn
        obtain ⟨⟨s', t', ht, hplace⟩, hrest⟩ := ih t.length (by omega) he rfl
        refine ⟨⟨s ++ sep :: s', t', ?_, ?_⟩, hrest⟩
        · rw [ht, append_assoc, append_assoc, append_assoc, cons_append]
        · rw [hplace, length_append, length_cons]
          omega

/-- Texts with a separator between them have themselves as their pieces. -/
theorem map_snd_pieces_intercalate {ss : List (List α)} (hss : ∀ s ∈ ss, sep ∉ s ∧ keep s = true)
    (hnil : keep [] = false) (i : Nat) : (pieces sep keep i ([sep].intercalate ss)).map Prod.snd = ss := by
  induction ss generalizing i with
  | nil =>
    rw [intercalate_nil, pieces_single not_mem_nil, hnil]
    rfl
  | cons s ss ih =>
    obtain ⟨hs, hkeep⟩ := hss s mem_cons_self
    cases ss with
    | nil =>
      rw [intercalate_singleton, pieces_single hs, hkeep]
      rfl
    | cons t ss =>
      have hrest := ih (fun u hu => hss u (mem_cons_of_mem _ hu)) (i + s.length + 1)
      rw [intercalate_cons_cons, append_assoc, singleton_append, pieces_append, pieces_single hs, hkeep,
        map_append, hrest]
      rfl

end Elogind.Lib.Pieces
