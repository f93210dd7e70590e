/-
  Elogind.Basic.SetStrjoin

  Joining the strings of a set (`set_strjoin` of hashmap.c).

  The set is the list of its strings in the order in which they are visited.  Of every write it is recorded
  where it ends and how large the buffer is at that moment; a NULL pointer is a buffer without any room.
-/

import Elogind.Basic.Bytes

namespace Elogind

open List

/-- The size of a buffer of characters after `GREEDY_REALLOC`. -/
def greedySize (size need : Nat) : Nat := if size ≠ 0 ∧ need ≤ size then size else max (2 * need) 64

/-- The variables of the loop, and the writes so far. -/
structure StrJoin where
  size : Nat
  str : Bytes
  first : Bool
  writes : List (Nat × Nat)
  deriving DecidableEq, Repr

namespace StrJoin

/-- `memcpy` to the end of the string -/
def write (j : StrJoin) (b : Bytes) : StrJoin :=
  { j with str := j.str ++ b, writes := (j.str.length + b.length, j.size) :: j.writes }

/-- One round of the loop. -/
def add (separator : Bytes) (wrap : Bool) (j : StrJoin) (value : Bytes) : StrJoin :=
  if value = [] then j
  else
    let j := { j with
      size := greedySize j.size (j.str.length + value.length + (if j.first then 0 else separator.length) +
        (if wrap then separator.length else 0) + 1) }
    let j := if 0 < separator.length ∧ !j.first then j.write separator else j
    { j.write value with first := false }

end StrJoin

/-- `set_strjoin`: what is returned through `ret`, and the writes. -/
def setStrjoin (s : List Bytes) (separator : Option Bytes) (wrapWithSeparator : Bool) :
    Option Bytes × List (Nat × Nat) :=
  if s = [] then (none, [])
  else
    let separator := separator.getD []
    let wrap := wrapWithSeparator && separator.length != 0
    let j := s.foldl (StrJoin.add separator wrap) ⟨0, [], !wrap, []⟩
    let j := if wrap then j.write separator else j
    (some j.str, (j.str.length + 1, j.size) :: j.writes)

/-- The strings with the separator between them or, if they are wrapped, also at both ends. -/
def joined (separator : Bytes) (wrap : Bool) (ws : List Bytes) : Bytes :=
  if wrap then separator ++ ws.flatMap (· ++ separator) else separator.intercalate ws

namespace StrJoin

variable {separator : Bytes} {wrap : Bool} {j : StrJoin}

/-- All writes end within the buffer. -/
def Inside (j : StrJoin) : Prop := ∀ w ∈ j.writes, w.1 ≤ w.2

/-- There is room for what is written after the loop. -/
def Room (separator : Bytes) (wrap : Bool) (j : StrJoin) : Prop :=
  j.str.length + (if wrap then separator.length else 0) + 1 ≤ j.size

theorem le_greedySize (size need : Nat) : need ≤ greedySize size need := by
  unfold greedySize
  split <;> omega

theorem Inside.write (h : j.Inside) {b : Bytes} (hb : j.str.length + b.length ≤ j.size) : (j.write b).Inside := by
  intro w hw
  cases hw with
  | head => exact hb
  | tail _ hw => exact h w hw

/-- A string that is not empty is added with its separator, and leaves room for the end. -/
theorem add_spec {v : Bytes} (hv : v ≠ []) (h : j.Inside) :
    (j.add separator wrap v).Inside ∧ (j.add separator wrap v).Room separator wrap ∧
      (j.add separator wrap v).first = false ∧
      (j.add separator wrap v).str = j.str ++ (if j.first then [] else separator) ++ v := by
  have hsize := le_greedySize j.size (j.str.length + v.length + (if j.first then 0 else separator.length) +
    (if wrap then separator.length else 0) + 1)
  unfold add
  rw [if_neg hv]
  generalize greedySize j.size _ = size at hsize
  have hsame : ({ j with size := size } : StrJoin).Inside := h
  dsimp only
  -- two writes for the separator and the string, or one for the string
  by_cases hsep : 0 < separator.length ∧ (!j.first) = true
  · have hfirst : j.first = false := by simpa using hsep.2
    rw [if_pos hsep]
    simp only [hfirst, Bool.false_eq_true, if_false] at hsize
    have hone : (({ j with size := size } : StrJoin).write separator).Inside := hsame.write (by dsimp only; omega)
    refine ⟨hone.write ?_, ?_, rfl, by simp [StrJoin.write, hfirst]⟩
    · simp only [StrJoin.write, length_append]
      omega
    · simp only [Room, StrJoin.write, length_append]
      omega
  · rw [if_neg hsep]
    have hnone : (if j.first then [] else separator) = [] := by
      cases hfirst : j.first with
      | true => rfl
      | false => simpa [hfirst] using hsep
    rw [hnone, append_nil]
    refine ⟨hsame.write (by dsimp only; omega), ?_, rfl, rfl⟩
    simp only [Room, StrJoin.write, length_append]
    omega

/-- The strings after the first one. -/
theorem foldl_spec (s : List Bytes) (h : j.Inside) (hroom : j.Room separator wrap) (hfirst : j.first = false) :
    (s.foldl (add separator wrap) j).Inside ∧ (s.foldl (add separator wrap) j).Room separator wrap ∧
      (s.foldl (add separator wrap) j).str = j.str ++ (s.filter (· ≠ [])).flatMap (separator ++ ·) := by
  induction s generalizing j with
  | nil => exact ⟨h, hroom, (append_nil _).symm⟩
  | cons v s ih =>
    rw [foldl_cons]
    by_cases hv : v = []
    · rw [show j.add separator wrap v = j from if_pos hv, filter_cons_of_neg (by simp [hv])]
      exact ih h hroom hfirst
    · obtain ⟨hin, hroom', hfirst', hstr⟩ := @add_spec separator wrap j v hv h
      obtain ⟨hin', hroom'', hstr'⟩ := ih hin hroom' hfirst'
      refine ⟨hin', hroom'', ?_⟩
      rw [hstr', hstr, filter_cons_of_pos (by simpa using hv), flatMap_cons, hfirst]
      simp only [Bool.false_eq_true, if_false, append_assoc]

/-- The loop from its beginning on, if some string is not empty. -/
theorem foldl_start {s : List Bytes} (hs : ∃ v ∈ s, v ≠ []) (h : j.Inside) :
    ∃ v ws, s.filter (· ≠ []) = v :: ws ∧ (s.foldl (add separator wrap) j).Inside ∧
      (s.foldl (add separator wrap) j).Room separator wrap ∧
      (s.foldl (add separator wrap) j).str =
        j.str ++ (if j.first then [] else separator) ++ v ++ ws.flatMap (separator ++ ·) := by
  induction s with
  | nil => obtain ⟨v, hv, -⟩ := hs; cases hv
  | cons v s ih =>
    rw [foldl_cons]
    by_cases hv : v = []
    · rw [show j.add separator wrap v = j from if_pos hv, filter_cons_of_neg (by simp [hv])]
      refine ih ?_
      obtain ⟨u, hu, hne⟩ := hs
      cases hu with
      | head => exact absurd hv hne
      | tail _ hu => exact ⟨u, hu, hne⟩
    · obtain ⟨hin, hroom, hfirst, hstr⟩ := @add_spec separator wrap j v hv h
      obtain ⟨hin', hroom', hstr'⟩ := foldl_spec s hin hroom hfirst
      exact ⟨v, _, filter_cons_of_pos (by simpa using hv), hin', hroom', by rw [hstr', hstr]⟩

/-- Empty strings change nothing. -/
theorem foldl_empty {s : List Bytes} (hs : ∀ v ∈ s, v = []) (j : StrJoin) : s.foldl (add separator wrap) j = j := by
  induction s with
  | nil => rfl
  | cons v s ih =>
    rw [foldl_cons, show j.add separator wrap v = j from if_pos (hs v (.head _))]
    exact ih fun u hu => hs u (.tail _ hu)

end StrJoin

theorem joined_cons (separator v : Bytes) (ws : List Bytes) (wrap : Bool) :
    joined separator wrap (v :: ws) =
      (if wrap then separator else []) ++ v ++ ws.flatMap (separator ++ ·) ++ (if wrap then separator else []) := by
  cases wrap with
  | false =>
    simp only [joined, Bool.false_eq_true, if_false, nil_append, append_nil]
    induction ws generalizing v with
    | nil => simp [intercalate]
    | cons u ws ih =>
      rw [show separator.intercalate (v :: u :: ws) = v ++ separator ++ separator.intercalate (u :: ws) by
        simp [intercalate, intersperse], ih, flatMap_cons]
      simp only [append_assoc]
  | true =>
    simp only [joined, if_true]
    induction ws generalizing v with
    | nil => simp
    | cons u ws ih =>
      rw [flatMap_cons, append_assoc, append_assoc, append_assoc, ih u, flatMap_cons]

/-- Joining a set stays inside the buffer, and gives the strings in their order with the separators between
    them or around them, exactly when the set is empty or has a string that is not empty. -/
theorem setStrjoin_inside_iff (s : List Bytes) (separator : Option Bytes) (wrap : Bool) :
    ((∀ w ∈ (setStrjoin s separator wrap).2, w.1 ≤ w.2) ∧
      (setStrjoin s separator wrap).1 = if s = [] then none
        else some (joined (separator.getD []) (wrap && (separator.getD []).length != 0) (s.filter (· ≠ [])))) ↔
      (s = [] ∨ ∃ v ∈ s, v ≠ []) := by
  unfold setStrjoin
  by_cases hnil : s = []
  · simp [hnil]
  simp only [hnil, if_false, false_or]
  generalize separator.getD [] = separator
  generalize (wrap && separator.length != 0) = wrap
  constructor
  -- only empty strings: nothing was allocated, and the end is written all the same
  · rintro ⟨hin, -⟩
    by_contra hall
    rw [StrJoin.foldl_empty fun v hv => by_contra fun hne => hall ⟨v, hv, hne⟩] at hin
    have hend := hin _ (.head _)
    cases wrap <;> simp [StrJoin.write] at hend
  · intro hs
    obtain ⟨v, ws, hfilter, hin, hroom, hstr⟩ :=
      @StrJoin.foldl_start separator wrap ⟨0, [], !wrap, []⟩ s hs nofun
    generalize s.foldl (StrJoin.add separator wrap) ⟨0, [], !wrap, []⟩ = j at hin hroom hstr
    rw [hfilter, joined_cons]
    unfold StrJoin.Room at hroom
    cases wrap with
    | false =>
      refine ⟨fun w hw => ?_, by simpa using hstr⟩
      cases hw with
      | head => exact hroom
      | tail _ hw => exact hin w hw
    | true =>
      simp only [if_true] at hroom ⊢
      refine ⟨fun w hw => ?_, by simp [StrJoin.write, hstr]⟩
      cases hw with
      | head =>
        simp only [StrJoin.write, length_append]
        omega
      | tail _ hw => exact hin.write (by omega) w hw

/-- A set that has only the empty string: the terminating zero goes through a NULL pointer. -/
theorem setStrjoin_empty_string : ¬ ∀ w ∈ (setStrjoin [[]] none false).2, w.1 ≤ w.2 := by decide

end Elogind
