/-
  Elogind.Lib.InTurn

  Lists that are given one after the other, each value by value: the first ones were given as a whole, then a part
  of the next one, and the rest is still to come.  More lists may be added at any time.
-/

namespace Elogind.Lib

open List

variable {α : Type}

/-- Of these lists this was given, and this is left of them. -/
structure GivenInTurn (all : List (List α)) (given : List α) (rest : List (List α)) : Prop where
  nonempty : ∀ x ∈ rest, x ≠ []
  split : ∃ done part, given = done.flatten ++ part ∧
    (rest = [] ∧ part = [] ∧ all = done ∨ ∃ next later, rest = next :: later ∧ all = done ++ (part ++ next) :: later)

namespace GivenInTurn

variable {all rest : List (List α)} {given : List α}

theorem start : GivenInTurn ([] : List (List α)) [] [] :=
  ⟨fun _ hx => absurd hx not_mem_nil, [], [], rfl, .inl ⟨rfl, rfl, rfl⟩⟩

/-- What was given and what is left is all. -/
theorem flatten (h : GivenInTurn all given rest) : all.flatten = given ++ rest.flatten := by
  obtain ⟨done, part, rfl, ⟨rfl, rfl, rfl⟩ | ⟨next, later, rfl, rfl⟩⟩ := h.split
  · simp only [flatten_nil, append_nil]
  · simp only [flatten_append, flatten_cons, append_assoc]

/-- One more list comes behind the others. -/
theorem add (h : GivenInTurn all given rest) {x : List α} (hx : x ≠ []) : GivenInTurn (all ++ [x]) given (rest ++ [x]) := by
  obtain ⟨done, part, hgiven, hsplit⟩ := h.split
  refine ⟨fun y hy => ?_, done, part, hgiven, .inr ?_⟩
  · rcases mem_append.mp hy with hy | hy
    · exact h.nonempty y hy
    · rw [mem_singleton.mp hy]
      exact hx
  · rcases hsplit with ⟨rfl, rfl, rfl⟩ | ⟨next, later, rfl, rfl⟩
    · exact ⟨x, [], rfl, rfl⟩
    · refine ⟨next, later ++ [x], rfl, ?_⟩
      rw [append_assoc, cons_append]

/-- A value that is not the last of its list is given. -/
theorem give {t : α} {ts : List α} {later : List (List α)} (h : GivenInTurn all given ((t :: ts) :: later))
    (hts : ts ≠ []) : GivenInTurn all (given ++ [t]) (ts :: later) := by
  obtain ⟨done, part, rfl, ⟨hnil, -⟩ | ⟨next, later', hrest, rfl⟩⟩ := h.split
  · cases hnil
  · cases hrest
    refine ⟨fun x hx => ?_, done, part ++ [t], (append_assoc _ _ _), .inr ⟨ts, later, rfl, ?_⟩⟩
    · rcases mem_cons.mp hx with rfl | hx
      · exact hts
      · exact h.nonempty x (mem_cons_of_mem _ hx)
    · rw [append_assoc]
      rfl

/-- What is left of a list is given. -/
theorem finish {ts : List α} {later : List (List α)} (h : GivenInTurn all given (ts :: later)) :
    GivenInTurn all (given ++ ts) later := by
  obtain ⟨done, part, rfl, ⟨hnil, -⟩ | ⟨next, later', hrest, rfl⟩⟩ := h.split
  · cases hnil
  · cases hrest
    refine ⟨fun x hx => h.nonempty x (mem_cons_of_mem _ hx), done ++ [part ++ ts], [], ?_, ?_⟩
    · simp only [flatten_append, flatten_cons, flatten_nil, append_nil, append_assoc]
    · cases later with
      | nil => exact .inl ⟨rfl, rfl, rfl⟩
      | cons next later =>
        refine .inr ⟨next, later, rfl, ?_⟩
        rw [append_assoc]
        rfl

end GivenInTurn

end Elogind.Lib
