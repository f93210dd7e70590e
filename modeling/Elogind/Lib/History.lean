/-
  Elogind.Lib.History

  Histories: lists of what has happened, the oldest entry first, and properties
  that relate every entry to what came before it.
-/

namespace Elogind.Lib

variable {α : Type}

/-- Every entry of the history is justified by the entries before it. -/
def Justified (P : List α → α → Prop) (history : List α) : Prop :=
  ∀ past x future, history = past ++ x :: future → P past x

namespace Justified

variable {P : List α → α → Prop} {history : List α}

theorem nil : Justified P [] := by
  intro past x future h
  simp at h

/-- One more entry has to be justified by all the others. -/
theorem snoc (h : Justified P history) {x : α} (hx : P history x) :
    Justified P (history ++ [x]) := by
  intro past y future heq
  rcases List.eq_nil_or_concat future with rfl | ⟨future', z, rfl⟩
  · obtain ⟨rfl, hy⟩ := List.append_inj' heq rfl
    cases hy
    exact hx
  · apply h past y future'
    have hlast : history ++ [x] = (past ++ y :: future') ++ [z] := by
      rw [heq]
      simp
    exact (List.append_inj' hlast rfl).1

/-- Entries that are justified by the history as it was, and whose number does
    not matter to each other. -/
theorem append {entries : List α} (h : Justified P history)
    (hentries : ∀ more, ∀ x ∈ entries, P (history ++ more) x) :
    Justified P (history ++ entries) := by
  induction entries generalizing history with
  | nil => simpa using h
  | cons x entries ih =>
    have hx := hentries [] x (by simp)
    rw [List.append_nil] at hx
    have hsnoc := h.snoc hx
    have hrest := ih hsnoc fun more y hy => by
      have hmore := hentries (x :: more) y (by simp [hy])
      simpa using hmore
    simpa using hrest

end Justified

/-- The last entry of a history to which `f` gives a value. -/
def latest {β : Type} (f : α → Option β) (history : List α) : Option β :=
  (history.filterMap f).getLast?

section Latest

variable {β : Type} {f : α → Option β}

theorem latest_snoc_some {history : List α} {x : α} {b : β} (h : f x = some b) :
    latest f (history ++ [x]) = some b := by
  simp [latest, h]

theorem latest_snoc_none {history : List α} {x : α} (h : f x = none) :
    latest f (history ++ [x]) = latest f history := by
  simp [latest, h]

theorem latest_append_none {history entries : List α} (h : ∀ x ∈ entries, f x = none) :
    latest f (history ++ entries) = latest f history := by
  have hnil : entries.filterMap f = [] := by
    rw [List.filterMap_eq_nil_iff]
    exact h
  simp [latest, hnil]

end Latest

end Elogind.Lib
