/-
  Elogind.Lib.Run

  Runs of a labelled transition relation and the rule by which an invariant
  of single steps becomes an invariant of whole runs.
-/

namespace Elogind.Lib

variable {σ α : Type}

/-- `Run R s as s'`: from `s` the labels `as`, one after the other, lead to
    `s'`. -/
inductive Run (R : σ → α → σ → Prop) : σ → List α → σ → Prop where
  | nil (s : σ) : Run R s [] s
  | cons {s s' s'' : σ} {a : α} {as : List α} (h : R s a s') (hs : Run R s' as s'') :
      Run R s (a :: as) s''

namespace Run

variable {R : σ → α → σ → Prop} {s s' s'' : σ} {as bs : List α}

theorem single {a : α} (h : R s a s') : Run R s [a] s' := cons h (nil s')

theorem append (h₁ : Run R s as s') (h₂ : Run R s' bs s'') : Run R s (as ++ bs) s'' := by
  induction h₁ with
  | nil => exact h₂
  | cons h _ ih => exact cons h (ih h₂)

/-- What every step preserves holds at the end of every run from a state where
    it holds. -/
theorem invariant {I : σ → Prop} (hrun : Run R s as s') (hs : I s)
    (hstep : ∀ {t t' : σ} {a : α}, I t → R t a t' → I t') : I s' := by
  induction hrun with
  | nil => exact hs
  | cons h _ ih => exact ih (hstep hs h)

/-- A run of steps that are special is a run. -/
theorem mono {R' : σ → α → σ → Prop} (hrun : Run R s as s') (hle : ∀ {t t' : σ} {a : α}, R t a t' → R' t a t') :
    Run R' s as s' := by
  induction hrun with
  | nil => exact nil _
  | cons h _ ih => exact cons (hle h) ih

end Run

/-- `Reaches R P s s'`: some run whose labels all satisfy `P` leads from `s` to
    `s'`. -/
def Reaches (R : σ → α → σ → Prop) (P : α → Prop) (s s' : σ) : Prop :=
  ∃ as, Run R s as s' ∧ ∀ a ∈ as, P a

namespace Reaches

variable {R : σ → α → σ → Prop} {P : α → Prop} {s s' s'' : σ}

theorem refl (s : σ) : Reaches R P s s := ⟨[], .nil s, by simp⟩

theorem single {a : α} (h : R s a s') (ha : P a) : Reaches R P s s' :=
  ⟨[a], .single h, by simpa using ha⟩

theorem trans (h₁ : Reaches R P s s') (h₂ : Reaches R P s' s'') : Reaches R P s s'' := by
  obtain ⟨as, hrun₁, has⟩ := h₁
  obtain ⟨bs, hrun₂, hbs⟩ := h₂
  refine ⟨as ++ bs, hrun₁.append hrun₂, ?_⟩
  intro a ha
  rcases List.mem_append.mp ha with h | h
  · exact has a h
  · exact hbs a h

/-- What every step with an allowed label preserves holds wherever such steps
    lead. -/
theorem invariant {I : σ → Prop} (h : Reaches R P s s') (hs : I s)
    (hstep : ∀ {t t' : σ} {a : α}, I t → R t a t' → P a → I t') : I s' := by
  obtain ⟨as, hrun, has⟩ := h
  induction hrun with
  | nil => exact hs
  | cons h _ ih => exact ih (hstep hs h (has _ (by simp))) fun a ha => has a (by simp [ha])

end Reaches

end Elogind.Lib
