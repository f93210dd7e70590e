/-
  Elogind.Lib.Checked

  Programs with a state that return a value or an error, and fail where an assertion in them does not hold.
-/

namespace Elogind.Lib

/-- A program on states in `σ`.  It has no result if an assertion fails in it, or if it does not end. -/
def Checked (σ ε α : Type) : Type := σ → Option (Except ε α × σ)

namespace Checked

variable {σ ε α β : Type}

def ret (a : α) : Checked σ ε α := fun s => some (.ok a, s)

def bind (m : Checked σ ε α) (f : α → Checked σ ε β) : Checked σ ε β := fun s =>
  match m s with
  | none => none
  | some (.error e, s') => some (.error e, s')
  | some (.ok a, s') => f a s'

instance : Monad (Checked σ ε) where
  pure := ret
  bind := bind

def fail (e : ε) : Checked σ ε α := fun s => some (.error e, s)

/-- The program that does not end. -/
def stuck : Checked σ ε α := fun _ => none

def assert (p : Prop) [Decidable p] : Checked σ ε Unit := fun s => if p then some (.ok (), s) else none

def get : Checked σ ε σ := fun s => some (.ok s, s)

def modify (f : σ → σ) : Checked σ ε Unit := fun s => some (.ok (), f s)

/-! ## Programs that returned a value -/

/-! ## What holds when a program ends -/

/-- The program ends and no assertion fails in it, and if it returns a value, `Q` holds of it and of the state then. -/
def Ends (m : Checked σ ε α) (s : σ) (Q : α → σ → Prop) : Prop :=
  ∃ r s', m s = some (r, s') ∧ ∀ a, r = .ok a → Q a s'

section Rules

variable {m : Checked σ ε α} {f : α → Checked σ ε β} {s : σ} {Q R : α → σ → Prop} {S : β → σ → Prop}

theorem Ends.mono (h : Ends m s Q) (hQ : ∀ a s', Q a s' → R a s') : Ends m s R := by
  obtain ⟨r, s', hrun, hr⟩ := h
  exact ⟨r, s', hrun, fun a ha => hQ a s' (hr a ha)⟩

theorem Ends.pure {a : α} (h : Q a s) : Ends (Pure.pure a : Checked σ ε α) s Q := by
  refine ⟨.ok a, s, rfl, ?_⟩
  rintro b ⟨⟩
  exact h

theorem Ends.fail (e : ε) : Ends (Checked.fail e) s Q := ⟨.error e, s, rfl, nofun⟩

theorem Ends.bind (h : Ends m s Q) (hf : ∀ a s', Q a s' → Ends (f a) s' S) : Ends (m >>= f) s S := by
  obtain ⟨r, s', hrun, hr⟩ := h
  show Ends (Checked.bind m f) s S
  cases r with
  | error e =>
    refine ⟨.error e, s', ?_, nofun⟩
    unfold Checked.bind
    rw [hrun]
  | ok a =>
    obtain ⟨r', s'', hrun', hr'⟩ := hf a s' (hr a rfl)
    refine ⟨r', s'', ?_, hr'⟩
    unfold Checked.bind
    rw [hrun]
    exact hrun'

/-- An assertion that holds. -/
theorem Ends.assert_bind {p : Prop} [Decidable p] {g : Unit → Checked σ ε β} (hp : p) (h : Ends (g ()) s S) :
    Ends (Checked.assert p >>= g) s S :=
  Ends.bind (Q := fun _ s' => s' = s) ⟨.ok (), s, if_pos hp, fun _ _ => rfl⟩ fun _ _ hs => hs ▸ h

theorem Ends.get_bind {g : σ → Checked σ ε β} (h : Ends (g s) s S) : Ends (Checked.get >>= g) s S :=
  Ends.bind (Q := fun t s' => t = s ∧ s' = s) ⟨.ok s, s, rfl, fun _ ht => ⟨(Except.ok.inj ht).symm, rfl⟩⟩
    fun _ _ hs => hs.1 ▸ hs.2 ▸ h

theorem Ends.modify {g : σ → σ} {Q : Unit → σ → Prop} (h : Q () (g s)) :
    Ends (Checked.modify g : Checked σ ε Unit) s Q :=
  ⟨.ok (), g s, rfl, fun _ _ => h⟩

theorem Ends.ite {p : Prop} [Decidable p] {m' : Checked σ ε α} (hp : p → Ends m s Q) (hn : ¬ p → Ends m' s Q) :
    Ends (if p then m else m') s Q := by
  by_cases h : p
  · rw [if_pos h]
    exact hp h
  · rw [if_neg h]
    exact hn h

/-- What is returned is what a run returns. -/
theorem Ends.attach (h : Ends m s Q) : Ends m s fun a s' => m s = some (.ok a, s') ∧ Q a s' := by
  obtain ⟨r, s', hrun, hr⟩ := h
  refine ⟨r, s', hrun, ?_⟩
  rintro a rfl
  exact ⟨hrun, hr a rfl⟩

end Rules

end Checked

end Elogind.Lib
