/-
  Elogind.Lib.Loop

  While loops.  `Loop next s heads s'` says that the loop whose rounds are given by
  `next`, and which ends where `next` gives nothing, comes from `s` to `s'`; `heads`
  are the states at the head of the loop before each round.  A loop that never ends
  relates `s` to nothing.
-/

namespace Elogind.Lib

variable {σ : Type}

inductive Loop (next : σ → Option σ) : σ → List σ → σ → Prop where
  | done {s : σ} (h : next s = none) : Loop next s [] s
  | round {s t s' : σ} {heads : List σ} (h : next s = some t) (hs : Loop next t heads s') :
      Loop next s (s :: heads) s'

/-- Runs a loop for fewer than `n` rounds; `none` if it has not come to its end by
    then. -/
def iterate (next : σ → Option σ) : Nat → σ → Option σ
  | 0, _ => none
  | n + 1, s =>
    match next s with
    | none => some s
    | some t => iterate next n t

namespace Loop

variable {next : σ → Option σ} {s s' : σ} {heads : List σ}

theorem of_iterate {n : Nat} (h : iterate next n s = some s') : ∃ heads, Loop next s heads s' := by
  induction n generalizing s with
  | zero => cases h
  | succ n ih =>
    rw [iterate] at h
    cases hs : next s with
    | none =>
      rw [hs] at h
      cases h
      exact ⟨[], .done hs⟩
    | some t =>
      rw [hs] at h
      obtain ⟨heads, hloop⟩ := ih h
      exact ⟨s :: heads, .round hs hloop⟩

theorem iterate_eq (hloop : Loop next s heads s') :
    iterate next (heads.length + 1) s = some s' := by
  induction hloop with
  | done h => rw [iterate, h]
  | round h _ ih =>
    rw [iterate, h]
    exact ih

/-- More rounds than it takes change nothing. -/
theorem iterate_of_le (hloop : Loop next s heads s') {n : Nat} (hn : heads.length < n) :
    iterate next n s = some s' := by
  induction hloop generalizing n with
  | done h =>
    obtain ⟨n, rfl⟩ : ∃ k, n = k + 1 := ⟨n - 1, by omega⟩
    rw [iterate, h]
  | round h _ ih =>
    obtain ⟨n, rfl⟩ : ∃ k, n = k + 1 := ⟨n - 1, by omega⟩
    rw [iterate, h]
    exact ih (Nat.lt_of_succ_lt_succ hn)

/-- A loop ends if every round keeps an invariant and makes a measure smaller. -/
theorem exists_of_measure {I : σ → Prop} {f : σ → Nat}
    (hround : ∀ {s t : σ}, I s → next s = some t → I t ∧ f t < f s) (hs : I s) :
    ∃ heads s', Loop next s heads s' ∧ heads.length ≤ f s := by
  generalize hn : f s = n
  induction n using Nat.strongRecOn generalizing s with
  | ind n ih =>
    cases h : next s with
    | none => exact ⟨[], s, .done h, Nat.zero_le n⟩
    | some t =>
      obtain ⟨ht, hlt⟩ := hround hs h
      obtain ⟨heads, s', hloop, hlen⟩ := ih (f t) (hn ▸ hlt) ht rfl
      refine ⟨s :: heads, s', .round h hloop, ?_⟩
      rw [List.length_cons]
      omega

/-- What every round preserves holds at the head of every round and at the end. -/
theorem invariant {I : σ → Prop} (hloop : Loop next s heads s') (hs : I s)
    (hround : ∀ {s t : σ}, I s → next s = some t → I t) : I s' ∧ ∀ t ∈ heads, I t := by
  induction hloop with
  | done h => exact ⟨hs, by simp⟩
  | round h _ ih =>
    obtain ⟨hend, hheads⟩ := ih (hround hs h)
    refine ⟨hend, ?_⟩
    intro t ht
    rcases List.mem_cons.mp ht with rfl | ht
    · exact hs
    · exact hheads t ht

theorem next_end (hloop : Loop next s heads s') : next s' = none := by
  induction hloop with
  | done h => exact h
  | round _ _ ih => exact ih

/-- A function that runs the loop for at most `n` rounds gets to the end if `n` is
    large enough. -/
theorem eq_of_fuel {f : Nat → σ → σ} (hsucc : ∀ n s, f (n + 1) s = (next s).elim s (f n))
    (hzero : ∀ s, f 0 s = s) (hloop : Loop next s heads s') {n : Nat} (hn : heads.length ≤ n) :
    f n s = s' := by
  induction hloop generalizing n with
  | done h =>
    cases n with
    | zero => exact hzero _
    | succ n =>
      rw [hsucc, h]
      rfl
  | round h _ ih =>
    obtain ⟨n, rfl⟩ : ∃ k, n = k + 1 := ⟨n - 1, by rw [List.length_cons] at hn; omega⟩
    rw [hsucc, h]
    exact ih (Nat.le_of_succ_le_succ hn)

end Loop

end Elogind.Lib
