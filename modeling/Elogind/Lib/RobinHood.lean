/-
  Elogind.Lib.RobinHood

  Linear probing with Robin Hood insertion, as a property of displacements.

  A table has `n` buckets in a circle.  `disp i` is how far the entry in bucket `i`
  is from the bucket it hashes to, and nothing if the bucket has no entry.  The
  property that insertion and deletion keep is local: an entry is at most one step
  further from home than the entry in front of it.
-/

import Mathlib.Data.Finset.Card

namespace Elogind.Lib

open Function

/-- The bucket after bucket `i`. -/
def succMod (n i : Nat) : Nat := (i + 1) % n

theorem succMod_lt {n : Nat} (hn : 0 < n) (i : Nat) : succMod n i < n := Nat.mod_lt _ hn

theorem succMod_of_lt {n i : Nat} (h : i + 1 < n) : succMod n i = i + 1 := Nat.mod_eq_of_lt h

theorem succMod_of_eq {n i : Nat} (h : i + 1 = n) : succMod n i = 0 := by
  unfold succMod
  rw [h, Nat.mod_self]

/-- Where the circle is one step from its end. -/
theorem succMod_cases {n i : Nat} (hi : i < n) :
    (i + 1 < n ∧ succMod n i = i + 1) ∨ (i + 1 = n ∧ succMod n i = 0) := by
  by_cases h : i + 1 < n
  · exact .inl ⟨h, succMod_of_lt h⟩
  · have heq : i + 1 = n := by omega
    exact .inr ⟨heq, succMod_of_eq heq⟩

theorem succMod_inj {n i j : Nat} (hi : i < n) (hj : j < n) (h : succMod n i = succMod n j) :
    i = j := by
  rcases succMod_cases hi with ⟨h₁, h₂⟩ | ⟨h₁, h₂⟩ <;>
    rcases succMod_cases hj with ⟨h₃, h₄⟩ | ⟨h₃, h₄⟩ <;> omega

theorem succMod_ne_self {n i : Nat} (hn : 1 < n) (hi : i < n) : succMod n i ≠ i := by
  rcases succMod_cases hi with ⟨-, h⟩ | ⟨h₁, h₂⟩ <;> omega

/-- The bucket in front of a bucket. -/
theorem exists_succMod_eq {n i : Nat} (hi : i < n) : ∃ p < n, succMod n p = i := by
  by_cases hzero : i = 0
  · refine ⟨n - 1, by omega, ?_⟩
    rw [succMod_of_eq (by omega), hzero]
  · refine ⟨i - 1, by omega, ?_⟩
    rw [succMod_of_lt (by omega)]
    omega

theorem succMod_add (n i k : Nat) : succMod n ((i + k) % n) = (i + (k + 1)) % n := by
  unfold succMod
  rw [Nat.mod_add_mod, Nat.add_assoc]

/-- The distance from one bucket to another. -/
def distMod (n i j : Nat) : Nat := if i ≤ j then j - i else n + j - i

theorem distMod_lt {n i j : Nat} (hi : i < n) (hj : j < n) : distMod n i j < n := by
  unfold distMod
  split <;> omega

theorem add_distMod {n i j : Nat} (hi : i < n) (hj : j < n) : (i + distMod n i j) % n = j := by
  unfold distMod
  split
  · next h =>
    rw [Nat.add_sub_cancel' h]
    exact Nat.mod_eq_of_lt hj
  · next h =>
    have heq : i + (n + j - i) = j + n := by omega
    rw [heq, Nat.add_mod_right]
    exact Nat.mod_eq_of_lt hj

theorem distMod_eq {n i j k : Nat} (hi : i < n) (hk : k < n) (h : (i + k) % n = j) :
    distMod n i j = k := by
  unfold distMod
  by_cases hlt : i + k < n
  · rw [Nat.mod_eq_of_lt hlt] at h
    rw [if_pos (by omega)]
    omega
  · have hmod : (i + k) % n = i + k - n := by
      rw [Nat.mod_eq_sub_mod (by omega)]
      exact Nat.mod_eq_of_lt (by omega)
    rw [if_neg (by omega)]
    omega

theorem distMod_self (n i : Nat) : distMod n i i = 0 := by
  unfold distMod
  rw [if_pos (Nat.le_refl i), Nat.sub_self]

theorem eq_of_distMod_eq_zero {n i j : Nat} (hi : i < n) (h : distMod n i j = 0) : i = j := by
  unfold distMod at h
  split at h <;> omega

/-- One step further. -/
theorem distMod_succMod {n i j : Nat} (hi : i < n) (hj : j < n) (h : succMod n j ≠ i) :
    distMod n i (succMod n j) = distMod n i j + 1 := by
  unfold distMod
  rcases succMod_cases hj with ⟨h₁, h₂⟩ | ⟨h₁, h₂⟩
  · split <;> split <;> omega
  · split <;> split <;> omega

namespace RobinHood

variable {n : Nat} {disp : Nat → Option Nat}

/-- An entry is at most one step further from home than the entry in front of it. -/
def Ordered (n : Nat) (disp : Nat → Option Nat) : Prop :=
  ∀ i < n, ∀ d, disp (succMod n i) = some (d + 1) → ∃ e, d ≤ e ∧ disp i = some e

/-- An entry may be put into bucket `idx` with displacement `d`, as far as the bucket in
    front of it is concerned. -/
def Follows (n : Nat) (disp : Nat → Option Nat) (idx d : Nat) : Prop :=
  d = 0 ∨ ∃ p < n, succMod n p = idx ∧ ∃ e, d ≤ e + 1 ∧ disp p = some e

/-- On the way to an entry there are entries that are as far from their home. -/
theorem Ordered.probe (h : Ordered n disp) (hn : 0 < n) {home d : Nat}
    (hd : disp ((home + d) % n) = some d) {k : Nat} (hk : k ≤ d) :
    ∃ e, k ≤ e ∧ disp ((home + k) % n) = some e := by
  -- by induction on the number of steps back from the entry
  obtain ⟨m, rfl⟩ : ∃ m, d = k + m := ⟨d - k, by omega⟩
  have hback : ∀ j ≤ m, ∃ e, k + m - j ≤ e ∧ disp ((home + (k + m - j)) % n) = some e := by
    intro j
    induction j with
    | zero => exact fun _ => ⟨k + m, Nat.le_refl _, hd⟩
    | succ j ih =>
      intro hj
      obtain ⟨e, he, hat⟩ := ih (by omega)
      have hsucc : k + m - j = k + m - (j + 1) + 1 := by omega
      rw [hsucc, ← succMod_add] at hat
      obtain ⟨e, rfl⟩ : ∃ e', e = e' + 1 := ⟨e - 1, by omega⟩
      obtain ⟨e', he', hat'⟩ := h _ (Nat.mod_lt _ hn) e hat
      exact ⟨e', by omega, hat'⟩
  have hlast := hback m (Nat.le_refl m)
  rw [Nat.add_sub_cancel] at hlast
  exact hlast

/-- If an entry has gone all the way round, no bucket is empty. -/
theorem Ordered.full (h : Ordered n disp) {home d : Nat} (hhome : home < n) (hfar : n ≤ d + 1)
    (hd : disp ((home + d) % n) = some d) {j : Nat} (hj : j < n) : disp j ≠ none := by
  have hlt := distMod_lt hhome hj
  obtain ⟨e, -, he⟩ := h.probe (by omega) hd (show distMod n home j ≤ d by omega)
  rw [add_distMod hhome hj] at he
  rw [he]
  exact Option.some_ne_none e

/-- An entry is put into a bucket that is empty, or takes it from an entry that is less
    far from its home. -/
theorem Ordered.put (h : Ordered n disp) {idx d : Nat} (hfollows : Follows n disp idx d)
    (hweak : ∀ e, disp idx = some e → e ≤ d) : Ordered n (Function.update disp idx (some d)) := by
  intro i hi e he
  by_cases hself : i = idx
  · subst hself
    refine ⟨d, ?_, update_self ..⟩
    by_cases hnext : succMod n i = i
    · rw [hnext, update_self] at he
      have hde := Option.some.inj he
      omega
    · rw [update_of_ne hnext] at he
      obtain ⟨e', he', hat⟩ := h i hi e he
      exact Nat.le_trans he' (hweak e' hat)
  · rw [update_of_ne hself]
    by_cases hnext : succMod n i = idx
    · rw [hnext, update_self] at he
      have hde := Option.some.inj he
      obtain hzero | ⟨p, hp, hpidx, e', he', hat⟩ := hfollows
      · omega
      · have hpi : p = i := succMod_inj hp hi (hpidx.trans hnext.symm)
        rw [hpi] at hat
        exact ⟨e', by omega, hat⟩
    · rw [update_of_ne hnext] at he
      exact h i hi e he

/-- The next bucket can be tried by an entry that stays behind one at least as far from
    its home. -/
theorem Follows.next {idx d e : Nat} (hidx : idx < n) (he : disp idx = some e) (hle : d ≤ e) :
    Follows n disp (succMod n idx) (d + 1) :=
  .inr ⟨idx, hidx, rfl, e, by omega, he⟩

/-- Nothing behind an empty bucket is away from its home. -/
theorem Ordered.eq_zero (h : Ordered n disp) {i d : Nat} (hi : i < n) (hnone : disp i = none)
    (hd : disp (succMod n i) = some d) : d = 0 := by
  cases d with
  | zero => rfl
  | succ d =>
    obtain ⟨e, -, he⟩ := h i hi d hd
    rw [hnone] at he
    cases he

/-- The buckets that have an entry. -/
def placed (n : Nat) (disp : Nat → Option Nat) : Finset Nat :=
  (Finset.range n).filter fun i => (disp i).isSome = true

theorem card_placed_le (n : Nat) (disp : Nat → Option Nat) : (placed n disp).card ≤ n := by
  have hle := Finset.card_filter_le (Finset.range n) fun i => (disp i).isSome = true
  rwa [Finset.card_range] at hle

/-- One more bucket has an entry. -/
theorem card_placed_put {i : Nat} (hi : i < n) (hnone : disp i = none) (d : Nat) :
    (placed n (Function.update disp i (some d))).card = (placed n disp).card + 1 := by
  have hmem : i ∉ placed n disp := by
    intro hmem
    have hsome := (Finset.mem_filter.mp hmem).2
    rw [hnone] at hsome
    cases hsome
  have heq : placed n (update disp i (some d)) = insert i (placed n disp) := by
    ext j
    unfold placed
    by_cases hji : j = i
    · subst hji
      simp [hi]
    · simp [hji]
  rw [heq, Finset.card_insert_of_notMem hmem]

/-- An entry takes the bucket of another one. -/
theorem placed_swap {i e : Nat} (he : disp i = some e) (d : Nat) :
    placed n (Function.update disp i (some d)) = placed n disp := by
  ext j
  unfold placed
  rw [Finset.mem_filter, Finset.mem_filter]
  by_cases hji : j = i
  · subst hji
    rw [update_self, he]
    simp
  · rw [update_of_ne hji]

/-! ## Deletion -/

/-- A table with a hole: everything is in order but for the entry behind the hole, which
    may be moved into it. -/
structure Hole (n : Nat) (disp : Nat → Option Nat) (hole : Nat) : Prop where
  empty : disp hole = none
  ordered : ∀ i < n, i ≠ hole → ∀ d, disp (succMod n i) = some (d + 1) → ∃ e, d ≤ e ∧ disp i = some e
  fits : ∀ d, disp (succMod n hole) = some (d + 1) → Follows n disp hole d

/-- An entry is taken out. -/
theorem Ordered.hole (h : Ordered n disp) {idx : Nat} (hidx : idx < n) :
    Hole n (Function.update disp idx none) idx where
  empty := update_self ..
  ordered i hi hne d hd := by
    rw [update_of_ne hne]
    by_cases hnext : succMod n i = idx
    · rw [hnext, update_self] at hd
      cases hd
    · rw [update_of_ne hnext] at hd
      exact h i hi d hd
  fits d hd := by
    by_cases hnext : succMod n idx = idx
    · rw [hnext, update_self] at hd
      cases hd
    · rw [update_of_ne hnext] at hd
      obtain ⟨e, he, hat⟩ := h idx hidx d hd
      cases d with
      | zero => exact .inl rfl
      | succ d =>
        obtain ⟨p, hp⟩ := exists_succMod_eq hidx
        obtain ⟨e, rfl⟩ : ∃ e', e = e' + 1 := ⟨e - 1, by omega⟩
        obtain ⟨e', he', hat'⟩ := h p hp.1 e (by rw [hp.2]; exact hat)
        refine .inr ⟨p, hp.1, hp.2, e', by omega, ?_⟩
        rw [update_of_ne]
        · exact hat'
        · intro heq
          rw [heq] at hp
          exact hnext hp.2

/-- The entry behind the hole is moved into it. -/
theorem Hole.shift {hole : Nat} (h : Hole n disp hole) (hhole : hole < n) {d : Nat}
    (hd : disp (succMod n hole) = some (d + 1)) :
    Hole n (Function.update (Function.update disp hole (some d)) (succMod n hole) none)
      (succMod n hole) := by
  have hne : succMod n hole ≠ hole := by
    intro heq
    rw [heq, h.empty] at hd
    cases hd
  have hn : 1 < n := by
    rcases succMod_cases hhole with ⟨h₁, -⟩ | ⟨h₁, h₂⟩
    · omega
    · omega
  have hsucc : succMod n hole < n := succMod_lt (by omega) hole
  refine ⟨update_self .., ?_, ?_⟩
  · intro i hi hi' e he
    rw [update_of_ne hi']
    by_cases hnext : succMod n i = succMod n hole
    · rw [hnext, update_self] at he
      cases he
    rw [update_of_ne hnext] at he
    by_cases hself : i = hole
    · exact absurd (hself ▸ rfl) hnext
    rw [update_of_ne hself]
    by_cases hinto : succMod n i = hole
    · -- the bucket in front of the old hole
      rw [hinto, update_self] at he
      have hde := Option.some.inj he
      obtain hzero | ⟨p, hp, hpidx, e', he', hat⟩ := h.fits d hd
      · omega
      · have hpi : p = i := succMod_inj hp hi (hpidx.trans hinto.symm)
        rw [hpi] at hat
        exact ⟨e', by omega, hat⟩
    · rw [update_of_ne hinto] at he
      exact h.ordered i hi hself e he
  · intro e he
    have hnext : succMod n (succMod n hole) ≠ succMod n hole := succMod_ne_self hn hsucc
    rw [update_of_ne hnext] at he
    refine .inr ⟨hole, hhole, rfl, d, ?_, ?_⟩
    · by_cases hback : succMod n (succMod n hole) = hole
      · rw [hback, update_self] at he
        have hde := Option.some.inj he
        omega
      · rw [update_of_ne hback] at he
        obtain ⟨e', he', hat⟩ := h.ordered _ hsucc hne e he
        rw [hd] at hat
        have hde := Option.some.inj hat
        omega
    · rw [update_of_ne (Ne.symm hne), update_self]

/-- A hole in front of an entry that is at home, or of an empty bucket, is no hole. -/
theorem Hole.ordered_of_stop {hole : Nat} (h : Hole n disp hole)
    (hstop : ∀ d, disp (succMod n hole) = some d → d = 0) : Ordered n disp := by
  intro i hi d hd
  by_cases hself : i = hole
  · rw [hself] at hd
    cases hstop _ hd
  · exact h.ordered i hi hself d hd

end RobinHood

end Elogind.Lib
