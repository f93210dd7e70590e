/-
  Elogind.Lib.BackRefs

  Back pointers.  A parent keeps the list of its children, a child keeps a
  pointer to its parent; `BackRefs` says that the two directions agree.  The
  operations on such a pair are linking a child to a parent it is not yet
  linked to and unlinking it again.

  `Points` says that a single pointer from a parent stays among its children,
  and `Ends` that both ends of a link exist.  `Queued` is the idea of `BackRefs`
  for a queue and the flag by which an object knows that it is waiting in it.
-/

import Mathlib.Data.List.Nodup

namespace Elogind.Lib

open Function

variable {P C : Type} [DecidableEq P] [DecidableEq C]

omit [DecidableEq C] in
theorem eraseP_congr {p q : C → Bool} {l : List C} (h : ∀ a ∈ l, p a = q a) :
    l.eraseP p = l.eraseP q := by
  induction l with
  | nil => rfl
  | cons a l ih =>
    rw [List.eraseP_cons, List.eraseP_cons, h a (by simp), ih fun b hb => h b (by simp [hb])]

/-- `children p` lists, without repetition, exactly the objects whose back
    pointer is `p`. -/
structure BackRefs (parent : C → Option P) (children : P → List C) : Prop where
  mem_iff : ∀ p c, c ∈ children p ↔ parent c = some p
  nodup : ∀ p, (children p).Nodup

namespace BackRefs

variable {parent : C → Option P} {children : P → List C}

omit [DecidableEq P] [DecidableEq C] in
theorem empty : BackRefs (fun _ : C => none) (fun _ : P => []) := ⟨by simp, by simp⟩

omit [DecidableEq P] [DecidableEq C] in
theorem eq_none_of_nil (h : BackRefs parent children) {p : P} (hp : children p = []) (c : C) :
    parent c ≠ some p := by
  intro hc
  have hmem := (h.mem_iff p c).mpr hc
  rw [hp] at hmem
  cases hmem

omit [DecidableEq P] [DecidableEq C] in
theorem not_mem_of_none (h : BackRefs parent children) {c : C} (hc : parent c = none) (p : P) :
    c ∉ children p := by
  rw [h.mem_iff, hc]
  simp

/-- Linking: a child without a parent enters the list of `p`, at any place. -/
theorem link (h : BackRefs parent children) {c : C} {p : P} {l : List C}
    (hc : parent c = none) (hmem : ∀ x, x ∈ l ↔ x = c ∨ x ∈ children p) (hl : l.Nodup) :
    BackRefs (update parent c (some p)) (update children p l) where
  mem_iff q x := by
    by_cases hx : x = c
    · subst hx
      by_cases hq : q = p
      · subst hq
        simp [hmem]
      · have hnot := h.not_mem_of_none hc q
        have hne : p ≠ q := fun heq => hq heq.symm
        simp [update_of_ne hq, hnot, hne]
    · by_cases hq : q = p
      · subst hq
        simp [hx, hmem, h.mem_iff]
      · simp [update_of_ne hq, hx, h.mem_iff]
  nodup q := by
    by_cases hq : q = p
    · subst hq
      simpa using hl
    · simpa [update_of_ne hq] using h.nodup q

/-- Linking at the head of the list, as `LIST_PREPEND` does. -/
theorem link_cons (h : BackRefs parent children) {c : C} {p : P} (hc : parent c = none) :
    BackRefs (update parent c (some p)) (update children p (c :: children p)) := by
  apply h.link hc
  · intro x
    exact List.mem_cons
  · exact List.nodup_cons.mpr ⟨h.not_mem_of_none hc p, h.nodup p⟩

/-- Unlinking a child from its parent, as `LIST_REMOVE` does. -/
theorem unlink (h : BackRefs parent children) {c : C} {p : P} (hc : parent c = some p) :
    BackRefs (update parent c none) (update children p ((children p).erase c)) where
  mem_iff q x := by
    by_cases hq : q = p
    · subst hq
      by_cases hx : x = c
      · subst hx
        simp [(h.nodup q).mem_erase_iff]
      · simp [(h.nodup q).mem_erase_iff, hx, h.mem_iff]
    · by_cases hx : x = c
      · subst hx
        have hne : p ≠ q := fun heq => hq heq.symm
        simp [update_of_ne hq, h.mem_iff, hc, hne]
      · simp [update_of_ne hq, hx, h.mem_iff]
  nodup q := by
    by_cases hq : q = p
    · subst hq
      simpa using (h.nodup q).erase c
    · simpa [update_of_ne hq] using h.nodup q

end BackRefs

omit [DecidableEq P] in
theorem update_of_ne_none {parent : C → Option P} {c x : C} {p : P} {v : Option P}
    (hc : parent c = none) (hx : parent x = some p) : update parent c v x = some p := by
  have hne : x ≠ c := by
    rintro rfl
    rw [hc] at hx
    cases hx
  rwa [update_of_ne hne]

/-- The pointer of a parent, if it is set, is to one of its children. -/
def Points (ptr : P → Option C) (parent : C → Option P) : Prop :=
  ∀ ⦃p c⦄, ptr p = some c → parent c = some p

namespace Points

variable {ptr : P → Option C} {parent : C → Option P} {c : C} {p : P}

omit [DecidableEq P] [DecidableEq C] in
theorem empty : Points (fun _ : P => none) parent := fun _ _ h => nomatch h

omit [DecidableEq P] in
theorem link (h : Points ptr parent) (hc : parent c = none) :
    Points ptr (update parent c (some p)) := fun _ _ hx => update_of_ne_none hc (h hx)

omit [DecidableEq P] in
theorem unlink (h : Points ptr parent) (hc : parent c = some p) (hptr : ptr p ≠ some c) :
    Points ptr (update parent c none) := by
  intro q x hx
  have hne : x ≠ c := by
    rintro rfl
    have hq := h hx
    rw [hc, Option.some.injEq] at hq
    exact hptr (hq ▸ hx)
  rw [update_of_ne hne]
  exact h hx

omit [DecidableEq C] in
theorem set (h : Points ptr parent) {a : Option C} (ha : ∀ x, a = some x → parent x = some p) :
    Points (update ptr p a) parent := by
  intro q x hx
  by_cases hq : q = p
  · subst hq
    rw [update_self] at hx
    exact ha x hx
  · rw [update_of_ne hq] at hx
    exact h hx

/-- A pointer that is not set is to none of the children. -/
theorem clear (h : Points ptr parent) :
    Points (if ptr p = some c then update ptr p none else ptr) parent := by
  split
  · exact h.set (by simp)
  · exact h

theorem clear_ne : (if ptr p = some c then update ptr p none else ptr) p ≠ some c := by
  split
  · simp
  · assumption

end Points

/-- Both ends of every link exist. -/
def Ends (parent : C → Option P) (childLive : C → Bool) (parentLive : P → Bool) : Prop :=
  ∀ ⦃c p⦄, parent c = some p → childLive c ∧ parentLive p

namespace Ends

variable {parent : C → Option P} {childLive : C → Bool} {parentLive : P → Bool} {c : C} {p : P}

omit [DecidableEq P] [DecidableEq C] in
theorem empty : Ends (fun _ : C => none) childLive parentLive := fun _ _ h => nomatch h

omit [DecidableEq P] in
theorem link (h : Ends parent childLive parentLive) (hc : childLive c) (hp : parentLive p) :
    Ends (update parent c (some p)) childLive parentLive := by
  intro x q hx
  by_cases heq : x = c
  · subst heq
    rw [update_self, Option.some.injEq] at hx
    exact hx ▸ ⟨hc, hp⟩
  · rw [update_of_ne heq] at hx
    exact h hx

omit [DecidableEq P] in
theorem unlink (h : Ends parent childLive parentLive) (c : C) :
    Ends (update parent c none) childLive parentLive := by
  intro x q hx
  by_cases heq : x = c
  · rw [heq, update_self] at hx
    cases hx
  · rw [update_of_ne heq] at hx
    exact h hx

omit [DecidableEq P] in
theorem bearChild (h : Ends parent childLive parentLive) (c : C) :
    Ends parent (update childLive c true) parentLive := by
  intro x q hx
  refine ⟨?_, (h hx).2⟩
  by_cases heq : x = c
  · rw [heq, update_self]
  · rw [update_of_ne heq]
    exact (h hx).1

omit [DecidableEq C] in
theorem bearParent (h : Ends parent childLive parentLive) (p : P) :
    Ends parent childLive (update parentLive p true) := by
  intro x q hx
  refine ⟨(h hx).1, ?_⟩
  by_cases heq : q = p
  · rw [heq, update_self]
  · rw [update_of_ne heq]
    exact (h hx).2

omit [DecidableEq P] in
theorem buryChild (h : Ends parent childLive parentLive) (hc : parent c = none) :
    Ends parent (update childLive c false) parentLive := by
  intro x q hx
  have hne : x ≠ c := by
    rintro rfl
    rw [hc] at hx
    cases hx
  rw [update_of_ne hne]
  exact h hx

omit [DecidableEq C] in
theorem buryParent (h : Ends parent childLive parentLive) (hp : ∀ x, parent x ≠ some p) :
    Ends parent childLive (update parentLive p false) := by
  intro x q hx
  have hne : q ≠ p := by
    rintro rfl
    exact hp x hx
  rw [update_of_ne hne]
  exact h hx

end Ends

/-- What has the first flag has the second. -/
def Within (flag live : C → Bool) : Prop := ∀ ⦃c⦄, flag c = true → live c = true

namespace Within

variable {flag live : C → Bool} {c : C}

theorem push (h : Within flag live) (hc : live c = true) : Within (update flag c true) live := by
  intro x hx
  by_cases heq : x = c
  · exact heq ▸ hc
  · rw [update_of_ne heq] at hx
    exact h hx

theorem pop (h : Within flag live) (c : C) : Within (update flag c false) live := by
  intro x hx
  by_cases heq : x = c
  · rw [heq, update_self] at hx
    cases hx
  · rw [update_of_ne heq] at hx
    exact h hx

theorem bear (h : Within flag live) (c : C) : Within flag (update live c true) := by
  intro x hx
  by_cases heq : x = c
  · rw [heq, update_self]
  · rw [update_of_ne heq]
    exact h hx

theorem bury (h : Within flag live) (hc : flag c = false) : Within flag (update live c false) := by
  intro x hx
  have hne : x ≠ c := by
    rintro rfl
    rw [hc] at hx
    cases hx
  rw [update_of_ne hne]
  exact h hx

end Within

/-- `q` holds, without repetition, exactly the objects whose flag is set. -/
structure Queued (q : List C) (flag : C → Bool) : Prop where
  mem_iff : ∀ c, c ∈ q ↔ flag c = true
  nodup : q.Nodup

namespace Queued

variable {q q' : List C} {flag : C → Bool}

omit [DecidableEq C] in
theorem empty : Queued ([] : List C) (fun _ => false) := ⟨by simp, by simp⟩

omit [DecidableEq C] in
theorem perm (h : Queued q flag) (hq : q.Perm q') : Queued q' flag :=
  ⟨fun c => hq.mem_iff.symm.trans (h.mem_iff c), hq.nodup_iff.mp h.nodup⟩

theorem push (h : Queued q flag) {c : C} (hc : flag c = false) :
    Queued (c :: q) (update flag c true) where
  mem_iff x := by
    by_cases hx : x = c
    · subst hx
      simp
    · simp [hx, h.mem_iff]
  nodup := by
    refine List.nodup_cons.mpr ⟨?_, h.nodup⟩
    rw [h.mem_iff, hc]
    simp

theorem erase (h : Queued q flag) (c : C) : Queued (q.erase c) (update flag c false) where
  mem_iff x := by
    by_cases hx : x = c
    · subst hx
      simp [h.nodup.mem_erase_iff]
    · simp [h.nodup.mem_erase_iff, hx, h.mem_iff]
  nodup := h.nodup.erase c

theorem pop {c : C} (h : Queued (c :: q) flag) : Queued q (update flag c false) := by
  have herase := h.erase c
  rwa [List.erase_cons_head] at herase

end Queued

end Elogind.Lib
