/-
  Elogind.Lib.BinaryHeap

  Binary heaps, as far as the order of their elements goes.  A heap is given by
  the element at each position; the children of position `i` are `2 * i + 1` and
  `2 * i + 2`.

  An element that is out of order is moved by exchanging it with its parent or
  with its smallest child.  `OrderedBut` and `OrderedBelow` say what holds in the
  meantime.
-/

namespace Elogind.Lib

/-- A total preorder. -/
structure TotalPreorder {α : Type} (le : α → α → Prop) : Prop where
  total : ∀ a b, le a b ∨ le b a
  trans : ∀ {a b c}, le a b → le b c → le a c

theorem TotalPreorder.refl {α : Type} {le : α → α → Prop} (hle : TotalPreorder le) (a : α) :
    le a a := (hle.total a a).elim id id

namespace BinaryHeap

variable {α : Type} {le : α → α → Prop} {g g' : Nat → Option α} {i j k s : Nat}

def parent (i : Nat) : Nat := (i - 1) / 2

/-- `c` is a child of `i`. -/
def IsChild (c i : Nat) : Prop := 0 < c ∧ parent c = i

theorem isChild_iff {c i : Nat} : IsChild c i ↔ c = 2 * i + 1 ∨ c = 2 * i + 2 := by
  unfold IsChild parent
  omega

theorem isChild_parent (h : 0 < i) : IsChild i (parent i) := ⟨h, rfl⟩

theorem IsChild.lt {c i : Nat} (h : IsChild c i) : i < c := by
  rw [isChild_iff] at h
  omega

/-- The elements at `i` and `j`, if there are any, are in order. -/
def LeAt (le : α → α → Prop) (g : Nat → Option α) (i j : Nat) : Prop :=
  ∀ a b, g i = some a → g j = some b → le a b

/-- No element is smaller than its parent. -/
def Ordered (le : α → α → Prop) (g : Nat → Option α) : Prop :=
  ∀ p c, IsChild c p → LeAt le g p c

/-- In order, but for the element at `i`: the elements next to it are in order among
    themselves. -/
structure OrderedBut (le : α → α → Prop) (g : Nat → Option α) (i : Nat) : Prop where
  off : ∀ p c, IsChild c p → p ≠ i → c ≠ i → LeAt le g p c
  around : ∀ p c, IsChild i p → IsChild c i → LeAt le g p c

/-- In order, but that the element at `i` may be smaller than its parent. -/
structure OrderedBelow (le : α → α → Prop) (g : Nat → Option α) (i : Nat) : Prop where
  off : ∀ p c, IsChild c p → c ≠ i → LeAt le g p c
  around : ∀ p c, IsChild i p → IsChild c i → LeAt le g p c

/-- The elements at `i` and `j` are exchanged. -/
def exchanged (g : Nat → Option α) (i j k : Nat) : Option α :=
  if k = i then g j else if k = j then g i else g k

@[simp] theorem exchanged_left : exchanged g i j i = g j := if_pos rfl

@[simp] theorem exchanged_right : exchanged g i j j = g i := by
  unfold exchanged
  split
  · next h => rw [h]
  · exact if_pos rfl

theorem exchanged_other (hi : k ≠ i) (hj : k ≠ j) : exchanged g i j k = g k := by
  unfold exchanged
  rw [if_neg hi, if_neg hj]

/-- Nothing is smaller than the root. -/
theorem Ordered.root_le (hle : TotalPreorder le) (h : Ordered le g)
    (hclosed : ∀ i, (g i).isSome → 0 < i → (g (parent i)).isSome) : LeAt le g 0 i := by
  intro a b ha
  induction i using Nat.strongRecOn generalizing b with
  | ind i ih =>
    intro hb
    by_cases h0 : i = 0
    · subst h0
      rw [ha] at hb
      cases hb
      exact hle.refl a
    · have hchild := isChild_parent (Nat.pos_of_ne_zero h0)
      obtain ⟨c, hc⟩ := Option.isSome_iff_exists.mp (hclosed i (by simp [hb]) hchild.1)
      exact hle.trans (ih (parent i) hchild.lt c hc) (h (parent i) i hchild c b hc hb)

/-! ## Moving an element down -/

/-- Where the elements off `i` are the same and still in order, only `i` can be
    wrong. -/
theorem Ordered.orderedBut {le' : α → α → Prop} (hle : TotalPreorder le) (h : Ordered le g)
    (hsome : (g i).isSome) (hsame : ∀ j a, j ≠ i → g' j = some a → g j = some a)
    (hkeep : ∀ j k a b, j ≠ i → k ≠ i → g' j = some a → g' k = some b → le a b → le' a b) :
    OrderedBut le' g' i := by
  constructor
  · intro p c hchild hp hc a b ha hb
    exact hkeep p c a b hp hc ha hb (h p c hchild a b (hsame p a hp ha) (hsame c b hc hb))
  · intro p c hi hc a b ha hb
    have hp : p ≠ i := Nat.ne_of_lt hi.lt
    have hci : c ≠ i := Nat.ne_of_gt hc.lt
    obtain ⟨x, hx⟩ := Option.isSome_iff_exists.mp hsome
    have h₁ := h p i hi a x (hsame p a hp ha) hx
    have h₂ := h i c hc x b hx (hsame c b hci hb)
    exact hkeep p c a b hp hci ha hb (hle.trans h₁ h₂)

/-- The element at `i` changes places with its smallest child, which is smaller. -/
theorem OrderedBut.exchange (h : OrderedBut le g i) (hs : IsChild s i)
    (hmin : ∀ c, IsChild c i → LeAt le g s c) : OrderedBut le (exchanged g i s) s := by
  have hlt := hs.lt
  constructor
  · intro p c hchild hp hc a b ha hb
    rw [exchanged] at ha hb
    by_cases hpi : p = i
    · -- the other child of `i`
      subst hpi
      have hcp : c ≠ p := Nat.ne_of_gt hchild.lt
      rw [if_pos rfl] at ha
      rw [if_neg hcp, if_neg hc] at hb
      exact hmin c hchild a b ha hb
    · rw [if_neg hpi, if_neg hp] at ha
      by_cases hci : c = i
      · subst hci
        rw [if_pos rfl] at hb
        exact h.around p s hchild hs a b ha hb
      · rw [if_neg hci, if_neg hc] at hb
        exact h.off p c hchild hpi hci a b ha hb
  · intro p c hp hc a b ha hb
    have hpi : p = i := hp.2.symm.trans hs.2
    have hgt := hc.lt
    subst hpi
    rw [exchanged_left] at ha
    rw [exchanged_other (by omega) (by omega)] at hb
    exact h.off s c hc (by omega) (by omega) a b ha hb

/-- The element at `i` is not larger than its children. -/
theorem OrderedBut.below (h : OrderedBut le g i) (hchildren : ∀ c, IsChild c i → LeAt le g i c) :
    OrderedBelow le g i := by
  refine ⟨?_, h.around⟩
  intro p c hchild hc
  by_cases hp : p = i
  · subst hp
    exact hchildren c hchild
  · exact h.off p c hchild hp hc

/-! ## Moving an element up -/

/-- An element is added at a position that has no children yet. -/
theorem Ordered.orderedBelow (h : Ordered le g) (hsame : ∀ j, j ≠ i → g' j = g j)
    (hleaf : ∀ c, IsChild c i → g' c = none) : OrderedBelow le g' i := by
  constructor
  · intro p c hchild hc a b ha hb
    by_cases hp : p = i
    · subst hp
      rw [hleaf c hchild] at hb
      cases hb
    · rw [hsame p hp] at ha
      rw [hsame c hc] at hb
      exact h p c hchild a b ha hb
  · intro p c _ hc a b _ hb
    rw [hleaf c hc] at hb
    cases hb

/-- The element at `i` changes places with its parent, which is larger. -/
theorem OrderedBelow.exchange (hle : TotalPreorder le) (h : OrderedBelow le g i) (hi : 0 < i)
    (hsome : (g (parent i)).isSome) (hlt : LeAt le g i (parent i)) :
    OrderedBelow le (exchanged g i (parent i)) (parent i) := by
  have hchild := isChild_parent hi
  have hpi := hchild.lt
  constructor
  · intro p c hc hne a b ha hb
    rw [exchanged] at ha hb
    by_cases hci : c = i
    · have hp : p = parent i := by rw [← hc.2, hci]
      subst hp hci
      rw [if_neg (by omega), if_pos rfl] at ha
      rw [if_pos rfl] at hb
      exact hlt a b ha hb
    · rw [if_neg hci, if_neg hne] at hb
      by_cases hp : p = i
      · subst hp
        rw [if_pos rfl] at ha
        exact h.around (parent p) c hchild hc a b ha hb
      · rw [if_neg hp] at ha
        by_cases hpp : p = parent i
        · -- the other child of the parent
          rw [if_pos hpp] at ha
          obtain ⟨x, hx⟩ := Option.isSome_iff_exists.mp hsome
          subst hpp
          exact hle.trans (hlt a x ha hx) (h.off (parent i) c hc hci x b hx hb)
        · rw [if_neg hpp] at ha
          exact h.off p c hc hci a b ha hb
  · intro p c hp hc a b ha hb
    have hpp := hp.lt
    have hcp := hc.lt
    rw [exchanged_other (by omega) (by omega)] at ha
    obtain ⟨x, hx⟩ := Option.isSome_iff_exists.mp hsome
    have hup := h.off p (parent i) hp (by omega) a x ha hx
    by_cases hci : c = i
    · subst hci
      rw [exchanged_left, hx] at hb
      cases hb
      exact hup
    · rw [exchanged_other hci (by omega)] at hb
      exact hle.trans hup (h.off (parent i) c hc hci x b hx hb)

/-- The element at `i` is not smaller than its parent. -/
theorem OrderedBelow.ordered (h : OrderedBelow le g i)
    (htop : ∀ p, IsChild i p → LeAt le g p i) : Ordered le g := by
  intro p c hchild
  by_cases hc : c = i
  · subst hc
    exact htop p hchild
  · exact h.off p c hchild hc

end BinaryHeap

end Elogind.Lib
