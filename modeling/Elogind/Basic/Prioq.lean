/-
  Elogind.Basic.Prioq

  Priority queues (prioq.c): a heap in an array, which keeps the index of each
  item up to date in a cell that its owner has registered for it.

  Indices are `unsigned`, and the children of the item at `idx` are looked for at
  `(idx + 1) * 2` and before it, modulo 2^32.
-/

import Elogind.Basic.Errno
import Elogind.Lib.BinaryHeap
import Elogind.Lib.Loop
import Elogind.Lib.Run

namespace Elogind

open Lib Lib.BinaryHeap

/-! ## Definitions -/

/-- `struct prioq_item` -/
structure PrioqItem (D C : Type) where
  data : D
  idx : Option C
  deriving DecidableEq, Repr

/-- `Prioq`, together with what is in the memory it works on: `compareFunc` says how
    the items compare with the priorities they have now, and `cells` holds what the
    registered index cells contain. -/
structure Prioq (D C : Type) where
  compareFunc : D → D → Int
  items : List (PrioqItem D C)
  cells : C → Nat

/-- `PRIOQ_IDX_NULL` -/
def prioqIdxNull : Nat := 2 ^ 32 - 1

namespace Prioq

variable {D C : Type}

section Definitions

variable [DecidableEq D] [DecidableEq C]

/-- `prioq_new` -/
def new (compareFunc : D → D → Int) (cells : C → Nat) : Prioq D C :=
  { compareFunc := compareFunc, items := [], cells := cells }

/-- Stores an index in the cell of an item, if it has one. -/
def setCell (cells : C → Nat) (idx : Option C) (i : Nat) : C → Nat :=
  match idx with
  | none => cells
  | some c => Function.update cells c i

/-- How two items of the array compare.  Only indices of items are ever used. -/
def compareAt (q : Prioq D C) (i j : Nat) : Int :=
  match q.items[i]?, q.items[j]? with
  | some a, some b => q.compareFunc a.data b.data
  | _, _ => 0

/-- `swap` -/
def swap (q : Prioq D C) (j k : Nat) : Prioq D C :=
  match q.items[j]?, q.items[k]? with
  | some a, some b =>
    { q with
      items := (q.items.set j b).set k a
      cells := setCell (setCell q.cells b.idx j) a.idx k }
  | _, _ => q

/-- `shuffle_up`; nobody uses the index that it returns. -/
def shuffleUp (q : Prioq D C) (idx : Nat) : Prioq D C :=
  if 0 < idx then
    if q.compareAt ((idx - 1) / 2) idx ≤ 0 then q
    else (q.swap idx ((idx - 1) / 2)).shuffleUp ((idx - 1) / 2)
  else q
  termination_by idx
  decreasing_by omega

/-- A round of the loop in `shuffle_down`; `none` if the loop is left. -/
def shuffleDownRound (s : Prioq D C × Nat) : Option (Prioq D C × Nat) :=
  let q := s.1
  let idx := s.2
  let k := (idx + 1) * 2 % 2 ^ 32
  let j := (k + 2 ^ 32 - 1) % 2 ^ 32
  if j ≥ q.items.length then none
  else
    let s := if q.compareAt j idx < 0 then j else idx
    let s := if k < q.items.length ∧ q.compareAt k s < 0 then k else s
    if s = idx then none else some (q.swap idx s, s)

/-- `shuffle_down`, if its loop ends within `fuel` rounds: the queue, and the index
    at which the item is now. -/
def shuffleDown (fuel : Nat) (q : Prioq D C) (idx : Nat) : Option (Prioq D C × Nat) :=
  iterate shuffleDownRound fuel (q, idx)

/-- `prioq_put`, and the code it returns.  The call does not return when the number
    of items would not fit an `unsigned`: then the assertion of `shuffle_up` fails. -/
def prioqPut (q : Prioq D C) (data : D) (idx : Option C) (allocated : Bool) :
    Option (Prioq D C × Int) :=
  let k := q.items.length
  if !allocated then some (q, Errno.ENOMEM.neg)
  else if (k + 1) % 2 ^ 32 ≤ k then none
  else
    let q : Prioq D C :=
      { q with
        items := q.items ++ [{ data := data, idx := idx }]
        cells := setCell q.cells idx k }
    some (q.shuffleUp k, 0)

/-- `remove_item`: the last item takes the place of the one at `i`. -/
def removeItem (fuel : Nat) (q : Prioq D C) (i : Nat) : Option (Prioq D C) :=
  match q.items.getLast? with
  | none => none
  | some l =>
    if i + 1 = q.items.length then some { q with items := q.items.dropLast }
    else
      let q : Prioq D C :=
        { q with
          items := (q.items.set i l).dropLast
          cells := setCell q.cells l.idx i }
      (q.shuffleDown fuel i).map fun (q, k) => q.shuffleUp k

/-- `find_item`: the index of the item. -/
def findItem (q : Prioq D C) (data : D) (idx : Option C) : Option Nat :=
  match idx with
  | some c =>
    if q.cells c = prioqIdxNull ∨ q.cells c ≥ q.items.length then none
    else if (q.items[q.cells c]?).map (·.data) = some data then some (q.cells c)
    else none
  | none => q.items.findIdx? fun i => i.data = data

/-- `prioq_remove` -/
def prioqRemove (fuel : Nat) (q : Prioq D C) (data : D) (idx : Option C) :
    Option (Prioq D C × Int) :=
  match q.findItem data idx with
  | none => some (q, 0)
  | some i => (q.removeItem fuel i).map fun q => (q, 1)

/-- `prioq_reshuffle` -/
def prioqReshuffle (fuel : Nat) (q : Prioq D C) (data : D) (idx : Option C) :
    Option (Prioq D C) :=
  match q.findItem data idx with
  | none => some q
  | some i => (q.shuffleDown fuel i).map fun (q, k) => q.shuffleUp k

/-- `prioq_peek_by_index` -/
def prioqPeekByIndex (q : Prioq D C) (idx : Nat) : Option D := (q.items[idx]?).map (·.data)

/-- `prioq_peek` -/
def prioqPeek (q : Prioq D C) : Option D := q.prioqPeekByIndex 0

/-- `prioq_pop` -/
def prioqPop (fuel : Nat) (q : Prioq D C) : Option (Prioq D C × Option D) :=
  match q.items with
  | [] => some (q, none)
  | i :: _ => (q.removeItem fuel 0).map fun q => (q, some i.data)

/-! ## What callers do -/

/-- A compare function that orders the items by their priorities. -/
structure IsTotalPreorder (cmp : D → D → Int) : Prop where
  swap : ∀ a b, cmp a b < 0 ↔ 0 < cmp b a
  trans : ∀ {a b c}, cmp a b ≤ 0 → cmp b c ≤ 0 → cmp a c ≤ 0

/-- The cell is registered for one of the items. -/
def Registered (q : Prioq D C) (c : C) : Prop := ∃ x ∈ q.items, x.idx = some c

/-- The items at all indices but `skip` compare with each other as they did. -/
def SamePriorities (q : Prioq D C) (cmp : D → D → Int) (skip : Option Nat) : Prop :=
  ∀ i j x y, some i ≠ skip → some j ≠ skip → q.items[i]? = some x → q.items[j]? = some y →
    cmp x.data y.data = q.compareFunc x.data y.data

/-- A call, and which item it added or took out. -/
inductive Event (D C : Type) where
  | put (data : D) (idx : Option C) (added : Bool)
  | remove (data : D) (idx : Option C) (removed : Option (PrioqItem D C))
  | reshuffle (data : D) (idx : Option C)
  | pop (removed : Option (PrioqItem D C))
  | elsewhere

/-- What can happen to a queue.  An index cell is registered for one item, and is
    then left to the queue.  The priority of an item is only changed before it is
    reshuffled, while it is not stored, or back and forth. -/
inductive Step : Prioq D C → Event D C → Prioq D C → Prop where
  | put {q q' : Prioq D C} {data : D} {idx : Option C} {r : Int} (allocated : Bool)
      (hidx : ∀ c, idx = some c → ¬q.Registered c)
      (h : q.prioqPut data idx allocated = some (q', r)) :
      Step q (.put data idx (r = 0)) q'
  | remove {q q' : Prioq D C} {data : D} {idx : Option C} {r : Int} (fuel : Nat)
      (h : q.prioqRemove fuel data idx = some (q', r)) :
      Step q (.remove data idx ((q.findItem data idx).bind fun i => q.items[i]?)) q'
  | reshuffle {q q' : Prioq D C} {data : D} {idx : Option C} {cmp : D → D → Int} (fuel : Nat)
      (hcmp : IsTotalPreorder cmp) (hsame : q.SamePriorities cmp (q.findItem data idx))
      (h : { q with compareFunc := cmp }.prioqReshuffle fuel data idx = some q') :
      Step q (.reshuffle data idx) q'
  | pop {q q' : Prioq D C} {r : Option D} (fuel : Nat) (h : q.prioqPop fuel = some (q', r)) :
      Step q (.pop q.items[0]?) q'
  | elsewhere {q : Prioq D C} {cmp : D → D → Int} {cells : C → Nat} (hcmp : IsTotalPreorder cmp)
      (hsame : q.SamePriorities cmp none) (hcells : ∀ c, q.Registered c → cells c = q.cells c) :
      Step q .elsewhere { q with compareFunc := cmp, cells := cells }

/-- The items added by the calls. -/
def inserted : List (Event D C) → List (PrioqItem D C)
  | [] => []
  | .put data idx added :: es =>
    (if added then [{ data := data, idx := idx }] else []) ++ inserted es
  | _ :: es => inserted es

/-- The items taken out by the calls. -/
def removed : List (Event D C) → List (PrioqItem D C)
  | [] => []
  | .remove _ _ x :: es => x.toList ++ removed es
  | .pop x :: es => x.toList ++ removed es
  | _ :: es => removed es

end Definitions

/-! ## Moving items -/

/-- The items of a queue are compared by their data. -/
def le (q : Prioq D C) (a b : PrioqItem D C) : Prop := q.compareFunc a.data b.data ≤ 0

/-- The array as a heap. -/
def itemAt (q : Prioq D C) (i : Nat) : Option (PrioqItem D C) := q.items[i]?

/-- Every registered cell holds the index of its item. -/
def CellsHold (q : Prioq D C) : Prop :=
  ∀ i x c, q.itemAt i = some x → x.idx = some c → q.cells c = i

/-- Items were moved about, and their cells with them. -/
structure Moved (q q' : Prioq D C) : Prop where
  compareFunc : q'.compareFunc = q.compareFunc
  items : q'.items.Perm q.items
  cells : q.CellsHold → q'.CellsHold

theorem Moved.refl (q : Prioq D C) : q.Moved q := ⟨rfl, .refl _, id⟩

variable {q q' : Prioq D C} {i j : Nat}

theorem Moved.trans {q'' : Prioq D C} (h : q.Moved q') (h' : q'.Moved q'') : q.Moved q'' :=
  ⟨h'.compareFunc.trans h.compareFunc, h'.items.trans h.items, fun hq => h'.cells (h.cells hq)⟩

theorem Moved.le (h : q.Moved q') : q'.le = q.le := by
  unfold Prioq.le
  rw [h.compareFunc]

theorem Moved.length (h : q.Moved q') : q'.items.length = q.items.length :=
  h.items.length_eq

theorem totalPreorder_le (h : IsTotalPreorder q.compareFunc) : TotalPreorder q.le where
  total a b := by
    have hswap := h.swap b.data a.data
    unfold le
    omega
  trans := h.trans

theorem itemAt_of_lt (h : i < q.items.length) : ∃ x, q.itemAt i = some x := ⟨_, List.getElem?_eq_getElem h⟩

theorem lt_of_itemAt {x : PrioqItem D C} (h : q.itemAt i = some x) : i < q.items.length := (List.getElem?_eq_some_iff.mp h).1

/-- The array has no gaps. -/
theorem itemAt_parent (q : Prioq D C) (i : Nat) (h : (q.itemAt i).isSome) (hi : 0 < i) :
    (q.itemAt (parent i)).isSome := by
  obtain ⟨x, hx⟩ := Option.isSome_iff_exists.mp h
  have hlt := lt_of_itemAt hx
  have hp := (isChild_parent hi).lt
  obtain ⟨y, hy⟩ := itemAt_of_lt (Nat.lt_trans hp hlt)
  rw [hy]
  rfl

/-- What the comparison of two items of the array says. -/
theorem compareAt_eq {a b : PrioqItem D C} (ha : q.itemAt i = some a) (hb : q.itemAt j = some b) :
    q.compareAt i j = q.compareFunc a.data b.data := by
  unfold itemAt at ha hb
  rw [compareAt, ha, hb]

theorem leAt_of_compareAt (h : q.compareAt i j ≤ 0) : LeAt q.le q.itemAt i j := by
  intro a b ha hb
  rw [compareAt_eq ha hb] at h
  exact h

theorem leAt_of_not_lt (hcmp : IsTotalPreorder q.compareFunc) (h : ¬q.compareAt i j < 0) :
    LeAt q.le q.itemAt j i := by
  intro a b ha hb
  rw [compareAt_eq hb ha, hcmp.swap] at h
  exact Int.not_lt.mp h

section Cells

variable [DecidableEq C]

theorem setCell_of_ne {cells : C → Nat} {idx : Option C} {i : Nat} {c : C} (h : idx ≠ some c) :
    setCell cells idx i c = cells c := by
  cases idx with
  | none => rfl
  | some d =>
    have hd : c ≠ d := by
      rintro rfl
      exact h rfl
    exact Function.update_of_ne hd i cells

theorem setCell_self (cells : C → Nat) (i : Nat) (c : C) : setCell cells (some c) i c = i := by
  exact Function.update_self c i cells

variable {q : Prioq D C} {j k idx : Nat}

theorem swap_eq {a b : PrioqItem D C} (ha : q.itemAt j = some a) (hb : q.itemAt k = some b) :
    q.swap j k = { q with
      items := (q.items.set j b).set k a
      cells := setCell (setCell q.cells b.idx j) a.idx k } := by
  unfold itemAt at ha hb
  rw [swap, ha, hb]

/-- The two items have changed places. -/
theorem itemAt_swap (hj : j < q.items.length) (hk : k < q.items.length) :
    (q.swap j k).itemAt = exchanged q.itemAt j k := by
  obtain ⟨a, ha⟩ := itemAt_of_lt hj
  obtain ⟨b, hb⟩ := itemAt_of_lt hk
  funext i
  rw [swap_eq ha hb]
  unfold exchanged
  show ((q.items.set j b).set k a)[i]? = _
  rw [List.getElem?_set, List.getElem?_set, List.length_set]
  by_cases hik : i = k
  · subst hik
    rw [if_pos rfl, if_pos hk]
    split
    · next h => rw [hb, ← hb, h, ha]
    · rw [if_pos rfl, ha]
  · rw [if_neg (Ne.symm hik)]
    by_cases hij : i = j
    · subst hij
      rw [if_pos rfl, if_pos hj, if_pos rfl, hb]
    · rw [if_neg (Ne.symm hij), if_neg hij, if_neg hik]
      rfl

theorem moved_swap (hj : j < q.items.length) (hk : k < q.items.length) (hne : j ≠ k) :
    q.Moved (q.swap j k) := by
  obtain ⟨a, ha⟩ := itemAt_of_lt hj
  obtain ⟨b, hb⟩ := itemAt_of_lt hk
  have heq := swap_eq ha hb
  refine ⟨by rw [heq], ?_, ?_⟩
  · have hperm := List.set_set_perm hj hk
    have ha' : q.items[j] = a := (List.getElem?_eq_some_iff.mp ha).2
    have hb' : q.items[k] = b := (List.getElem?_eq_some_iff.mp hb).2
    rw [ha', hb'] at hperm
    rw [heq]
    exact hperm
  · intro hcells i x c hx hc
    rw [itemAt_swap hj hk] at hx
    rw [heq]
    show setCell (setCell q.cells b.idx j) a.idx k c = i
    -- a cell belongs to one item only
    have hunique : ∀ {i i' x x'}, q.itemAt i = some x → q.itemAt i' = some x' → x.idx = some c →
        x'.idx = some c → i = i' := by
      intro i i' x x' hx hx' hc hc'
      rw [← hcells i x c hx hc, ← hcells i' x' c hx' hc']
    unfold exchanged at hx
    split at hx
    · next h =>
      subst h
      rw [hb] at hx
      cases hx
      rw [setCell_of_ne fun h => hne (hunique ha hb h hc), hc, setCell_self]
    · next hij =>
      split at hx
      · next h =>
        subst h
        rw [ha] at hx
        cases hx
        rw [hc, setCell_self]
      · next hik =>
        rw [setCell_of_ne fun h => hij (hunique hx ha hc h),
          setCell_of_ne fun h => hik (hunique hx hb hc h)]
        exact hcells i x c hx hc

/-! ## Shuffling -/

/-- `shuffle_up` puts an item in order that may be smaller than its parent. -/
theorem shuffleUp_spec (hcmp : IsTotalPreorder q.compareFunc) (hidx : idx < q.items.length)
    (h : OrderedBelow q.le q.itemAt idx) :
    q.Moved (q.shuffleUp idx) ∧ Ordered q.le (q.shuffleUp idx).itemAt := by
  induction q, idx using shuffleUp.induct with
  | case1 q idx hpos hle =>
    rw [shuffleUp, if_pos hpos, if_pos hle]
    refine ⟨.refl q, h.ordered fun p hp => ?_⟩
    rw [← hp.2]
    exact leAt_of_compareAt hle
  | case2 q idx hpos hgt ih =>
    rw [shuffleUp, if_pos hpos, if_neg hgt]
    have hp := (isChild_parent hpos).lt
    have hmoved := moved_swap hidx (Nat.lt_trans hp hidx) (Nat.ne_of_gt hp)
    obtain ⟨x, hx⟩ := itemAt_of_lt (Nat.lt_trans hp hidx)
    have hle : LeAt q.le q.itemAt idx (parent idx) :=
      leAt_of_not_lt hcmp fun hlt => hgt (Int.le_of_lt hlt)
    have hup := h.exchange (totalPreorder_le hcmp) hpos (by rw [hx]; rfl) hle
    rw [← itemAt_swap hidx (Nat.lt_trans hp hidx)] at hup
    rw [← hmoved.le] at hup
    have hlen : parent idx < (q.swap idx (parent idx)).items.length := by
      rw [hmoved.length]
      exact Nat.lt_trans hp hidx
    obtain ⟨hmoved', hordered⟩ := ih (hmoved.compareFunc ▸ hcmp) hlen hup
    exact ⟨hmoved.trans hmoved', by rw [← hmoved.le]; exact hordered⟩
  | case3 q idx hpos =>
    rw [shuffleUp, if_neg hpos]
    refine ⟨.refl q, h.ordered fun p hp => ?_⟩
    exact absurd hp.1 hpos

/-- A round of `shuffle_down` either finds the item in order with its children, or
    exchanges it with the smallest of them. -/
theorem shuffleDownRound_spec (hcmp : IsTotalPreorder q.compareFunc) (hidx : idx < q.items.length)
    (hfits : q.items.length ≤ 2 ^ 31) :
    (shuffleDownRound (q, idx) = none ∧ ∀ c, IsChild c idx → LeAt q.le q.itemAt idx c) ∨
      ∃ s, shuffleDownRound (q, idx) = some (q.swap idx s, s) ∧ IsChild s idx ∧
        s < q.items.length ∧ ∀ c, IsChild c idx → LeAt q.le q.itemAt s c := by
  have hle := totalPreorder_le hcmp
  by_cases hj : ((idx + 1) * 2 % 2 ^ 32 + 2 ^ 32 - 1) % 2 ^ 32 ≥ q.items.length
  · -- there are no children
    refine .inl ⟨by simp only [shuffleDownRound]; rw [if_pos hj], ?_⟩
    intro c hc a b _ hb
    have hlt := lt_of_itemAt hb
    rw [isChild_iff] at hc
    omega
  have hk : (idx + 1) * 2 % 2 ^ 32 = 2 * idx + 2 := by omega
  have hj' : (2 * idx + 2 + 2 ^ 32 - 1) % 2 ^ 32 = 2 * idx + 1 := by omega
  rw [hk, hj'] at hj
  have hround : shuffleDownRound (q, idx) =
      let s := if q.compareAt (2 * idx + 1) idx < 0 then 2 * idx + 1 else idx
      let s := if 2 * idx + 2 < q.items.length ∧ q.compareAt (2 * idx + 2) s < 0 then
        2 * idx + 2 else s
      if s = idx then none else some (q.swap idx s, s) := by
    simp only [shuffleDownRound, hk, hj']
    rw [if_neg hj]
  obtain ⟨x, hx⟩ := itemAt_of_lt hidx
  obtain ⟨y, hy⟩ := itemAt_of_lt (Nat.lt_of_not_le hj)
  -- the smaller one of the item and its left child
  generalize hs : (if q.compareAt (2 * idx + 1) idx < 0 then 2 * idx + 1 else idx) = s at hround
  have hsmall : (s = idx ∨ s = 2 * idx + 1) ∧ LeAt q.le q.itemAt s idx ∧
      LeAt q.le q.itemAt s (2 * idx + 1) := by
    split at hs
    · next hlt =>
      subst hs
      exact ⟨.inr rfl, leAt_of_compareAt (Int.le_of_lt hlt), fun a b ha hb => by
        rw [ha] at hb
        cases hb
        exact hle.refl a⟩
    · next hlt =>
      subst hs
      exact ⟨.inl rfl, fun a b ha hb => by
        rw [ha] at hb
        cases hb
        exact hle.refl a, leAt_of_not_lt hcmp hlt⟩
  obtain ⟨hcases, hsidx, hsleft⟩ := hsmall
  obtain ⟨z, hz⟩ : ∃ z, q.itemAt s = some z := by
    rcases hcases with rfl | rfl
    · exact ⟨x, hx⟩
    · exact ⟨y, hy⟩
  by_cases hright : 2 * idx + 2 < q.items.length ∧ q.compareAt (2 * idx + 2) s < 0
  · -- the right child is the smallest of the three
    have hrs : LeAt q.le q.itemAt (2 * idx + 2) s := leAt_of_compareAt (Int.le_of_lt hright.2)
    refine .inr ⟨2 * idx + 2, ?_, (isChild_iff).mpr (.inr rfl), hright.1, ?_⟩
    · rw [hround]
      show (if (if _ then _ else s) = idx then none else some (_, if _ then _ else s)) = _
      rw [if_pos hright, if_neg (by omega)]
    · intro c hc a b ha hb
      rcases (isChild_iff).mp hc with rfl | rfl
      · exact hle.trans (hrs a z ha hz) (hsleft z b hz hb)
      · rw [ha] at hb
        cases hb
        exact hle.refl a
  · have hsright : LeAt q.le q.itemAt s (2 * idx + 2) := by
      intro a b ha hb
      exact leAt_of_not_lt hcmp (fun hlt => hright ⟨lt_of_itemAt hb, hlt⟩) a b ha hb
    have hmin : ∀ c, IsChild c idx → LeAt q.le q.itemAt s c := by
      intro c hc
      rcases (isChild_iff).mp hc with rfl | rfl
      · exact hsleft
      · exact hsright
    have hround' : shuffleDownRound (q, idx) = if s = idx then none else some (q.swap idx s, s) := by
      rw [hround]
      show (if (if _ then _ else s) = idx then none else some (_, if _ then _ else s)) = _
      rw [if_neg hright]
    rcases hcases with rfl | rfl
    · exact .inl ⟨by rw [hround', if_pos rfl], hmin⟩
    · exact .inr ⟨_, by rw [hround', if_neg (by omega)], (isChild_iff).mpr (.inl rfl),
        lt_of_itemAt hy, hmin⟩

/-- `shuffle_down` and `shuffle_up` after it put an item in order. -/
theorem shuffle_spec (hcmp : IsTotalPreorder q.compareFunc) (hidx : idx < q.items.length)
    (hfits : q.items.length ≤ 2 ^ 31) (h : OrderedBut q.le q.itemAt idx) :
    (∃ fuel s, q.shuffleDown fuel idx = some s) ∧
      ∀ fuel q' k, q.shuffleDown fuel idx = some (q', k) →
        q.Moved (q'.shuffleUp k) ∧ Ordered q.le (q'.shuffleUp k).itemAt := by
  -- what holds at the head of the loop
  let I : Prioq D C × Nat → Prop := fun s =>
    q.Moved s.1 ∧ s.2 < q.items.length ∧ OrderedBut q.le s.1.itemAt s.2
  have hstart : I (q, idx) := ⟨.refl q, hidx, h⟩
  have hround : ∀ {s t : Prioq D C × Nat}, I s → shuffleDownRound s = some t →
      I t ∧ q.items.length - t.2 < q.items.length - s.2 := by
    rintro ⟨p, i⟩ t ⟨hmoved, hi, hbut⟩ ht
    have hip : i < p.items.length := by
      rw [hmoved.length]
      exact hi
    rcases shuffleDownRound_spec (hmoved.compareFunc ▸ hcmp) hip (by rw [hmoved.length]; exact hfits)
      with ⟨hnone, -⟩ | ⟨s, hsome, hchild, hs, hmin⟩
    · rw [hnone] at ht
      cases ht
    · rw [hsome] at ht
      cases ht
      rw [hmoved.le] at hmin
      have hlt := hchild.lt
      refine ⟨⟨hmoved.trans (moved_swap hip hs (Nat.ne_of_lt hlt)), ?_, ?_⟩, ?_⟩
      · rw [← hmoved.length]
        exact hs
      · rw [itemAt_swap hip hs]
        exact hbut.exchange hchild hmin
      · show q.items.length - s < q.items.length - i
        omega
  constructor
  · obtain ⟨heads, s, hloop, -⟩ := Loop.exists_of_measure hround hstart
    exact ⟨_, s, hloop.iterate_eq⟩
  · intro fuel q' k hdown
    obtain ⟨heads, hloop⟩ := Loop.of_iterate hdown
    obtain ⟨⟨hmoved, hk, hbut⟩, -⟩ := hloop.invariant hstart fun hs ht => (hround hs ht).1
    have hk' : k < q'.items.length := by
      rw [hmoved.length]
      exact hk
    have hcmp' : IsTotalPreorder q'.compareFunc := hmoved.compareFunc ▸ hcmp
    have hbelow : OrderedBelow q'.le q'.itemAt k := by
      rcases shuffleDownRound_spec hcmp' hk' (by rw [hmoved.length]; exact hfits)
        with ⟨-, hchildren⟩ | ⟨s, hsome, -⟩
      · rw [hmoved.le] at hchildren ⊢
        exact hbut.below hchildren
      · rw [hloop.next_end] at hsome
        cases hsome
    obtain ⟨hmoved', hordered⟩ := shuffleUp_spec hcmp' hk' hbelow
    exact ⟨hmoved.trans hmoved', by rw [← hmoved.le]; exact hordered⟩

end Cells

end Prioq

end Elogind
