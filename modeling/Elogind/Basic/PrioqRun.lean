/-
  Elogind.Basic.PrioqRun

  What holds of a priority queue (prioq.c) after every sequence of calls, as long as
  it never has more than 2^31 items; and what happens when it has.
-/

import Elogind.Basic.Prioq

namespace Elogind

open Lib Lib.BinaryHeap List

namespace Prioq

variable {D C : Type}

section Cells

variable [DecidableEq C]

/-! ## The operations -/

/-- A queue that is in order.  With more than 2^31 items the indices of children do
    not fit an `unsigned` any more. -/
structure Valid (q : Prioq D C) : Prop where
  compareFunc : IsTotalPreorder q.compareFunc
  fits : q.items.length ≤ 2 ^ 31
  ordered : Ordered q.le q.itemAt
  cells : q.CellsHold

variable {q q' : Prioq D C} {i : Nat}

omit [DecidableEq C] in
/-- A queue is still valid when its items were moved and are in order. -/
theorem Valid.of_moved (hcmp : IsTotalPreorder q.compareFunc) (hfits : q.items.length ≤ 2 ^ 31)
    (hcells : q.CellsHold) (hmoved : q.Moved q') (hordered : Ordered q.le q'.itemAt) : q'.Valid where
  compareFunc := hmoved.compareFunc ▸ hcmp
  fits := by rw [hmoved.length]; exact hfits
  ordered := by rw [hmoved.le]; exact hordered
  cells := hmoved.cells hcells

theorem prioqPut_spec (hq : q.Valid) (hroom : q.items.length < 2 ^ 31) (data : D) {idx : Option C}
    (hidx : ∀ c, idx = some c → ¬q.Registered c) :
    ∃ q', q.prioqPut data idx true = some (q', 0) ∧ q'.Valid ∧
      q'.items.Perm ({ data := data, idx := idx } :: q.items) := by
  let x : PrioqItem D C := { data := data, idx := idx }
  let p : Prioq D C :=
    { q with items := q.items ++ [x], cells := setCell q.cells idx q.items.length }
  have hput : q.prioqPut data idx true = some (p.shuffleUp q.items.length, 0) := by
    unfold prioqPut
    simp only [Bool.not_true, Bool.false_eq_true, if_false]
    rw [if_neg (by omega)]
  have hlen : p.items.length = q.items.length + 1 := length_append
  have hsame : ∀ j, j ≠ q.items.length → p.itemAt j = q.itemAt j := by
    intro j hj
    show (q.items ++ [x])[j]? = q.items[j]?
    by_cases hlt : j < q.items.length
    · rw [getElem?_append_left hlt]
    · rw [getElem?_eq_none (by rw [length_append, length_singleton]; omega),
        getElem?_eq_none (by omega)]
  have hbelow : OrderedBelow p.le p.itemAt q.items.length := by
    refine hq.ordered.orderedBelow hsame fun c hc => ?_
    have hgt := hc.lt
    exact getElem?_eq_none (by rw [hlen]; omega)
  have hcells : p.CellsHold := by
    intro i y c hy hc
    show setCell q.cells idx q.items.length c = i
    by_cases hi : i = q.items.length
    · subst hi
      have hlast : p.itemAt q.items.length = some x := by
        show (q.items ++ [x])[q.items.length]? = some x
        rw [getElem?_append_right (Nat.le_refl _), Nat.sub_self]
        rfl
      rw [hlast] at hy
      cases hy
      rw [show idx = some c from hc, setCell_self]
    · rw [hsame i hi] at hy
      have hreg : q.Registered c := ⟨y, mem_of_getElem? hy, hc⟩
      rw [setCell_of_ne fun h => hidx c h hreg]
      exact hq.cells i y c hy hc
  obtain ⟨hmoved, hordered⟩ := shuffleUp_spec (q := p) hq.compareFunc (by rw [hlen]; omega) hbelow
  refine ⟨_, hput, .of_moved (q := p) hq.compareFunc (by rw [hlen]; omega) hcells hmoved hordered, ?_⟩
  exact hmoved.items.trans perm_append_comm

omit [DecidableEq C] in
theorem set_last {l : List (PrioqItem D C)} (h : l ≠ []) (x : PrioqItem D C) :
    l.set (l.length - 1) x = l.dropLast ++ [x] := by
  have hpos := length_pos_iff.mpr h
  apply ext_getElem?
  intro j
  rw [getElem?_set, getElem?_append, getElem?_dropLast, length_dropLast]
  by_cases hlt : j < l.length - 1
  · rw [if_neg (by omega), if_pos hlt, if_pos hlt]
  · rw [if_neg hlt]
    by_cases hj : l.length - 1 = j
    · rw [if_pos hj, if_pos (by omega), ← hj, Nat.sub_self]
      rfl
    · rw [if_neg hj, getElem?_eq_none (by omega), getElem?_eq_none (by simp; omega)]

omit [DecidableEq C] in
/-- The last item takes the place of another one. -/
theorem perm_replaced {l : List (PrioqItem D C)} {x y : PrioqItem D C} (hx : l[i]? = some x)
    (hy : l.getLast? = some y) : (x :: (l.set i y).dropLast).Perm l := by
  obtain ⟨hi, hx⟩ := List.getElem?_eq_some_iff.mp hx
  rw [getLast?_eq_getElem?] at hy
  obtain ⟨hlast, hy⟩ := List.getElem?_eq_some_iff.mp hy
  have hne : l.set i y ≠ [] := by
    intro h
    rw [set_eq_nil_iff] at h
    rw [h] at hi
    cases hi
  have hperm := set_set_perm hi hlast
  have hset := set_last hne x
  rw [length_set] at hset
  rw [hx, hy, hset] at hperm
  exact perm_append_comm.trans hperm

theorem removeItem_spec (hq : q.Valid) {x : PrioqItem D C} (hx : q.itemAt i = some x) :
    (∃ fuel q', q.removeItem fuel i = some q') ∧
      ∀ fuel q', q.removeItem fuel i = some q' → q'.Valid ∧ (x :: q'.items).Perm q.items := by
  have hi := lt_of_itemAt hx
  obtain ⟨l, hl⟩ : ∃ l, q.items.getLast? = some l := by
    cases hlast : q.items.getLast? with
    | none =>
      rw [getLast?_eq_none_iff] at hlast
      rw [hlast] at hi
      cases hi
    | some l => exact ⟨l, rfl⟩
  have hl' : q.itemAt (q.items.length - 1) = some l := by
    rw [← hl, getLast?_eq_getElem?]
    rfl
  have hperm := perm_replaced hx hl
  by_cases hlast : i + 1 = q.items.length
  · -- the last item is removed: nothing is moved
    have hremove : ∀ fuel, q.removeItem fuel i = some { q with items := q.items.dropLast } := by
      intro fuel
      rw [removeItem, hl]
      exact if_pos hlast
    refine ⟨⟨0, _, hremove 0⟩, ?_⟩
    intro fuel q' h
    rw [hremove] at h
    cases h
    have hsub : ∀ j a, ({ q with items := q.items.dropLast } : Prioq D C).itemAt j = some a →
        q.itemAt j = some a := by
      intro j a ha
      have ha' : q.items.dropLast[j]? = some a := ha
      rw [getElem?_dropLast] at ha'
      split at ha'
      · exact ha'
      · cases ha'
    refine ⟨⟨hq.compareFunc, ?_, ?_, ?_⟩, ?_⟩
    · show q.items.dropLast.length ≤ 2 ^ 31
      have := hq.fits
      rw [length_dropLast]
      omega
    · intro p c hchild a b ha hb
      exact hq.ordered p c hchild a b (hsub p a ha) (hsub c b hb)
    · intro j y c hy hc
      exact hq.cells j y c (hsub j y hy) hc
    · have hil : l = x := by
        have hil : i = q.items.length - 1 := by omega
        rw [← hil, hx] at hl'
        exact (Option.some.inj hl').symm
      have hset : q.items.set i x = q.items := by
        obtain ⟨_, hx'⟩ := List.getElem?_eq_some_iff.mp hx
        rw [← hx', set_getElem_self]
      rwa [hil, hset] at hperm
  · -- the last item takes the place of the removed one, and is moved down or up from there
    let p : Prioq D C :=
      { q with items := (q.items.set i l).dropLast, cells := setCell q.cells l.idx i }
    have hremove : ∀ fuel, q.removeItem fuel i =
        (p.shuffleDown fuel i).map fun r => r.1.shuffleUp r.2 := by
      intro fuel
      rw [removeItem, hl]
      exact if_neg hlast
    have hlen : p.items.length = q.items.length - 1 := by
      show ((q.items.set i l).dropLast).length = _
      rw [length_dropLast, length_set]
    have hat : ∀ j a, p.itemAt j = some a → j + 1 < q.items.length ∧
        (j = i ∧ a = l ∨ j ≠ i ∧ q.itemAt j = some a) := by
      intro j a ha
      have hj := lt_of_itemAt ha
      rw [hlen] at hj
      refine ⟨by omega, ?_⟩
      have ha' : (q.items.set i l).dropLast[j]? = some a := ha
      rw [getElem?_dropLast, length_set, if_pos hj, getElem?_set] at ha'
      by_cases hji : i = j
      · rw [if_pos hji, if_pos hi] at ha'
        exact .inl ⟨hji.symm, (Option.some.inj ha').symm⟩
      · rw [if_neg hji] at ha'
        exact .inr ⟨Ne.symm hji, ha'⟩
    -- only the place of the removed item may be out of order
    have hbut : OrderedBut p.le p.itemAt i := by
      refine hq.ordered.orderedBut (totalPreorder_le hq.compareFunc) (by rw [hx]; rfl) ?_ ?_
      · intro j a hj ha
        rcases (hat j a ha).2 with ⟨h, -⟩ | ⟨-, h⟩
        · exact absurd h hj
        · exact h
      · intro j k a b _ _ _ _ hab
        exact hab
    have hcells : p.CellsHold := by
      intro j y c hy hc
      show setCell q.cells l.idx i c = j
      obtain ⟨hj, ⟨rfl, rfl⟩ | ⟨hji, hy'⟩⟩ := hat j y hy
      · rw [hc, setCell_self]
      · -- two items do not share the cell of an index
        have hne : l.idx ≠ some c := by
          intro hlc
          have h₁ := hq.cells _ l c hl' hlc
          have h₂ := hq.cells j y c hy' hc
          omega
        rw [setCell_of_ne hne]
        exact hq.cells j y c hy' hc
    have hfits : p.items.length ≤ 2 ^ 31 := by
      have := hq.fits
      omega
    obtain ⟨⟨fuel, s, hdown⟩, hspec⟩ :=
      shuffle_spec (q := p) hq.compareFunc (by omega) hfits hbut
    refine ⟨⟨fuel, s.1.shuffleUp s.2, by rw [hremove, hdown]; rfl⟩, ?_⟩
    intro fuel q' h
    rw [hremove] at h
    obtain ⟨⟨q₁, k⟩, hq₁, rfl⟩ := Option.map_eq_some_iff.mp h
    obtain ⟨hmoved, hordered⟩ := hspec fuel q₁ k hq₁
    refine ⟨.of_moved (q := p) hq.compareFunc hfits hcells hmoved hordered, ?_⟩
    exact (hmoved.items.cons x).trans hperm

theorem compareFunc_swap (q : Prioq D C) (j k : Nat) : (q.swap j k).compareFunc = q.compareFunc := by
  unfold swap
  split <;> rfl

theorem compareFunc_shuffleUp (q : Prioq D C) (idx : Nat) : (q.shuffleUp idx).compareFunc = q.compareFunc := by
  induction idx using Nat.strongRecOn generalizing q with
  | ind idx ih =>
    rw [shuffleUp]
    split
    · split
      · rfl
      · rw [ih _ (by omega), compareFunc_swap]
    · rfl

theorem compareFunc_shuffleDown {fuel idx k : Nat} (h : q.shuffleDown fuel idx = some (q', k)) :
    q'.compareFunc = q.compareFunc := by
  obtain ⟨heads, hloop⟩ := Loop.of_iterate h
  let I : Prioq D C × Nat → Prop := fun s => s.1.compareFunc = q.compareFunc
  refine (hloop.invariant (I := I) rfl fun {s t} hs ht => ?_).1
  unfold shuffleDownRound at ht
  rw [Option.ite_none_left_eq_some, Option.ite_none_left_eq_some] at ht
  obtain ⟨-, -, heq⟩ := ht
  cases heq
  exact (compareFunc_swap ..).trans hs

theorem compareFunc_prioqPut {data : D} {idx : Option C} {allocated : Bool} {r : Int}
    (h : q.prioqPut data idx allocated = some (q', r)) : q'.compareFunc = q.compareFunc := by
  unfold prioqPut at h
  dsimp only at h
  split at h
  · cases h
    rfl
  split at h
  · cases h
  · cases h
    exact compareFunc_shuffleUp ..

/-- Taking out an item does not change how the others compare. -/
theorem compareFunc_removeItem {fuel : Nat} (h : q.removeItem fuel i = some q') :
    q'.compareFunc = q.compareFunc := by
  unfold removeItem at h
  split at h
  · cases h
  split at h
  · cases h
    rfl
  · obtain ⟨⟨q₁, k⟩, hdown, rfl⟩ := Option.map_eq_some_iff.mp h
    have hmoved := compareFunc_shuffleDown hdown
    exact (compareFunc_shuffleUp ..).trans hmoved

omit [DecidableEq C] in
/-- The items of a valid queue can compare otherwise if it is not noticed. -/
theorem Valid.of_samePriorities (hq : q.Valid) {cmp : D → D → Int} (hcmp : IsTotalPreorder cmp)
    (hsame : q.SamePriorities cmp none) {cells : C → Nat}
    (hcells : ∀ c, q.Registered c → cells c = q.cells c) :
    ({ q with compareFunc := cmp, cells := cells } : Prioq D C).Valid where
  compareFunc := hcmp
  fits := hq.fits
  ordered := by
    intro p c hchild a b ha hb
    show cmp a.data b.data ≤ 0
    rw [hsame p c a b (by simp) (by simp) ha hb]
    exact hq.ordered p c hchild a b ha hb
  cells := by
    intro i x c hx hc
    show cells c = i
    rw [hcells c ⟨x, mem_of_getElem? hx, hc⟩]
    exact hq.cells i x c hx hc

end Cells

section Calls

variable [DecidableEq D] [DecidableEq C]

variable {q q' : Prioq D C} {data : D} {idx : Option C}

omit [DecidableEq C] in
theorem findItem_spec {i : Nat} (h : q.findItem data idx = some i) :
    ∃ x, q.itemAt i = some x ∧ x.data = data := by
  cases idx with
  | none =>
    obtain ⟨hi, hdata, -⟩ := findIdx?_eq_some_iff_getElem.mp h
    exact ⟨q.items[i], getElem?_eq_getElem hi, by simpa using hdata⟩
  | some c =>
    rw [findItem] at h
    split at h
    · cases h
    split at h
    · next hdata =>
      cases h
      exact Option.map_eq_some_iff.mp hdata
    · cases h

theorem prioqReshuffle_spec (hq : q.Valid) {cmp : D → D → Int} (hcmp : IsTotalPreorder cmp)
    (hsame : q.SamePriorities cmp (q.findItem data idx)) :
    (∃ fuel q', { q with compareFunc := cmp }.prioqReshuffle fuel data idx = some q') ∧
      ∀ fuel q', { q with compareFunc := cmp }.prioqReshuffle fuel data idx = some q' →
        q'.Valid ∧ q'.items.Perm q.items := by
  let p : Prioq D C := { q with compareFunc := cmp }
  have hfind : p.findItem data idx = q.findItem data idx := by
    cases idx <;> rfl
  cases hi : q.findItem data idx with
  | none =>
    rw [hi] at hsame
    have hre : ∀ fuel, p.prioqReshuffle fuel data idx = some p := by
      intro fuel
      rw [prioqReshuffle, hfind, hi]
    refine ⟨⟨0, p, hre 0⟩, ?_⟩
    intro fuel q' h
    rw [hre] at h
    cases h
    exact ⟨hq.of_samePriorities hcmp hsame fun _ _ => rfl, .refl _⟩
  | some i =>
    rw [hi] at hsame
    have hre : ∀ fuel, p.prioqReshuffle fuel data idx =
        (p.shuffleDown fuel i).map fun r => r.1.shuffleUp r.2 := by
      intro fuel
      rw [prioqReshuffle, hfind, hi]
    obtain ⟨x, hx, -⟩ := findItem_spec hi
    have hbut : OrderedBut p.le p.itemAt i := by
      refine hq.ordered.orderedBut (totalPreorder_le hq.compareFunc) (by rw [hx]; rfl) ?_ ?_
      · intro j a _ ha
        exact ha
      · intro j k a b hj hk ha hb hab
        show cmp a.data b.data ≤ 0
        rw [hsame j k a b (by simpa using hj) (by simpa using hk) ha hb]
        exact hab
    have hcells : p.CellsHold := hq.cells
    obtain ⟨⟨fuel, s, hdown⟩, hspec⟩ :=
      shuffle_spec (q := p) hcmp (lt_of_itemAt hx) hq.fits hbut
    refine ⟨⟨fuel, s.1.shuffleUp s.2, by rw [hre, hdown]; rfl⟩, ?_⟩
    intro fuel q' h
    rw [hre] at h
    obtain ⟨⟨q₁, k⟩, hq₁, rfl⟩ := Option.map_eq_some_iff.mp h
    obtain ⟨hmoved, hordered⟩ := hspec fuel q₁ k hq₁
    exact ⟨.of_moved (q := p) hcmp hq.fits hcells hmoved hordered, hmoved.items⟩

theorem prioqRemove_spec (hq : q.Valid) (data : D) (idx : Option C) :
    (∃ fuel s, q.prioqRemove fuel data idx = some s) ∧
      ∀ fuel q' r, q.prioqRemove fuel data idx = some (q', r) → q'.Valid ∧
        (((q.findItem data idx).bind fun i => q.items[i]?).toList ++ q'.items).Perm q.items := by
  cases hi : q.findItem data idx with
  | none =>
    have hremove : ∀ fuel, q.prioqRemove fuel data idx = some (q, 0) := by
      intro fuel
      rw [prioqRemove, hi]
    refine ⟨⟨0, _, hremove 0⟩, ?_⟩
    intro fuel q' r h
    rw [hremove] at h
    cases h
    exact ⟨hq, .refl _⟩
  | some i =>
    have hremove : ∀ fuel, q.prioqRemove fuel data idx =
        (q.removeItem fuel i).map fun q => (q, 1) := by
      intro fuel
      rw [prioqRemove, hi]
    obtain ⟨x, hx, -⟩ := findItem_spec hi
    obtain ⟨⟨fuel, q', h⟩, hspec⟩ := removeItem_spec hq hx
    refine ⟨⟨fuel, (q', 1), by rw [hremove, h]; rfl⟩, ?_⟩
    intro fuel q' r h
    rw [hremove] at h
    obtain ⟨q₁, hq₁, heq⟩ := Option.map_eq_some_iff.mp h
    cases heq
    show q'.Valid ∧ ((q.itemAt i).toList ++ q'.items).Perm q.items
    rw [hx]
    exact hspec fuel q' hq₁

theorem compareFunc_prioqRemove {fuel : Nat} {r : Int} (h : q.prioqRemove fuel data idx = some (q', r)) :
    q'.compareFunc = q.compareFunc := by
  unfold prioqRemove at h
  split at h
  · cases h
    rfl
  · obtain ⟨q₁, hremove, heq⟩ := Option.map_eq_some_iff.mp h
    cases heq
    exact compareFunc_removeItem hremove

omit [DecidableEq D] in
theorem compareFunc_prioqPop {fuel : Nat} {r : Option D} (h : q.prioqPop fuel = some (q', r)) :
    q'.compareFunc = q.compareFunc := by
  unfold prioqPop at h
  split at h
  · cases h
    rfl
  · obtain ⟨q₁, hremove, heq⟩ := Option.map_eq_some_iff.mp h
    cases heq
    exact compareFunc_removeItem hremove

omit [DecidableEq D] in
theorem prioqPop_spec (hq : q.Valid) :
    (∃ fuel s, q.prioqPop fuel = some s) ∧
      ∀ fuel q' r, q.prioqPop fuel = some (q', r) → q'.Valid ∧ r = q.prioqPeek ∧
        ((q.items[0]?).toList ++ q'.items).Perm q.items := by
  cases hitems : q.items with
  | nil =>
    have hpop : ∀ fuel, q.prioqPop fuel = some (q, none) := by
      intro fuel
      unfold prioqPop
      rw [hitems]
    refine ⟨⟨0, _, hpop 0⟩, ?_⟩
    intro fuel q' r h
    rw [hpop] at h
    cases h
    refine ⟨hq, ?_, ?_⟩
    · unfold prioqPeek prioqPeekByIndex
      rw [hitems]
      rfl
    · rw [hitems]
      exact .refl _
  | cons x rest =>
    have hpop : ∀ fuel, q.prioqPop fuel =
        (q.removeItem fuel 0).map fun q => (q, some x.data) := by
      intro fuel
      unfold prioqPop
      rw [hitems]
    have hx : q.itemAt 0 = some x := by
      unfold itemAt
      rw [hitems]
      rfl
    obtain ⟨⟨fuel, q', h⟩, hspec⟩ := removeItem_spec hq hx
    refine ⟨⟨fuel, (q', some x.data), by rw [hpop, h]; rfl⟩, ?_⟩
    intro fuel q' r h
    rw [hpop] at h
    obtain ⟨q₁, hq₁, heq⟩ := Option.map_eq_some_iff.mp h
    cases heq
    obtain ⟨hvalid, hperm⟩ := hspec fuel q' hq₁
    refine ⟨hvalid, ?_, ?_⟩
    · unfold prioqPeek prioqPeekByIndex
      rw [hitems]
      rfl
    · rw [← hitems]
      show ((q.itemAt 0).toList ++ q'.items).Perm q.items
      rw [hx]
      exact hperm

/-! ## Runs -/

/-- A call adds an item only while there are fewer than 2^31. -/
def Fits (q : Prioq D C) : Event D C → Prop
  | .put _ _ _ => q.items.length < 2 ^ 31
  | _ => True

/-- A step keeps the queue in order, and adds and takes out just the items that it
    says. -/
theorem Step.valid {e : Event D C} (hq : q.Valid) (h : Step q e q') (hfits : q.Fits e) :
    q'.Valid ∧ (q'.items ++ removed [e]).Perm (q.items ++ inserted [e]) := by
  -- a call that adds nothing, and takes out what it found
  have htaken : ∀ {x : Option (PrioqItem D C)}, (x.toList ++ q'.items).Perm q.items →
      (q'.items ++ (x.toList ++ [])).Perm (q.items ++ []) := by
    intro x hperm
    rw [append_nil, append_nil]
    exact perm_append_comm.trans hperm
  cases h with
  | @put _ data idx r allocated hidx h =>
    cases allocated with
    | false =>
      cases h
      exact ⟨hq, .refl _⟩
    | true =>
      obtain ⟨q₁, hput, hvalid, hperm⟩ := prioqPut_spec hq hfits data hidx
      rw [hput] at h
      cases h
      refine ⟨hvalid, ?_⟩
      show (q'.items ++ []).Perm (q.items ++ [_])
      rw [append_nil]
      exact hperm.trans (perm_append_singleton _ _).symm
  | remove fuel h =>
    obtain ⟨hvalid, hperm⟩ := (prioqRemove_spec hq _ _).2 fuel q' _ h
    exact ⟨hvalid, htaken hperm⟩
  | reshuffle fuel hcmp hsame h =>
    obtain ⟨hvalid, hperm⟩ := (prioqReshuffle_spec hq hcmp hsame).2 fuel q' h
    exact ⟨hvalid, hperm.append_right []⟩
  | pop fuel h =>
    obtain ⟨hvalid, -, hperm⟩ := (prioqPop_spec hq).2 fuel q' _ h
    exact ⟨hvalid, htaken hperm⟩
  | elsewhere hcmp hsame hcells => exact ⟨hq.of_samePriorities hcmp hsame hcells, .refl _⟩

omit [DecidableEq D] [DecidableEq C] in
theorem inserted_cons (e : Event D C) (es : List (Event D C)) :
    inserted (e :: es) = inserted [e] ++ inserted es := by
  cases e <;> simp [inserted]

omit [DecidableEq D] [DecidableEq C] in
theorem removed_cons (e : Event D C) (es : List (Event D C)) :
    removed (e :: es) = removed [e] ++ removed es := by
  cases e <;> simp [removed]

/-- Steps that add items only while there are fewer than 2^31. -/
def FittingStep (q : Prioq D C) (e : Event D C) (q' : Prioq D C) : Prop := Step q e q' ∧ q.Fits e

theorem run_valid {es : List (Event D C)} (hrun : Run FittingStep q es q') (hq : q.Valid) :
    q'.Valid ∧ (q'.items ++ removed es).Perm (q.items ++ inserted es) := by
  induction hrun with
  | nil q => exact ⟨hq, .refl _⟩
  | @cons q q₁ q' e es hstep _ ih =>
    obtain ⟨hvalid, hperm⟩ := hstep.1.valid hq hstep.2
    obtain ⟨hvalid', hperm'⟩ := ih hvalid
    refine ⟨hvalid', ?_⟩
    rw [inserted_cons, removed_cons]
    have h₁ : (q'.items ++ (removed [e] ++ removed es)).Perm
        (removed [e] ++ (q'.items ++ removed es)) := by
      rw [← append_assoc, ← append_assoc]
      exact perm_append_comm.append_right _
    have h₂ : (removed [e] ++ (q₁.items ++ inserted es)).Perm
        ((q₁.items ++ removed [e]) ++ inserted es) := by
      rw [← append_assoc]
      exact perm_append_comm.append_right _
    rw [← append_assoc q.items]
    exact (h₁.trans (hperm'.append_left _)).trans (h₂.trans (hperm.append_right _))

/-- What a priority queue is for, after the calls `es`: the array is a heap, the cell
    of an item holds its index, the items are those added and not taken out again, the
    item at the front is a minimal one, and every call returns. -/
structure Correct (q : Prioq D C) (es : List (Event D C)) : Prop where
  ordered : ∀ i x y, 0 < i → q.items[(i - 1) / 2]? = some x → q.items[i]? = some y →
    q.compareFunc x.data y.data ≤ 0
  cells : ∀ i x c, q.items[i]? = some x → x.idx = some c → q.cells c = i
  stored : (q.items ++ removed es).Perm (inserted es)
  peek : ∀ d, q.prioqPeek = some d →
    (∃ x ∈ q.items, x.data = d) ∧ ∀ x ∈ q.items, q.compareFunc d x.data ≤ 0
  peek_none : q.prioqPeek = none → q.items = []
  pop : ∀ fuel q' d, q.prioqPop fuel = some (q', d) → d = q.prioqPeek
  put_returns : ∀ data idx allocated, q.items.length < 2 ^ 31 →
    (∀ c, idx = some c → ¬q.Registered c) → ∃ s, q.prioqPut data idx allocated = some s
  pop_returns : ∃ fuel s, q.prioqPop fuel = some s
  remove_returns : ∀ data idx, ∃ fuel s, q.prioqRemove fuel data idx = some s
  reshuffle_returns : ∀ data idx cmp, IsTotalPreorder cmp →
    q.SamePriorities cmp (q.findItem data idx) →
    ∃ fuel s, { q with compareFunc := cmp }.prioqReshuffle fuel data idx = some s

/-- As long as a queue never has more than 2^31 items (`FittingStep`), it is a `Correct`
    priority queue after every sequence of calls. -/
theorem correct_of_run {cmp : D → D → Int} (hcmp : IsTotalPreorder cmp) (cells : C → Nat)
    {es : List (Event D C)} {q : Prioq D C} (hrun : Run FittingStep (new cmp cells) es q) :
    q.Correct es := by
  have hnew : (new cmp cells : Prioq D C).Valid := by
    refine ⟨hcmp, Nat.zero_le _, ?_, ?_⟩
    · intro p c _ a b ha
      cases ha
    · intro i x c hx
      cases hx
  obtain ⟨hq, hstored⟩ := run_valid hrun hnew
  refine ⟨?_, hq.cells, hstored, ?_, ?_, ?_, ?_, (prioqPop_spec hq).1, ?_, ?_⟩
  · intro i x y hi hx hy
    exact hq.ordered (parent i) i (isChild_parent hi) x y hx hy
  · intro d hd
    obtain ⟨x, hx, rfl⟩ := Option.map_eq_some_iff.mp hd
    refine ⟨⟨x, mem_of_getElem? hx, rfl⟩, ?_⟩
    intro y hy
    obtain ⟨i, hi, rfl⟩ := mem_iff_getElem.mp hy
    exact hq.ordered.root_le (totalPreorder_le hq.compareFunc) q.itemAt_parent x _ hx
      (getElem?_eq_getElem hi)
  · intro h
    have h0 : q.items[0]? = none := Option.map_eq_none_iff.mp h
    exact length_eq_zero_iff.mp (Nat.le_zero.mp (getElem?_eq_none_iff.mp h0))
  · intro fuel q' d h
    exact ((prioqPop_spec hq).2 fuel q' d h).2.1
  · intro data idx allocated hroom hidx
    cases allocated with
    | false => exact ⟨_, rfl⟩
    | true =>
      obtain ⟨q', hput, -⟩ := prioqPut_spec hq hroom data hidx
      exact ⟨_, hput⟩
  · intro data idx
    exact (prioqRemove_spec hq data idx).1
  · intro data idx cmp hcmp hsame
    exact (prioqReshuffle_spec hq hcmp hsame).1

end Calls

/-! ## Too many items -/

/-- Numbers are their own priorities. -/
def byNumber (a b : Nat) : Int := (a : Int) - b

theorem isTotalPreorder_byNumber : IsTotalPreorder byNumber where
  swap a b := by
    unfold byNumber
    omega
  trans := by
    intro a b c
    unfold byNumber
    omega

/-- Two items, of which the second one is moved to the front. -/
theorem correct_of_run_two :
    ∃ (es : List (Event Nat Unit)) (q : Prioq Nat Unit),
      Run FittingStep (new byNumber fun _ => 0) es q ∧
        q.items = [{ data := 1, idx := none }, { data := 2, idx := some () }] ∧ q.cells () = 1 ∧
        q.Correct es := by
  let q₁ : Prioq Nat Unit :=
    { compareFunc := byNumber, items := [⟨2, some ()⟩], cells := setCell (fun _ => 0) (some ()) 0 }
  let q₂ : Prioq Nat Unit :=
    { compareFunc := byNumber, items := [⟨1, none⟩, ⟨2, some ()⟩],
      cells := setCell (setCell q₁.cells none 0) (some ()) 1 }
  have hup₁ : q₁.shuffleUp 0 = q₁ := by
    rw [shuffleUp]
    rfl
  have hup₂ : ({ q₁ with items := [⟨2, some ()⟩, ⟨1, none⟩] } : Prioq Nat Unit).shuffleUp 1 = q₂ := by
    rw [shuffleUp]
    show q₂.shuffleUp 0 = q₂
    rw [shuffleUp]
    rfl
  have h₁ : FittingStep (new byNumber fun _ => 0) (.put 2 (some ()) true) q₁ := by
    refine ⟨.put (r := 0) true (by simp [Registered, new]) ?_, by simp [Fits, new]⟩
    show some (q₁.shuffleUp 0, (0 : Int)) = some (q₁, 0)
    rw [hup₁]
  have h₂ : FittingStep q₁ (.put 1 none true) q₂ := by
    refine ⟨.put (r := 0) true (by simp) ?_, by simp [Fits, q₁]⟩
    show some (({ q₁ with items := [⟨2, some ()⟩, ⟨1, none⟩] } : Prioq Nat Unit).shuffleUp 1,
      (0 : Int)) = some (q₂, 0)
    rw [hup₂]
  have hrun := Run.cons h₁ (.single h₂)
  exact ⟨_, q₂, hrun, rfl, setCell_self (setCell q₁.cells none 0) 1 (),
    correct_of_run isTotalPreorder_byNumber _ hrun⟩

/-- An item that is not smaller than any other stays where it is. -/
theorem shuffleUp_largest {q : Prioq Nat Unit} {idx : Nat} {x : PrioqItem Nat Unit}
    (hcmp : q.compareFunc = byNumber) (hx : q.itemAt idx = some x)
    (hmax : ∀ y ∈ q.items, y.data ≤ x.data) : q.shuffleUp idx = q := by
  rw [shuffleUp]
  split
  · next hpos =>
    have hlt : (idx - 1) / 2 < q.items.length := by
      have := lt_of_itemAt hx
      omega
    obtain ⟨y, hy⟩ := itemAt_of_lt hlt
    have hle := hmax y (mem_of_getElem? hy)
    rw [compareAt_eq hy hx, hcmp, if_pos]
    unfold byNumber
    omega
  · rfl

/-- Adding such an item just appends it. -/
theorem step_put_largest {q : Prioq Nat Unit} {data : Nat} {idx : Option Unit}
    (hcmp : q.compareFunc = byNumber) (hmax : ∀ x ∈ q.items, x.data ≤ data)
    (hroom : q.items.length < 2 ^ 32 - 1) (hidx : ∀ c, idx = some c → ¬q.Registered c) :
    Step q (.put data idx true)
      { q with
        items := q.items ++ [{ data := data, idx := idx }]
        cells := setCell q.cells idx q.items.length } := by
  let p : Prioq Nat Unit :=
    { q with
      items := q.items ++ [{ data := data, idx := idx }]
      cells := setCell q.cells idx q.items.length }
  have hlast : p.itemAt q.items.length = some { data := data, idx := idx } := by
    show (q.items ++ [_])[q.items.length]? = _
    rw [getElem?_append_right (Nat.le_refl _), Nat.sub_self]
    rfl
  have hstay : p.shuffleUp q.items.length = p := by
    refine shuffleUp_largest hcmp hlast ?_
    intro y hy
    rcases mem_append.mp hy with hy | hy
    · exact hmax y hy
    · exact Nat.le_of_eq (congrArg PrioqItem.data (mem_singleton.mp hy))
  refine .put (r := 0) true hidx ?_
  unfold prioqPut
  simp only [Bool.not_true, Bool.false_eq_true, if_false]
  rw [if_neg (by omega)]
  show some (p.shuffleUp q.items.length, (0 : Int)) = some (p, 0)
  rw [hstay]

/-- Two zeros, `m` ones, and a one with an index cell. -/
def crowd (m : Nat) : List (PrioqItem Nat Unit) := ⟨0, none⟩ :: ⟨0, none⟩ :: List.replicate m ⟨1, none⟩

theorem length_crowd (m : Nat) : (crowd m).length = m + 2 := by
  simp [crowd]

theorem crowd_succ (m : Nat) : crowd (m + 1) = crowd m ++ [⟨1, none⟩] := by
  simp [crowd, replicate_succ']

theorem crowd_data {m : Nat} {x : PrioqItem Nat Unit} (h : x ∈ crowd m) :
    x.data ≤ 1 ∧ x.idx = none := by
  simp only [crowd, mem_cons, mem_replicate] at h
  rcases h with rfl | rfl | ⟨-, rfl⟩ <;> simp

/-- The queue fills up, one item after the other. -/
theorem run_crowd (m : Nat) (hm : m + 2 < 2 ^ 32) :
    ∃ es, Run Step (new byNumber fun _ => 0) es
      { compareFunc := byNumber, items := crowd m, cells := fun _ => 0 } := by
  induction m with
  | zero =>
    have h₁ : Step (new byNumber fun _ => 0) (.put 0 none true)
        { compareFunc := byNumber, items := [⟨0, none⟩], cells := fun _ : Unit => 0 } :=
      step_put_largest rfl (by simp [new]) (by simp [new]) (by simp)
    have h₂ : Step { compareFunc := byNumber, items := [⟨0, none⟩], cells := fun _ : Unit => 0 }
        (.put 0 none true) { compareFunc := byNumber, items := crowd 0, cells := fun _ => 0 } :=
      step_put_largest rfl (by simp) (by simp) (by simp)
    exact ⟨_, .cons h₁ (.single h₂)⟩
  | succ m ih =>
    obtain ⟨es, hrun⟩ := ih (by omega)
    have hstep : Step { compareFunc := byNumber, items := crowd m, cells := fun _ : Unit => 0 }
        (.put 1 none true) { compareFunc := byNumber, items := crowd (m + 1), cells := fun _ => 0 } := by
      rw [crowd_succ]
      refine step_put_largest rfl (fun x hx => (crowd_data hx).1) ?_ (by simp)
      show (crowd m).length < _
      rw [length_crowd]
      omega
    exact ⟨_, hrun.append (.single hstep)⟩

/-- The queue with 2^31 + 1 items. -/
def overfull (m : Nat) : Prioq Nat Unit :=
  { compareFunc := byNumber, items := crowd m ++ [⟨1, some ()⟩], cells := fun _ => m + 2 }

theorem itemAt_overfull (m : Nat) :
    (overfull m).itemAt 0 = some ⟨0, none⟩ ∧ (overfull m).itemAt 1 = some ⟨0, none⟩ ∧
      (∀ i, 2 ≤ i → i < m + 2 → (overfull m).itemAt i = some ⟨1, none⟩) ∧
      (overfull m).itemAt (m + 2) = some ⟨1, some ()⟩ := by
  refine ⟨rfl, rfl, ?_, ?_⟩
  · intro i h₂ hi
    obtain ⟨k, rfl⟩ : ∃ k, i = k + 2 := ⟨i - 2, by omega⟩
    show (replicate m _ ++ _)[k]? = _
    rw [getElem?_append_left (by simp; omega), getElem?_replicate, if_pos (by omega)]
  · show (crowd m ++ _)[m + 2]? = _
    rw [getElem?_append_right (Nat.le_of_eq (length_crowd m)), length_crowd, Nat.sub_self]
    rfl

/-- The item at 2^31 has no children, but `shuffle_down` takes 1 and 2 for them. -/
theorem shuffleDown_overfull {m : Nat} (hm : m + 2 = 2 ^ 31) :
    (overfull m).shuffleDown 2 (m + 2) = some ((overfull m).swap (m + 2) 1, 1) := by
  obtain ⟨h0, h1, hones, hlast⟩ := itemAt_overfull m
  have hlen : (overfull m).items.length = m + 3 := by
    show (crowd m ++ _).length = _
    rw [length_append, length_crowd]
    rfl
  have h₁ : shuffleDownRound (overfull m, m + 2) = some ((overfull m).swap (m + 2) 1, 1) := by
    have hk : (m + 2 + 1) * 2 % 2 ^ 32 = 2 := by omega
    have hj : (2 + 2 ^ 32 - 1) % 2 ^ 32 = 1 := by omega
    have hleft : (overfull m).compareAt 1 (m + 2) < 0 := by
      rw [compareAt_eq h1 hlast]
      show byNumber 0 1 < 0
      decide
    have hright : ¬(overfull m).compareAt 2 1 < 0 := by
      rw [compareAt_eq (hones 2 (by omega) (by omega)) h1]
      show ¬byNumber 1 0 < 0
      decide
    simp only [shuffleDownRound, hk, hj, hlen]
    have hboth : ¬(2 < m + 3 ∧ (overfull m).compareAt 2 1 < 0) := fun h => hright h.2
    rw [if_neg (by omega), if_pos hleft, if_neg hboth, if_neg (by omega)]
  have hat : ((overfull m).swap (m + 2) 1).itemAt = exchanged (overfull m).itemAt (m + 2) 1 :=
    itemAt_swap (by omega) (by omega)
  have hmoved : (overfull m).Moved ((overfull m).swap (m + 2) 1) :=
    moved_swap (by omega) (by omega) (by omega)
  have h₂ : shuffleDownRound ((overfull m).swap (m + 2) 1, 1) = none := by
    have hone : ((overfull m).swap (m + 2) 1).itemAt 1 = some ⟨1, some ()⟩ := by
      rw [hat, exchanged_right, hlast]
    have hchild : ∀ i, 2 ≤ i → i < m + 2 → ¬((overfull m).swap (m + 2) 1).compareAt i 1 < 0 := by
      intro i h₂ hi
      have hi' : ((overfull m).swap (m + 2) 1).itemAt i = some ⟨1, none⟩ := by
        rw [hat, exchanged_other (by omega) (by omega), hones i h₂ hi]
      rw [compareAt_eq hi' hone, hmoved.compareFunc]
      show ¬byNumber 1 1 < 0
      decide
    have hk : (1 + 1) * 2 % 2 ^ 32 = 4 := by omega
    have hj : (4 + 2 ^ 32 - 1) % 2 ^ 32 = 3 := by omega
    have hboth : ¬(4 < m + 3 ∧ ((overfull m).swap (m + 2) 1).compareAt 4 1 < 0) :=
      fun h => hchild 4 (by omega) (by omega) h.2
    simp only [shuffleDownRound, hk, hj, hmoved.length, hlen]
    rw [if_neg (by omega), if_neg (hchild 3 (by omega) (by omega)), if_neg hboth, if_pos rfl]
  rw [shuffleDown, Lib.iterate, h₁]
  show Lib.iterate shuffleDownRound 1 ((overfull m).swap (m + 2) 1, 1) = _
  rw [Lib.iterate, h₂]

/-- With 2^31 + 1 items, reshuffling the last one breaks the order of the heap. -/
theorem disordered_of_overfull :
    ∃ (es : List (Event Nat Unit)) (q : Prioq Nat Unit),
      Run Step (new byNumber fun _ => 0) es q ∧ IsTotalPreorder byNumber ∧
        ∃ i x y, 0 < i ∧ q.items[(i - 1) / 2]? = some x ∧ q.items[i]? = some y ∧
          ¬q.compareFunc x.data y.data ≤ 0 := by
  obtain ⟨m, hm⟩ : ∃ m, m + 2 = 2 ^ 31 := ⟨2 ^ 31 - 2, by omega⟩
  obtain ⟨es, hrun⟩ := run_crowd m (by omega)
  obtain ⟨h0, h1, hones, hlast⟩ := itemAt_overfull m
  have hlen : (overfull m).items.length = m + 3 := by
    show (crowd m ++ _).length = _
    rw [length_append, length_crowd]
    rfl
  have hput : Step { compareFunc := byNumber, items := crowd m, cells := fun _ : Unit => 0 }
      (.put 1 (some ()) true) (overfull m) := by
    have hcells : setCell (fun _ : Unit => 0) (some ()) (crowd m).length = fun _ => m + 2 := by
      funext c
      rw [length_crowd]
      exact setCell_self _ _ _
    unfold overfull
    rw [← hcells]
    refine step_put_largest rfl (fun x hx => (crowd_data hx).1) ?_ ?_
    · show (crowd m).length < _
      rw [length_crowd]
      omega
    · rintro c - ⟨x, hx, hc⟩
      rw [(crowd_data hx).2] at hc
      cases hc
  have hfind : (overfull m).findItem 1 (some ()) = some (m + 2) := by
    have hitem : (overfull m).items[m + 2]? = some ⟨1, some ()⟩ := hlast
    show (if m + 2 = prioqIdxNull ∨ m + 2 ≥ (overfull m).items.length then none
      else if ((overfull m).items[m + 2]?).map (·.data) = some 1 then some (m + 2) else none) = _
    rw [hlen, if_neg (by unfold prioqIdxNull; omega), hitem]
    rfl
  let q := (overfull m).swap (m + 2) 1
  have hat : q.itemAt = exchanged (overfull m).itemAt (m + 2) 1 :=
    itemAt_swap (by omega) (by omega)
  have hcmp : q.compareFunc = byNumber :=
    (moved_swap (by omega) (by omega) (by omega)).compareFunc
  have hup : q.shuffleUp 1 = q := by
    have hroot : q.itemAt 0 = some ⟨0, none⟩ := by
      rw [hat, exchanged_other (by omega) (by omega), h0]
    have hone : q.itemAt 1 = some ⟨1, some ()⟩ := by
      rw [hat, exchanged_right, hlast]
    rw [shuffleUp, if_pos (by omega), compareAt_eq hroot hone, hcmp, if_pos (by decide)]
  have hre : (overfull m).prioqReshuffle 2 1 (some ()) = some q := by
    rw [prioqReshuffle, hfind]
    show ((overfull m).shuffleDown 2 (m + 2)).map _ = _
    rw [shuffleDown_overfull hm]
    show some (q.shuffleUp 1) = some q
    rw [hup]
  have hstep : Step (overfull m) (.reshuffle 1 (some ())) q :=
    .reshuffle 2 isTotalPreorder_byNumber (fun _ _ _ _ _ _ _ _ => rfl) hre
  refine ⟨_, q, hrun.append (.cons hput (.single hstep)), isTotalPreorder_byNumber, m + 2,
    ⟨1, none⟩, ⟨0, none⟩, by omega, ?_, ?_, ?_⟩
  · show q.itemAt ((m + 2 - 1) / 2) = _
    rw [hat, exchanged_other (by omega) (by omega), hones _ (by omega) (by omega)]
  · show q.itemAt (m + 2) = _
    rw [hat, exchanged_left, h1]
  · rw [hcmp]
    decide

end Prioq

end Elogind
