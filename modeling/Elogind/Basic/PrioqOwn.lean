/-
  Elogind.Basic.PrioqOwn

  Priority queues (prioq.c) in which every object that is queued has one index cell, its own.  The
  operations are total here: their loops make no more rounds than there are items.  Each comes with
  what it does to the objects that are queued, and with the index cells that it leaves alone.
-/

import Elogind.Basic.PrioqRun
import Mathlib.Data.List.Nodup

namespace Elogind

open Lib Lib.BinaryHeap List

namespace Prioq

/-! ## Index cells of others -/

section Frame

variable {D C : Type} [DecidableEq C]

/-- The items are items that were there, and no index cell was written but theirs. -/
structure Frame (q q' : Prioq D C) : Prop where
  items : ∀ x ∈ q'.items, x ∈ q.items
  cells : ∀ c, ¬q.Registered c → q'.cells c = q.cells c

omit [DecidableEq C] in
theorem Frame.refl (q : Prioq D C) : q.Frame q := ⟨fun _ h => h, fun _ _ => rfl⟩

omit [DecidableEq C] in
theorem Frame.trans {q q' q'' : Prioq D C} (h : q.Frame q') (h' : q'.Frame q'') : q.Frame q'' := by
  refine ⟨fun x hx => h.items x (h'.items x hx), fun c hc => ?_⟩
  have hc' : ¬q'.Registered c := by
    rintro ⟨x, hx, hxc⟩
    exact hc ⟨x, h.items x hx, hxc⟩
  rw [h'.cells c hc', h.cells c hc]

theorem setCell_of_not_registered {q : Prioq D C} {cells : C → Nat} {x : PrioqItem D C} {c : C} {i : Nat}
    (hx : x ∈ q.items) (hc : ¬q.Registered c) : setCell cells x.idx i c = cells c :=
  setCell_of_ne fun h => hc ⟨x, hx, h⟩

theorem frame_swap (q : Prioq D C) (j k : Nat) : q.Frame (q.swap j k) := by
  unfold swap
  split
  · next a b ha hb =>
    have ha' := mem_of_getElem? ha
    have hb' := mem_of_getElem? hb
    constructor
    · intro x hx
      rcases mem_or_eq_of_mem_set hx with hx | rfl
      · rcases mem_or_eq_of_mem_set hx with hx | rfl
        · exact hx
        · exact hb'
      · exact ha'
    · intro c hc
      dsimp only
      rw [setCell_of_not_registered ha' hc, setCell_of_not_registered hb' hc]
  · exact .refl q

theorem frame_shuffleUp (q : Prioq D C) (idx : Nat) : q.Frame (q.shuffleUp idx) := by
  induction idx using Nat.strongRecOn generalizing q with
  | ind idx ih =>
    rw [shuffleUp]
    split
    · split
      · exact .refl q
      · exact (frame_swap q _ _).trans (ih _ (by omega) _)
    · exact .refl q

theorem frame_shuffleDown {fuel idx k : Nat} {q q' : Prioq D C}
    (h : q.shuffleDown fuel idx = some (q', k)) : q.Frame q' := by
  obtain ⟨heads, hloop⟩ := Loop.of_iterate h
  let I : Prioq D C × Nat → Prop := fun s => q.Frame s.1
  refine (hloop.invariant (I := I) (.refl q) fun {s t} hs ht => ?_).1
  unfold shuffleDownRound at ht
  rw [Option.ite_none_left_eq_some, Option.ite_none_left_eq_some] at ht
  obtain ⟨-, -, heq⟩ := ht
  cases heq
  exact hs.trans (frame_swap ..)

/-- Taking out an item writes no index cell but those of items. -/
theorem frame_removeItem {fuel i : Nat} {q q' : Prioq D C} (h : q.removeItem fuel i = some q') :
    q.Frame q' := by
  unfold removeItem at h
  split at h
  · cases h
  · next l hl =>
    have hlast := mem_of_getLast? hl
    split at h
    · cases h
      exact ⟨fun x hx => dropLast_subset _ hx, fun _ _ => rfl⟩
    · obtain ⟨⟨q₁, k⟩, hdown, rfl⟩ := Option.map_eq_some_iff.mp h
      refine Frame.trans ⟨fun x hx => ?_, fun c hc => ?_⟩
        ((frame_shuffleDown hdown).trans (frame_shuffleUp ..))
      · rcases mem_or_eq_of_mem_set (dropLast_subset _ hx) with hx | rfl
        · exact hx
        · exact hlast
      · exact setCell_of_not_registered hlast hc

end Frame

/-! ## Rounds -/

section Rounds

variable {D C : Type} [DecidableEq C]

/-- `shuffle_down` makes no more rounds than there are items. -/
theorem shuffleDown_isSome {q : Prioq D C} {idx fuel : Nat} (hcmp : IsTotalPreorder q.compareFunc)
    (hidx : idx < q.items.length) (hfits : q.items.length ≤ 2 ^ 31) (hfuel : q.items.length < fuel) :
    ∃ s, q.shuffleDown fuel idx = some s := by
  let I : Prioq D C × Nat → Prop := fun s => q.Moved s.1 ∧ s.2 < q.items.length
  have hround : ∀ {s t : Prioq D C × Nat}, I s → shuffleDownRound s = some t →
      I t ∧ q.items.length - t.2 < q.items.length - s.2 := by
    rintro ⟨p, i⟩ t ⟨hmoved, hi⟩ ht
    have hip : i < p.items.length := by
      rw [hmoved.length]
      exact hi
    rcases shuffleDownRound_spec (hmoved.compareFunc ▸ hcmp) hip (by rw [hmoved.length]; exact hfits)
      with ⟨hnone, -⟩ | ⟨s, hsome, hchild, hs, -⟩
    · rw [hnone] at ht
      cases ht
    · rw [hsome] at ht
      cases ht
      have hlt := hchild.lt
      refine ⟨⟨hmoved.trans (moved_swap hip hs (Nat.ne_of_lt hlt)), ?_⟩, ?_⟩
      · rw [← hmoved.length]
        exact hs
      · omega
  obtain ⟨heads, s, hloop, hlen⟩ := Loop.exists_of_measure hround (s := (q, idx)) ⟨.refl q, hidx⟩
  refine ⟨s, hloop.iterate_of_le ?_⟩
  omega

theorem removeItem_isSome {q : Prioq D C} {i fuel : Nat} (hcmp : IsTotalPreorder q.compareFunc)
    (hi : i < q.items.length) (hfits : q.items.length ≤ 2 ^ 31) (hfuel : q.items.length < fuel) :
    ∃ q', q.removeItem fuel i = some q' := by
  unfold removeItem
  have hne : q.items ≠ [] := ne_nil_of_length_pos (by omega)
  rw [getLast?_eq_some_getLast hne]
  dsimp only
  split
  · exact ⟨_, rfl⟩
  · have hlen : ((q.items.set i (q.items.getLast hne)).dropLast).length = q.items.length - 1 := by
      rw [length_dropLast, length_set]
    let q' : Prioq D C :=
      { q with
        items := (q.items.set i (q.items.getLast hne)).dropLast
        cells := setCell q.cells (q.items.getLast hne).idx i }
    obtain ⟨s, hs⟩ : ∃ s, q'.shuffleDown fuel i = some s :=
      shuffleDown_isSome hcmp (by dsimp only [q']; omega) (by dsimp only [q']; omega)
        (by dsimp only [q']; omega)
    exact ⟨s.1.shuffleUp s.2, by rw [hs]; rfl⟩

end Rounds

/-! ## Objects with an index cell of their own -/

section Own

variable {D : Type} [DecidableEq D]

/-- The object is queued. -/
def Has (q : Prioq D D) (d : D) : Prop := ∃ x ∈ q.items, x.data = d

/-- A queue that is in order, whose objects have an index cell each. -/
structure Own (q : Prioq D D) : Prop where
  valid : q.Valid
  own : ∀ x ∈ q.items, x.idx = some x.data

/-- `prioq_put`, where the queue does not get as long as an `unsigned` can count. -/
def put (q : Prioq D D) (d : D) (allocated : Bool) : Prioq D D × Int :=
  (q.prioqPut d (some d) allocated).getD (q, Errno.ENOMEM.neg)

/-- `prioq_remove` -/
def remove (q : Prioq D D) (d : D) : Prioq D D :=
  ((q.prioqRemove (q.items.length + 1) d (some d)).map Prod.fst).getD q

/-- `prioq_reshuffle` -/
def reshuffle (q : Prioq D D) (d : D) : Prioq D D :=
  (q.prioqReshuffle (q.items.length + 1) d (some d)).getD q

variable {q : Prioq D D} {d : D}

namespace Own

omit [DecidableEq D] in
theorem registered_iff (h : Own q) {c : D} : q.Registered c ↔ q.Has c := by
  constructor
  · rintro ⟨x, hx, hxc⟩
    rw [h.own x hx] at hxc
    exact ⟨x, hx, Option.some.inj hxc⟩
  · rintro ⟨x, hx, rfl⟩
    exact ⟨x, hx, h.own x hx⟩

/-- An object that is queued is found. -/
theorem findItem_of_has (h : Own q) (hd : q.Has d) :
    ∃ i x, q.findItem d (some d) = some i ∧ q.itemAt i = some x ∧ x.data = d := by
  obtain ⟨x, hx, hdata⟩ := hd
  obtain ⟨i, hi⟩ := mem_iff_getElem?.mp hx
  have hidx := h.own x hx
  rw [hdata] at hidx
  have hcell : q.cells d = i := h.valid.cells i x d hi hidx
  have hlt : i < q.items.length := (List.getElem?_eq_some_iff.mp hi).1
  have hfits := h.valid.fits
  refine ⟨i, x, ?_, hi, hdata⟩
  rw [findItem, hcell, hi, if_neg (by unfold prioqIdxNull; omega), if_pos (by rw [Option.map_some, hdata])]

omit [DecidableEq D] in
/-- Every object is queued once. -/
theorem eq_of_data (h : Own q) {i j : Nat} {x y : PrioqItem D D} (hx : q.itemAt i = some x)
    (hy : q.itemAt j = some y) (hdata : x.data = y.data) : i = j := by
  have hi := h.valid.cells i x x.data hx (h.own x (mem_of_getElem? hx))
  have hj := h.valid.cells j y y.data hy (h.own y (mem_of_getElem? hy))
  rw [← hi, ← hj, hdata]

omit [DecidableEq D] in
theorem nodup (h : Own q) : (q.items.map PrioqItem.data).Nodup := by
  rw [nodup_iff_getElem?_ne_getElem?]
  intro i j hij hj heq
  rw [length_map] at hj
  obtain ⟨y, hy⟩ := itemAt_of_lt hj
  obtain ⟨x, hx⟩ := itemAt_of_lt (Nat.lt_trans hij hj)
  unfold itemAt at hx hy
  rw [getElem?_map, getElem?_map, hx, hy] at heq
  have := h.eq_of_data hx hy (Option.some.inj heq)
  omega

omit [DecidableEq D] in
/-- The objects that are queued compare in another way that is not noticed, and cells of others
    change. -/
theorem congr (h : Own q) {compare : D → D → Int} {cells : D → Nat} (hcmp : IsTotalPreorder compare)
    (hsame : ∀ a b, q.Has a → q.Has b → compare a b = q.compareFunc a b)
    (hcells : ∀ c, q.Has c → cells c = q.cells c) :
    Own ({ q with compareFunc := compare, cells := cells } : Prioq D D) where
  valid := by
    refine h.valid.of_samePriorities hcmp (fun i j x y _ _ hx hy => ?_) fun c hc => ?_
    · exact hsame _ _ ⟨x, mem_of_getElem? hx, rfl⟩ ⟨y, mem_of_getElem? hy, rfl⟩
    · exact hcells c (h.registered_iff.mp hc)
  own := h.own

end Own

omit [DecidableEq D] in
/-- The object at the front is a minimal one. -/
theorem Valid.prioqPeek_le {c : D} (h : q.Valid) (hd : q.prioqPeek = some d) (hc : q.Has c) : q.compareFunc d c ≤ 0 := by
  obtain ⟨x, hx, rfl⟩ := Option.map_eq_some_iff.mp hd
  obtain ⟨y, hy, rfl⟩ := hc
  obtain ⟨i, hi, rfl⟩ := mem_iff_getElem.mp hy
  exact h.ordered.root_le (totalPreorder_le h.compareFunc) q.itemAt_parent x _ hx (getElem?_eq_getElem hi)

omit [DecidableEq D] in
theorem not_has_of_prioqPeek (hd : q.prioqPeek = none) (c : D) : ¬q.Has c := by
  have h0 : q.items[0]? = none := Option.map_eq_none_iff.mp hd
  have hnil := length_eq_zero_iff.mp (Nat.le_zero.mp (getElem?_eq_none_iff.mp h0))
  rintro ⟨x, hx, -⟩
  rw [hnil] at hx
  cases hx

/-- What an operation on the object `d` does: which objects are queued then, and that it writes no index
    cell but theirs. -/
structure Result (q : Prioq D D) (d : D) (q' : Prioq D D) (has : D → Prop) : Prop where
  own : Own q'
  compareFunc : q'.compareFunc = q.compareFunc
  has : ∀ c, q'.Has c ↔ has c
  cells : ∀ c, c ≠ d → ¬q.Has c → q'.cells c = q.cells c

omit [DecidableEq D] in
theorem Result.congr {q' : Prioq D D} {has has' : D → Prop} (h : Result q d q' has) (hhas : ∀ c, has c ↔ has' c) :
    Result q d q' has' :=
  ⟨h.own, h.compareFunc, fun c => (h.has c).trans (hhas c), h.cells⟩

theorem put_failed (q : Prioq D D) (d : D) : q.put d false = (q, Errno.ENOMEM.neg) := rfl

theorem Own.put (h : Own q) (hroom : q.items.length < 2 ^ 31) (hout : ¬q.Has d) :
    (q.put d true).2 = 0 ∧ Result q d (q.put d true).1 fun c => c = d ∨ q.Has c := by
  have hfree : ∀ c, some d = some c → ¬q.Registered c := by
    intro c hc hreg
    cases hc
    exact hout (h.registered_iff.mp hreg)
  obtain ⟨q', hput, hvalid, hperm⟩ := prioqPut_spec h.valid hroom d hfree
  have heq : q.put d true = (q', 0) := by rw [Prioq.put, hput]; rfl
  rw [heq]
  refine ⟨rfl, ⟨hvalid, ?_⟩, compareFunc_prioqPut hput, ?_, ?_⟩
  · intro x hx
    rcases mem_cons.mp (hperm.mem_iff.mp hx) with rfl | hx
    · rfl
    · exact h.own x hx
  · intro c
    constructor
    · rintro ⟨x, hx, rfl⟩
      rcases mem_cons.mp (hperm.mem_iff.mp hx) with rfl | hx
      · exact .inl rfl
      · exact .inr ⟨x, hx, rfl⟩
    · rintro (rfl | ⟨x, hx, rfl⟩)
      · exact ⟨_, hperm.mem_iff.mpr (mem_cons_self ..), rfl⟩
      · exact ⟨x, hperm.mem_iff.mpr (mem_cons_of_mem _ hx), rfl⟩
  · intro c hne hc
    unfold prioqPut at hput
    rw [if_neg (by simp), if_neg (by omega)] at hput
    cases hput
    rw [(frame_shuffleUp _ _).cells c]
    · exact setCell_of_ne fun hcd => hne (Option.some.inj hcd).symm
    · rintro ⟨x, hx, hxc⟩
      rcases mem_append.mp hx with hx | hx
      · exact hc (h.registered_iff.mp ⟨x, hx, hxc⟩)
      · cases mem_singleton.mp hx
        exact hne (Option.some.inj hxc).symm

theorem Own.remove (h : Own q) (d : D) : Result q d (q.remove d) fun c => c ≠ d ∧ q.Has c := by
  cases hfind : q.findItem d (some d) with
  | none =>
    have heq : q.remove d = q := by rw [Prioq.remove, prioqRemove, hfind]; rfl
    rw [heq]
    refine ⟨h, rfl, fun c => ⟨fun hc => ⟨?_, hc⟩, And.right⟩, fun _ _ _ => rfl⟩
    rintro rfl
    obtain ⟨i, -, hi, -⟩ := h.findItem_of_has hc
    rw [hfind] at hi
    cases hi
  | some i =>
    obtain ⟨x, hx, hdata⟩ := findItem_spec hfind
    have hlt := lt_of_itemAt hx
    obtain ⟨q', hremove⟩ : ∃ q', q.removeItem (q.items.length + 1) i = some q' :=
      removeItem_isSome h.valid.compareFunc hlt h.valid.fits (Nat.lt_succ_self _)
    obtain ⟨hvalid, hperm⟩ := (removeItem_spec h.valid hx).2 _ _ hremove
    have heq : q.remove d = q' := by
      rw [Prioq.remove, prioqRemove, hfind]
      dsimp only
      rw [hremove]
      rfl
    rw [heq]
    have hnodup := hperm.map PrioqItem.data |>.nodup_iff.mpr h.nodup
    rw [map_cons, nodup_cons] at hnodup
    refine ⟨⟨hvalid, fun y hy => h.own y (hperm.mem_iff.mp (mem_cons_of_mem _ hy))⟩,
      compareFunc_removeItem hremove, fun c => ⟨?_, ?_⟩, fun c _ hc => ?_⟩
    · rintro ⟨y, hy, rfl⟩
      refine ⟨fun hyd => hnodup.1 ?_, y, hperm.mem_iff.mp (mem_cons_of_mem _ hy), rfl⟩
      rw [hdata, ← hyd]
      exact mem_map_of_mem hy
    · rintro ⟨hne, y, hy, rfl⟩
      rcases mem_cons.mp (hperm.mem_iff.mpr hy) with rfl | hy
      · exact absurd hdata hne
      · exact ⟨y, hy, rfl⟩
    · exact (frame_removeItem hremove).cells c fun hreg => hc (h.registered_iff.mp hreg)

/-- A queue is in order again when the one object whose priority may have changed is reshuffled. -/
theorem Own.reshuffle {compare : D → D → Int} (h : Own q) (hcmp : IsTotalPreorder compare)
    (hsame : ∀ a b, a ≠ d → b ≠ d → compare a b = q.compareFunc a b) :
    Result ({ q with compareFunc := compare } : Prioq D D) d
      (({ q with compareFunc := compare } : Prioq D D).reshuffle d) q.Has := by
  have hfind' : ({ q with compareFunc := compare } : Prioq D D).findItem d (some d) = q.findItem d (some d) := rfl
  have hsame' : q.SamePriorities compare (q.findItem d (some d)) := by
    intro i j x y hi hj hx hy
    have hne : ∀ {k : Nat} {z : PrioqItem D D}, some k ≠ q.findItem d (some d) → q.items[k]? = some z →
        z.data ≠ d := by
      intro k z hk hz hd
      obtain ⟨i, w, hfind, hw, hdata⟩ := h.findItem_of_has ⟨z, mem_of_getElem? hz, hd⟩
      exact hk (by rw [hfind, h.eq_of_data hw hz (hdata.trans hd.symm)])
    exact hsame _ _ (hne hi hx) (hne hj hy)
  have hspec := (prioqReshuffle_spec h.valid hcmp hsame').2
  obtain ⟨q', hq'⟩ : ∃ q', ({ q with compareFunc := compare } : Prioq D D).prioqReshuffle (q.items.length + 1) d
      (some d) = some q' := by
    cases hfind : q.findItem d (some d) with
    | none => exact ⟨_, by rw [prioqReshuffle, hfind', hfind]⟩
    | some i =>
      obtain ⟨x, hx, -⟩ := findItem_spec hfind
      obtain ⟨s, hs⟩ := shuffleDown_isSome (q := { q with compareFunc := compare }) hcmp (lt_of_itemAt hx)
        h.valid.fits (Nat.lt_succ_self _)
      exact ⟨s.1.shuffleUp s.2, by rw [prioqReshuffle, hfind', hfind]; dsimp only; rw [hs]; rfl⟩
  obtain ⟨hvalid, hperm⟩ := hspec _ _ hq'
  have heq : ({ q with compareFunc := compare } : Prioq D D).reshuffle d = q' := by
    rw [Prioq.reshuffle, hq']
    rfl
  rw [heq]
  have hframe : ({ q with compareFunc := compare } : Prioq D D).Frame q' ∧ q'.compareFunc = compare := by
    rw [prioqReshuffle, hfind'] at hq'
    split at hq'
    · cases hq'
      exact ⟨.refl _, rfl⟩
    · obtain ⟨⟨q₁, k⟩, hdown, rfl⟩ := Option.map_eq_some_iff.mp hq'
      exact ⟨(frame_shuffleDown hdown).trans (frame_shuffleUp ..),
        (compareFunc_shuffleUp ..).trans (compareFunc_shuffleDown hdown)⟩
  refine ⟨⟨hvalid, fun x hx => h.own x (hperm.mem_iff.mp hx)⟩, hframe.2, fun c => ?_, fun c _ hc => ?_⟩
  · constructor
    · rintro ⟨x, hx, rfl⟩
      exact ⟨x, hperm.mem_iff.mp hx, rfl⟩
    · rintro ⟨x, hx, rfl⟩
      exact ⟨x, hperm.mem_iff.mpr hx, rfl⟩
  · exact hframe.1.cells c fun hreg => hc (h.registered_iff.mp hreg)

end Own

end Prioq

end Elogind
