/-
  Elogind.Basic.HashmapForeach

  Going through a hashmap or set and removing entries on the way (HASHMAP_FOREACH,
  ORDERED_HASHMAP_FOREACH).

  When the current entry is removed, the entries behind it move one bucket back, and the
  next one may be among them.  The iterator has its key, and looks in the bucket in front
  of the expected one.  That finds the entry, unless its key is NULL and its old bucket
  was zeroed; and in the order of the buckets, an entry that moves from the first to the
  last bucket is come to once more.
-/

import Elogind.Basic.HashmapIterate

namespace Elogind

open Lib Lib.RobinHood List

namespace HashmapBase

variable {P HK : Type} [Inhabited P] {h h' : HashmapBase P HK} {l : List Nat}
  {disp disp' : Nat → Option Nat} {i : Iterator P} {x y k : Nat} {a rest : List Nat}

/-! ## The loop -/

section Loop

variable [DecidableEq P]

/-- The loop, with a body that may remove the current entry; what was visited so far, the
    current entry last, decides whether it does.  It gives the keys and values that were
    visited. -/
def foreachLoop (remove : List (P × P) → Bool) :
    Nat → HashmapBase P HK → Iterator P → List (P × P) → Option (HashmapBase P HK × List (P × P))
  | 0, _, _, _ => none
  | n + 1, h, i, visited =>
    match h.hashmapIterateEntry i with
    | none => none
    | some (h, i, idx) =>
      if idx = idxNil then some (h, visited)
      else
        let visited := visited ++ [h.item idx]
        if remove visited then
          match h.hashmapRemove (h.bucket idx).key with
          | none => none
          | some (h, _) => foreachLoop remove n h i visited
        else foreachLoop remove n h i visited

/-- `HASHMAP_FOREACH` -/
def foreach (remove : List (P × P) → Bool) (h : HashmapBase P HK) :
    Option (HashmapBase P HK × List (P × P)) :=
  foreachLoop remove (2 * h.nBuckets + 1) h iteratorFirst []

/-- Every removal on the way is a safe one. -/
def SafeLoop (safe : HashmapBase P HK → Nat → Prop) (remove : List (P × P) → Bool) :
    Nat → HashmapBase P HK → Iterator P → List (P × P) → Prop
  | 0, _, _, _ => True
  | n + 1, h, i, visited =>
    ∀ h₁ i₁ idx, h.hashmapIterateEntry i = some (h₁, i₁, idx) → idx ≠ idxNil →
      (remove (visited ++ [h₁.item idx]) = true →
        (∀ x, h₁.lookup (h₁.bucket idx).key = some x → safe h₁ x) ∧
          ∀ h₂ p, h₁.hashmapRemove (h₁.bucket idx).key = some (h₂, p) →
            SafeLoop safe remove n h₂ i₁ (visited ++ [h₁.item idx])) ∧
      (remove (visited ++ [h₁.item idx]) = false →
        SafeLoop safe remove n h₁ i₁ (visited ++ [h₁.item idx]))

def SafePass (safe : HashmapBase P HK → Nat → Prop) (remove : List (P × P) → Bool)
    (h : HashmapBase P HK) : Prop :=
  SafeLoop safe remove (2 * h.nBuckets + 1) h iteratorFirst []

end Loop

/-- In the order of the buckets: the entries that move back are not those of the first bucket
    and of buckets behind it, and if an entry with key NULL and another value is next, it is
    not the last one to move. -/
def SafeToRemove (h : HashmapBase P HK) (x : Nat) : Prop :=
  h.successor x ≠ idxNil → ∀ stop, h.findStop x h.nBuckets (h.nextIdx x) = some stop →
    ¬(0 < stop ∧ stop ≤ x) ∧
      (h.nextIdx (h.successor x) = stop → (h.bucket (h.successor x)).key = default →
        h.entryValue (h.successor x) = default)

/-- In the order of the list: if an entry with key NULL is next, it is not the last one to
    move. -/
def SafeToRemoveOrdered (h : HashmapBase P HK) (x : Nat) : Prop :=
  h.successor x ≠ idxNil → ∀ stop, h.findStop x h.nBuckets (h.nextIdx x) = some stop →
    h.nextIdx (h.successor x) = stop → (h.bucket (h.successor x)).key ≠ default

/-! ## Where the entries are after one was removed -/

/-- Where the entry of a bucket is after the entry of `x` was removed. -/
abbrev movedTo (h : HashmapBase P HK) (x k y : Nat) : Nat := shiftedIdx h.nBuckets x (k - 1) y

theorem Removed.entry_movedTo (hr : Removed h l x k h' disp') (hy : y ∈ l) (hyx : y ≠ x) :
    h'.entry (h.movedTo x k y) = h.entry y := by
  have hentries := hr.entries
  rw [map_map, map_inj_left] at hentries
  exact hentries y (mem_filter.mpr ⟨hy, by simpa using hyx⟩)

theorem Removed.item_movedTo (hr : Removed h l x k h' disp') (hy : y ∈ l) (hyx : y ≠ x) :
    h'.item (h.movedTo x k y) = h.item y := by
  rw [item_eq, item_eq, hr.type, hr.entry_movedTo hy hyx]

/-- How far the next entry is from the removed one. -/
theorem distMod_pos {n : Nat} (hx : x < n) (hyx : y ≠ x) : 0 < distMod n x y :=
  Nat.pos_of_ne_zero fun hzero => hyx (eq_of_distMod_eq_zero hx hzero).symm

/-- The stop bucket that the code finds. -/
theorem Removed.findStop (hs : Stored h l disp) (hr : Removed h l x k h' disp') (hx : x ∈ l) :
    h.findStop x h.nBuckets (h.nextIdx x) = some ((x + k) % h.nBuckets) := by
  have hlt := hs.inside x hx
  obtain ⟨k', hk', hfind⟩ := hs.exists_stop hlt
  -- there is only one first stop
  have hkk : k' = k := by
    rcases Nat.lt_trichotomy k' k with hlt' | heq | hlt'
    · exact absurd hk'.stop (hr.stop.before k' hk'.pos hlt')
    · exact heq
    · exact absurd hr.stop.stop (hk'.before k hr.stop.pos hlt')
  rw [hfind, hkk]

/-- The last entry to move is the one in front of the stop bucket. -/
theorem Removed.nextIdx_eq_iff (hs : Stored h l disp) (hr : Removed h l x k h' disp') (hx : x ∈ l)
    (hy : y < h.nBuckets) :
    h.nextIdx y = (x + k) % h.nBuckets ↔ distMod h.nBuckets x y = k - 1 := by
  have hlt := hs.inside x hx
  have hkpos := hr.stop.pos
  have hkle := hr.stop.le
  have hat := add_distMod hlt hy
  have hprev : (x + k) % h.nBuckets = succMod h.nBuckets ((x + (k - 1)) % h.nBuckets) := by
    rw [succMod_add, Nat.sub_add_cancel hkpos]
  have hplt : (x + (k - 1)) % h.nBuckets < h.nBuckets := Nat.mod_lt _ hs.table.pos
  rw [hprev]
  constructor
  · intro heq
    have hyp := succMod_inj hy hplt heq
    rw [hyp]
    exact distMod_eq hlt (by omega) rfl
  · intro heq
    rw [heq] at hat
    rw [hat]
    rfl

/-- The freed bucket is not in use. -/
theorem Removed.hole_not_mem (hs : Stored h l disp) (hr : Removed h l x k h' disp') (hx : x ∈ l)
    (hyx : y ≠ x) (hlast : distMod h.nBuckets x y = k - 1) :
    y ∉ (l.filter (· ≠ x)).map (h.movedTo x k) := by
  have hlt := hs.inside x hx
  have hpos := distMod_pos hlt hyx
  have hkle := hr.stop.le
  intro hmem
  obtain ⟨z, hz, hzy⟩ := mem_map.mp hmem
  unfold movedTo shiftedIdx at hzy
  split at hzy
  · next hmoved =>
    have hdist := distMod_eq hlt (show distMod h.nBuckets x z - 1 < h.nBuckets by omega) hzy
    omega
  · next hstay =>
    rw [hzy] at hstay
    omega

/-- What the iterator will read after the current entry was removed. -/
theorem Removed.pending (hs : Stored h l disp) (hr : Removed h l x k h' disp') (hx : x ∈ l)
    (hmem : ∀ y ∈ rest, y ∈ l ∧ y ≠ x ∧ (h.type ≠ .ordered → x < y)) (hfresh : Fresh h i rest)
    (hsafe : ∀ y ys, rest = y :: ys → h.nextIdx y = (x + k) % h.nBuckets → (h.bucket y).key = default →
      h.type ≠ .ordered ∧ h.entryValue y = default) :
    Pending h' i (rest.map (h.movedTo x k)) := by
  have hlt := hs.inside x hx
  cases hfresh with
  | done hidx => exact .done hidx
  | @next y ys hidx hkey hpos =>
    obtain ⟨hy, hyx, hxy⟩ := hmem y mem_cons_self
    have hylt := hs.inside y hy
    have hypos := distMod_pos hlt hyx
    have hydist := distMod_lt hlt hylt
    have hat := add_distMod hlt hylt
    have hentry := hr.entry_movedTo hy hyx
    have hkeymoved : (h'.bucket (h.movedTo x k y)).key = (h.bucket y).key := congrArg Prod.fst hentry
    have hpos' : h'.type ≠ .ordered → 0 < i.idx := by
      intro htype
      rw [hr.type] at htype
      rw [hidx]
      exact hpos htype
    have hnil : i.idx ≠ idxNil := by
      rw [hidx]
      exact hs.ne_idxNil hy
    have hfirst : i.idx ≠ idxFirst := by
      rw [hidx]
      exact hs.ne_idxFirst hy
    rw [map_cons]
    by_cases hmoved : distMod h.nBuckets x y ≤ k - 1
    · -- the next entry was shifted one bucket back
      have hto : h.movedTo x k y = (x + (distMod h.nBuckets x y - 1)) % h.nBuckets :=
        if_pos ⟨hypos, hmoved⟩
      have htolt : h.movedTo x k y < h'.nBuckets := by
        rw [hto, hr.nBuckets]
        exact Nat.mod_lt _ hs.table.pos
      have hpred : h.movedTo x k y = h'.predecessor i.idx := by
        rw [hto, hidx]
        unfold predecessor
        rw [hr.type]
        split
        · -- one step back, round the circle
          unfold prevIdx
          rw [hr.nBuckets]
          have hback : (x + (distMod h.nBuckets x y - 1)) % h.nBuckets = (h.nBuckets + y - 1) % h.nBuckets := by
            unfold distMod at hypos hydist ⊢
            split
            · have heq : h.nBuckets + y - 1 = x + (y - x - 1) + h.nBuckets := by omega
              rw [heq, Nat.add_mod_right]
            · have heq : x + (h.nBuckets + y - x - 1) = h.nBuckets + y - 1 := by omega
              rw [heq]
          exact hback
        · next htype =>
          have hlt' := hxy htype
          have hd : distMod h.nBuckets x y = y - x := if_pos (Nat.le_of_lt hlt')
          rw [hd, Nat.mod_eq_of_lt (by omega)]
          omega
      -- the old bucket has the next entry that has moved, or it was zeroed
      by_cases hlast : distMod h.nBuckets x y = k - 1
      · have hzero : h'.entry y = (default, default) := by
          rw [hr.entry y hylt, if_neg (by omega), if_pos hlast]
        have hzerokey : (h'.bucket y).key = default := congrArg Prod.fst hzero
        by_cases hnull : (h.bucket y).key = default
        · -- an entry with the zero key is still found, in its old bucket
          obtain ⟨htype, hvalue⟩ := hsafe y ys rfl ((hr.nextIdx_eq_iff hs hx hylt).mpr hlast) hnull
          have htype' : h'.type ≠ .ordered := by rw [hr.type]; exact htype
          have hlt' := hxy htype
          refine .next (r := y) ⟨hnil, hfirst, hpos', ?_, .inl ⟨?_, hidx.symm⟩, by rw [hr.nBuckets]; exact hylt⟩
            ?_ ?_
          · rw [hzerokey, hkey, hnull]
          · rw [hidx, hzerokey, hkey, hnull]
          · rw [hr.item_movedTo hy hyx, item_eq, hzero]
            unfold item
            rw [hnull, hvalue, hr.type]
            cases h.type <;> rfl
          · -- the freed bucket is skipped
            have hto' : h.movedTo x k y + 1 = y := by
              rw [hpred, hidx]
              have hp : h'.predecessor y = y - 1 := if_neg htype'
              omega
            have hfree : h'.dib y = dibRawFree := by
              rw [hr.stored.dib_eq_free_iff (by rw [hr.nBuckets]; exact hylt)]
              exact hr.hole_not_mem hs hx hyx hlast
            have hskip : h'.skipFreeBuckets y = h'.skipFreeBuckets (y + 1) := by
              rw [skipFreeBuckets_of_lt (by rw [hr.nBuckets]; exact hylt), if_neg (not_not.mpr hfree)]
            unfold successor
            rw [if_neg htype', if_neg htype', hto', hskip]
        · refine .next (r := h.movedTo x k y) ⟨hnil, hfirst, hpos', by rw [hkeymoved, hkey],
            .inr ⟨?_, hpred⟩, htolt⟩ rfl rfl
          rw [hidx, hzerokey, hkey]
          exact fun heq => hnull heq.symm
      · -- the entry behind it has moved into its bucket, under another key
        have hnextlt : succMod h.nBuckets y < h.nBuckets := succMod_lt hs.table.pos y
        have hnextat : succMod h.nBuckets y = (x + (distMod h.nBuckets x y + 1)) % h.nBuckets := by
          rw [← succMod_add, hat]
        have hnextmem : succMod h.nBuckets y ∈ l := by
          refine hs.mem_of_not_stop hnextlt ?_
          rw [hnextat]
          exact hr.stop.before _ (Nat.succ_pos _) (by omega)
        have hnextkey : (h'.bucket y).key = (h.bucket (succMod h.nBuckets y)).key := by
          have he : h'.entry y = h.entry (succMod h.nBuckets y) := by
            rw [hr.entry y hylt, if_pos (by omega)]
          exact congrArg Prod.fst he
        have hone : 1 < h.nBuckets := by omega
        refine .next (r := h.movedTo x k y) ⟨hnil, hfirst, hpos', by rw [hkeymoved, hkey],
          .inr ⟨?_, hpred⟩, htolt⟩ rfl rfl
        rw [hidx, hnextkey, hkey]
        intro heq
        refine succMod_ne_self hone hylt (hs.eq_of_equal hnextmem hy ?_)
        rw [heq]
        exact h.hashOps.equal_refl _
    · -- the next entry is behind the stop bucket and stays
      have hto : h.movedTo x k y = y := if_neg (by omega)
      rw [hto] at hkeymoved ⊢
      refine .next (r := y) ⟨hnil, hfirst, hpos', by rw [hkeymoved, hkey], .inl ⟨?_, hidx.symm⟩,
        by rw [hr.nBuckets]; exact hylt⟩ rfl rfl
      rw [hidx, hkeymoved, hkey]

/-! ## What the iterator still has to come to -/

/-- A sorted list is what is below a bound, and then the rest. -/
theorem eq_filter_append {s : List Nat} (hs : s.Pairwise (· < ·)) (p : Nat) :
    s = s.filter (fun i => decide (i < p)) ++ s.filter (fun i => decide (p ≤ i)) := by
  have hsorted : (s.filter (fun i => decide (i < p)) ++ s.filter (fun i => decide (p ≤ i))).Pairwise
      (· < ·) := by
    rw [pairwise_append]
    refine ⟨hs.filter _, hs.filter _, fun i hi j hj => ?_⟩
    have hip := of_decide_eq_true (mem_filter.mp hi).2
    have hjp := of_decide_eq_true (mem_filter.mp hj).2
    omega
  refine hs.eq_of_mem_iff hsorted fun i => ?_
  rw [mem_append, mem_filter, mem_filter, decide_eq_true_iff, decide_eq_true_iff]
  constructor
  · intro hi
    rcases Nat.lt_or_ge i p with hlt | hge
    · exact .inl ⟨hi, hlt⟩
    · exact .inr ⟨hi, hge⟩
  · rintro (⟨hi, -⟩ | ⟨hi, -⟩)
    · exact hi
    · exact hi

/-- An entry behind the removed one, in the order of the buckets. -/
theorem movedTo_of_lt {n : Nat} (hxy : x < y) (hy : y < n) :
    shiftedIdx n x (k - 1) y = if y ≤ x + (k - 1) then y - 1 else y := by
  have hd : distMod n x y = y - x := if_pos (Nat.le_of_lt hxy)
  unfold shiftedIdx
  by_cases hle : y ≤ x + (k - 1)
  · rw [if_pos hle, if_pos (by omega), Nat.mod_eq_of_lt (by omega)]
    omega
  · rw [if_neg hle, if_neg (by omega)]

/-- In the order of the buckets, if nothing comes from the first bucket. -/
theorem Removed.suffix_internal (hs : Stored h l disp) (hr : Removed h l x k h' disp')
    (htype : h.type ≠ .ordered) (horder : h.iterationOrder l = a ++ x :: rest)
    (hwrap : x + k ≤ h.nBuckets) :
    ∃ a', h'.iterationOrder ((l.filter (· ≠ x)).map (h.movedTo x k)) = a' ++ rest.map (h.movedTo x k) := by
  have hmem := hs.mem_behind htype horder
  have htype' : h'.type ≠ .ordered := by
    rw [hr.type]
    exact htype
  have hsorted' := sorted_iterationOrder (l := (l.filter (· ≠ x)).map (h.movedTo x k)) htype'
  have hmoved : ∀ y ∈ rest, h.movedTo x k y = if y ≤ x + (k - 1) then y - 1 else y := by
    intro y hy
    obtain ⟨hyl, hxy⟩ := (hmem y).mp hy
    exact movedTo_of_lt (by omega) (hs.inside y hyl)
  have hsorted : (rest.map (h.movedTo x k)).Pairwise (· < ·) := by
    have hrest := sorted_iterationOrder (l := l) htype
    rw [horder] at hrest
    rw [pairwise_map]
    refine Pairwise.imp_of_mem ?_ (pairwise_cons.mp (pairwise_append.mp hrest).2.1).2
    intro y z hy hz hyz
    have hxy := ((hmem y).mp hy).2
    rw [hmoved y hy, hmoved z hz]
    split <;> split <;> omega
  have hsuffix : (h'.iterationOrder ((l.filter (· ≠ x)).map (h.movedTo x k))).filter
      (fun i => decide (x ≤ i)) = rest.map (h.movedTo x k) := by
    refine (hsorted'.filter _).eq_of_mem_iff hsorted fun i => ?_
    rw [mem_filter, hr.stored.mem_iterationOrder, decide_eq_true_iff]
    constructor
    · rintro ⟨hi, hxi⟩
      obtain ⟨z, hz, rfl⟩ := mem_map.mp hi
      obtain ⟨hzl, hzx⟩ := mem_filter.mp hz
      replace hzx : z ≠ x := by simpa using hzx
      refine mem_map.mpr ⟨z, (hmem z).mpr ⟨hzl, ?_⟩, rfl⟩
      -- an entry in front of the removed one has not moved
      by_contra hbefore
      have hd : distMod h.nBuckets x z = h.nBuckets + z - x := if_neg (by omega)
      have hstay : h.movedTo x k z = z := if_neg (by rw [hd]; omega)
      replace hxi : x ≤ h.movedTo x k z := hxi
      omega
    · intro hi
      obtain ⟨z, hz, rfl⟩ := mem_map.mp hi
      obtain ⟨hzl, hxz⟩ := (hmem z).mp hz
      refine ⟨mem_map.mpr ⟨z, mem_filter.mpr ⟨hzl, by simp; omega⟩, rfl⟩, ?_⟩
      rw [hmoved z hz]
      split <;> omega
  refine ⟨_, (eq_filter_append hsorted' x).trans (congrArg _ hsuffix)⟩

/-- In the order of the list. -/
theorem Removed.suffix_insertion (hs : Stored h l disp) (hr : Removed h l x k h' disp')
    (htype : h.type = .ordered) (horder : h.iterationOrder l = a ++ x :: rest) :
    ∃ a', h'.iterationOrder ((l.filter (· ≠ x)).map (h.movedTo x k)) = a' ++ rest.map (h.movedTo x k) := by
  rw [iterationOrder_of_ordered htype] at horder
  subst horder
  refine ⟨a.map (h.movedTo x k), ?_⟩
  rw [iterationOrder_of_ordered (hr.type.trans htype), filter_ne_eq_append hs.table.nodup, map_append]

/-! ## Whole passes -/

section Pass

variable [DecidableEq P]

/-- What holds in the loop: the iterator will come to the entries in the buckets `rest`. -/
structure Passing (h : HashmapBase P HK) (l : List Nat) (disp : Nat → Option Nat) (i : Iterator P)
    (rest : List Nat) : Prop where
  stored : Stored h l disp
  order : ∃ a, h.iterationOrder l = a ++ rest
  pending : Pending h i rest

/-- What makes a removal safe, whatever the order. -/
structure Safe (safe : HashmapBase P HK → Nat → Prop) (h : HashmapBase P HK) : Prop where
  remove : ∀ {l : List Nat} {disp : Nat → Option Nat} {a rest : List Nat} {i : Iterator P} {x : Nat},
    Stored h l disp → h.iterationOrder l = a ++ x :: rest → Fresh h i rest → safe h x →
    ∃ h' l' disp' rest', h.baseRemoveEntry x = some h' ∧ h'.type = h.type ∧ Passing h' l' disp' i rest' ∧
      rest'.length = rest.length ∧ rest'.map h'.item = rest.map h.item

omit [DecidableEq P] in
theorem safe_of_ne (htype : h.type ≠ .ordered) : Safe SafeToRemove h := by
  refine ⟨fun {l disp a rest i x} hs horder hfresh hsafe => ?_⟩
  have hx : x ∈ l := hs.mem_iterationOrder.mp (by rw [horder]; simp)
  have hlt := hs.inside x hx
  have hmem := hs.mem_behind htype horder
  obtain ⟨h', k, disp', hremove, hr⟩ := baseRemoveEntry_spec hs hx
  have hfind := hr.findStop hs hx
  have hkle := hr.stop.le
  have hitems : (rest.map (h.movedTo x k)).map h'.item = rest.map h.item := by
    rw [map_map]
    apply map_congr_left
    intro y hy
    obtain ⟨hyl, hxy⟩ := (hmem y).mp hy
    exact hr.item_movedTo hyl (by omega)
  have hsucc := hs.successor_eq horder
  refine ⟨h', _, disp', rest.map (h.movedTo x k), hremove, hr.type, ⟨hr.stored, ?_, ?_⟩, by simp, hitems⟩
  · cases rest with
    | nil => exact ⟨_, (append_nil _).symm⟩
    | cons y ys =>
      refine hr.suffix_internal hs htype horder ?_
      -- the stop bucket is not behind the first bucket
      obtain ⟨hyl, hxy⟩ := (hmem y).mp mem_cons_self
      have hynil : h.successor x ≠ idxNil := by
        rw [hsucc]
        exact hs.ne_idxNil hyl
      by_contra hwrap
      refine (hsafe hynil _ hfind).1 ?_
      have hmod : (x + k) % h.nBuckets = x + k - h.nBuckets := by
        rw [Nat.mod_eq_sub_mod (by omega)]
        exact Nat.mod_eq_of_lt (by omega)
      omega
  · refine hr.pending hs hx (fun y hy => ?_) hfresh fun y ys hrest hstop hnull => ⟨htype, ?_⟩
    · obtain ⟨hyl, hxy⟩ := (hmem y).mp hy
      exact ⟨hyl, by omega, fun _ => by omega⟩
    · subst hrest
      have hyl := ((hmem y).mp mem_cons_self).1
      have hsucc' : h.successor x = y := hsucc
      have hynil : h.successor x ≠ idxNil := by
        rw [hsucc']
        exact hs.ne_idxNil hyl
      have hvalue := (hsafe hynil _ hfind).2
      rw [hsucc'] at hvalue
      exact hvalue hstop hnull

omit [DecidableEq P] in
theorem safe_of_ordered (htype : h.type = .ordered) : Safe SafeToRemoveOrdered h := by
  refine ⟨fun {l disp a rest i x} hs horder hfresh hsafe => ?_⟩
  have hx : x ∈ l := hs.mem_iterationOrder.mp (by rw [horder]; simp)
  have hnodup := hs.table.nodup
  have horder' := horder
  rw [iterationOrder_of_ordered htype] at horder'
  have hmem : ∀ y ∈ rest, y ∈ l ∧ y ≠ x := by
    intro y hy
    refine ⟨by rw [horder']; simp [hy], ?_⟩
    rintro rfl
    rw [horder'] at hnodup
    exact (nodup_cons.mp (nodup_append.mp hnodup).2.1).1 hy
  obtain ⟨h', k, disp', hremove, hr⟩ := baseRemoveEntry_spec hs hx
  have hfind := hr.findStop hs hx
  have hitems : (rest.map (h.movedTo x k)).map h'.item = rest.map h.item := by
    rw [map_map]
    apply map_congr_left
    intro y hy
    exact hr.item_movedTo (hmem y hy).1 (hmem y hy).2
  have hsucc := hs.successor_eq horder
  refine ⟨h', _, disp', rest.map (h.movedTo x k), hremove, hr.type,
    ⟨hr.stored, hr.suffix_insertion hs htype horder, ?_⟩, by simp, hitems⟩
  refine hr.pending hs hx (fun y hy => ⟨(hmem y hy).1, (hmem y hy).2, fun hne => absurd htype hne⟩) hfresh
    fun y ys hrest hstop hnull => ?_
  subst hrest
  have hyl := (hmem y mem_cons_self).1
  have hsucc' : h.successor x = y := hsucc
  have hynil : h.successor x ≠ idxNil := by
    rw [hsucc']
    exact hs.ne_idxNil hyl
  have hkey := hsafe hynil _ hfind
  rw [hsucc'] at hkey
  exact absurd hnull (hkey hstop)

omit [Inhabited P] [DecidableEq P] in
/-- The key of the current entry finds it. -/
theorem Stored.lookup_self (hs : Stored h l disp) (hx : x ∈ l) {key : P} (hkey : key = (h.bucket x).key) :
    h.lookup key = some x := by
  obtain ⟨idx, heq, hloc⟩ := hs.lookup key
  rw [heq]
  have hself : h.hashOps.equal (h.bucket x).key key = true := by
    rw [hkey]
    exact h.hashOps.equal_refl _
  cases hloc with
  | entry hidx hnil hkey' hfind =>
    rw [hs.eq_of_equal hidx hx (h.hashOps.equal_trans _ _ _ hkey' (h.hashOps.equal_symm _ _ hself))]
  | absent hnone hfind =>
    rw [hnone x hx] at hself
    cases hself

variable {remove : List (P × P) → Bool} {n : Nat} {safe : HashmapBase P HK → Nat → Prop}

theorem foreachLoop_done (hidx : i.idx = idxNil) (visited : List (P × P)) :
    foreachLoop remove (n + 1) h i visited = some (h, visited) := by
  have hstep : h.hashmapIterateEntry i = some (h, { i with idx := idxNil }, idxNil) := by
    unfold hashmapIterateEntry
    split
    · unfold hashmapIterateInInsertionOrder
      rw [if_pos (.inl hidx)]
      rfl
    · unfold hashmapIterateInInternalOrder
      rw [if_pos hidx]
  rw [foreachLoop, hstep]
  exact if_pos rfl

/-- One round, at the entry in bucket `x`. -/
theorem foreachLoop_step {r : Nat} {i₁ : Iterator P} {h₁ : HashmapBase P HK} {visited : List (P × P)}
    (hiterate : h.hashmapIterateEntry i = some (h₁, i₁, r)) (hr : r ≠ idxNil)
    (hitem : h₁.item r = h₁.item x) (hs : Stored h₁ l disp)
    (horder : h₁.iterationOrder l = a ++ x :: rest) (hfresh : Fresh h₁ i₁ rest) (hcond : Safe safe h₁)
    (hsafe : SafeLoop safe remove (n + 1) h i visited)
    (hloop : ∀ h₂ l₂ disp₂ rest₂, h₂.type = h₁.type → Passing h₂ l₂ disp₂ i₁ rest₂ → rest₂.length = rest.length →
      SafeLoop safe remove n h₂ i₁ (visited ++ [h₁.item x]) →
      ∃ h', foreachLoop remove n h₂ i₁ (visited ++ [h₁.item x]) =
        some (h', visited ++ [h₁.item x] ++ rest₂.map h₂.item)) :
    ∃ h', foreachLoop remove (n + 1) h i visited =
      some (h', visited ++ h₁.item x :: rest.map h₁.item) := by
  have hx : x ∈ l := hs.mem_iterationOrder.mp (by rw [horder]; simp)
  have hkey : (h₁.bucket r).key = (h₁.bucket x).key := congrArg Prod.fst hitem
  have hlookup := hs.lookup_self hx hkey
  obtain ⟨hremoved, hkept⟩ := hsafe h₁ i₁ r hiterate hr
  rw [hitem] at hremoved hkept
  rw [foreachLoop, hiterate]
  dsimp only
  rw [if_neg hr, hitem]
  have happend : visited ++ h₁.item x :: rest.map h₁.item =
      visited ++ [h₁.item x] ++ rest.map h₁.item := append_cons ..
  rw [happend]
  cases hremove : remove (visited ++ [h₁.item x]) with
  | false =>
    have hmem : ∀ y ∈ rest, y ∈ l := fun y hy => hs.mem_iterationOrder.mp (by rw [horder]; simp [hy])
    refine hloop h₁ l disp rest rfl ⟨hs, ⟨a ++ [x], ?_⟩, hfresh.pending hs hmem⟩ rfl (hkept hremove)
    rw [horder, append_assoc]
    rfl
  | true =>
    obtain ⟨hsafex, hnext⟩ := hremoved hremove
    obtain ⟨h₂, l₂, disp₂, rest₂, hentry, htype, hpassing, hlen, hitems⟩ :=
      hcond.remove hs horder hfresh (hsafex x hlookup)
    have hmapremove : h₁.hashmapRemove (h₁.bucket r).key = some (h₂, h₁.entryValue x) := by
      unfold hashmapRemove
      rw [hlookup]
      dsimp only
      rw [if_neg (hs.ne_idxNil hx), hentry]
      rfl
    rw [if_pos rfl, hmapremove]
    rw [← hitems]
    exact hloop h₂ l₂ disp₂ rest₂ htype hpassing hlen (hnext h₂ _ hmapremove)

theorem foreachLoop_spec {visited : List (P × P)} {type : HashmapType}
    (hcond : ∀ h₁ : HashmapBase P HK, h₁.type = type → Safe safe h₁) (htype : h.type = type)
    (hp : Passing h l disp i rest) (hn : rest.length < n) (hsafe : SafeLoop safe remove n h i visited) :
    ∃ h', foreachLoop remove n h i visited = some (h', visited ++ rest.map h.item) := by
  induction n generalizing h l disp i rest visited with
  | zero => omega
  | succ n ih =>
    obtain ⟨a, horder⟩ := hp.order
    cases hp.pending with
    | done hidx => exact ⟨h, by rw [foreachLoop_done hidx, map_nil, append_nil]⟩
    | @next x r rest hreads hitem hnext =>
      have hr : r ≠ idxNil := by
        intro hnil
        have hlt := hp.stored.table.lt_idxPut hreads.inside
        rw [hnil] at hlt
        exact absurd hlt (by decide)
      refine foreachLoop_step hreads.hashmapIterateEntry hr hitem hp.stored horder
        (hp.stored.fresh_advanced horder hnext) (hcond h htype) hsafe ?_
      intro h₂ l₂ disp₂ rest₂ htype₂ hpassing hlen hsafe₂
      exact ih (htype₂.trans htype) hpassing (by rw [length_cons] at hn; omega) hsafe₂

/-- A pass visits the entries in the order of iteration. -/
theorem foreach_spec (hcond : ∀ h₁ : HashmapBase P HK, h₁.type = h.type → Safe safe h₁)
    (hs : Stored h l disp) (hsafe : SafePass safe remove h) :
    ∃ h', foreach remove h = some (h', (h.iterationOrder l).map h.item) := by
  obtain ⟨i, hiterate, hfresh⟩ := hs.iterate_first
  have hs' := hs.knowLowest
  have horder := iterationOrder_knowLowest h ((h.iterationOrder l).head?.getD idxNil) l
  have hitem := item_knowLowest h ((h.iterationOrder l).head?.getD idxNil)
  have hkind := sameKind_knowLowest h ((h.iterationOrder l).head?.getD idxNil)
  have hcard : (h.iterationOrder l).length ≤ h.nBuckets := by
    rw [hs.iterationOrder_perm.length_eq, ← hs.size]
    exact hs.sized.nEntries_le
  unfold foreach
  cases hcases : h.iterationOrder l with
  | nil =>
    rw [hcases] at hiterate
    refine ⟨h.knowLowest idxNil, ?_⟩
    rw [foreachLoop, hiterate]
    exact if_pos rfl
  | cons x rest =>
    rw [hcases] at hiterate hfresh hs' horder hitem hkind hcard
    have hx : x ∈ l := hs.mem_iterationOrder.mp (by rw [hcases]; simp)
    rw [← hitem]
    refine foreachLoop_step (a := []) hiterate (hs.ne_idxNil hx) rfl hs' horder hfresh (hcond _ hkind.type) hsafe
      fun h₂ l₂ disp₂ rest₂ htype₂ hpassing hlen hsafe₂ => ?_
    refine foreachLoop_spec hcond (htype₂.trans hkind.type) hpassing ?_ hsafe₂
    rw [length_cons] at hcard
    omega

end Pass

end HashmapBase

end Elogind
