/-
  Elogind.Basic.UidRange

  Sets of user ids as arrays of ranges (uid-range.c).  An addition that wraps is told apart: a function that makes one has
  no result here.
-/

import Elogind.Basic.ParseUtil
import Elogind.Lib.Intervals
import Elogind.Lib.Sorting

namespace Elogind

open Errno Lib List

/-! ## Definitions -/

/-- `UIDRangeEntry` -/
structure UidRangeEntry where
  start : UInt32
  nr : UInt32
  deriving DecidableEq, Repr

/-- `UINT32_MAX` -/
def UidRange.uint32Max : UInt32 := 0xffffffff

namespace UidRange

/-- `a + b`; nothing if this wraps. -/
def add (a b : UInt32) : Option UInt32 := if a.toNat + b.toNat < 2 ^ 32 then some (a + b) else none

/-- `uid_range_entry_intersect` -/
def entryIntersect (a b : UidRangeEntry) : Option Bool := do
  let aStop ← add a.start a.nr
  let bStop ← add b.start b.nr
  return a.start ≤ bStop && aStop ≥ b.start

/-- `uid_range_entry_compare` -/
def entryCompare : UidRangeEntry → UidRangeEntry → Ordering :=
  compareLex (compareOn UidRangeEntry.start) (compareOn UidRangeEntry.nr)

/-- `MIN` -/
def minUid (a b : UInt32) : UInt32 := if a < b then a else b

/-- `MAX` -/
def maxUid (a b : UInt32) : UInt32 := if a > b then a else b

/-- The entry that two entries are merged to, in `uid_range_coalesce`. -/
def merge (x y : UidRangeEntry) : Option UidRangeEntry := do
  let xStop ← add x.start x.nr
  let yStop ← add y.start y.nr
  let first := minUid x.start y.start
  return ⟨first, maxUid xStop yStop - first⟩

/-- The inner loop of `uid_range_coalesce`. -/
def coalesceInner (i j : Nat) (entries : List UidRangeEntry) : Option (List UidRangeEntry) :=
  match entries[i]?, h : entries[j]? with
  | some x, some y =>
    match entryIntersect x y with
    | none => none
    | some false => some entries
    | some true =>
      match merge x y with
      | none => none
      | some x => coalesceInner i (j - 1 + 1) ((entries.set i x).eraseIdx j)
  | _, _ => some entries
termination_by entries.length
decreasing_by
  have hj := (List.getElem?_eq_some_iff.mp h).1
  rw [List.length_eraseIdx_of_lt (by rwa [List.length_set]), List.length_set]
  omega

/-- The loop only takes entries out. -/
theorem coalesceInner_length {i j : Nat} {entries entries' : List UidRangeEntry}
    (h : coalesceInner i j entries = some entries') : entries'.length ≤ entries.length := by
  fun_induction coalesceInner i j entries with
  | case1 j entries x y hi hj hnone => cases h
  | case2 j entries x y hi hj hmiss =>
    cases h
    exact Nat.le_refl _
  | case3 j entries x y hi hj htouch hnone => cases h
  | case4 j entries x y hi hj htouch x' hmerge ih =>
    refine Nat.le_trans (ih h) (Nat.le_trans (length_eraseIdx_le _ _) ?_)
    rw [length_set]
  | case5 j entries hnot =>
    cases h
    exact Nat.le_refl _

/-- The outer loop of `uid_range_coalesce`. -/
def coalesceOuter (i : Nat) (entries : List UidRangeEntry) : Option (List UidRangeEntry) :=
  if i < entries.length then
    match _h : coalesceInner i (i + 1) entries with
    | none => none
    | some entries => coalesceOuter (i + 1) entries
  else some entries
termination_by entries.length - i
decreasing_by
  have hlen := coalesceInner_length _h
  omega

/-- `uid_range_coalesce`, with a function for sorting. -/
def coalesce (q : Sorter) (entries : List UidRangeEntry) : Option (List UidRangeEntry) :=
  if entries.length ≤ 0 then some entries else coalesceOuter 0 (q.sort entryCompare entries)

/-- `uid_range_add_internal`: the result and the range, which is missing where there is a null pointer; `alloc` tells
    whether memory can be had. -/
def addInternal (q : Sorter) (alloc : Bool) (range : Option (List UidRangeEntry)) (start nr : UInt32) (coalesced : Bool) :
    Option (Result Unit × Option (List UidRangeEntry)) :=
  if nr ≤ 0 then some (.ok (), range)
  else if start > uint32Max - nr then some (.error ERANGE, range)
  else if !alloc then some (.error ENOMEM, range)
  else
    let entries := range.getD [] ++ [⟨start, nr⟩]
    (if coalesced then coalesce q entries else some entries).map fun entries => (.ok (), some entries)

/-- The loop of `uid_range_covers`. -/
def coversLoop (start nr : UInt32) : List UidRangeEntry → Option Bool
  | [] => some false
  | i :: entries => do
    let stop ← add start nr
    let iStop ← add i.start i.nr
    if start ≥ i.start && stop ≤ iStop then return true else coversLoop start nr entries

/-- `uid_range_covers` -/
def covers (range : Option (List UidRangeEntry)) (start nr : UInt32) : Option Bool :=
  if nr = 0 then some true
  else if start > uint32Max - nr then some false
  else
    match range with
    | none => some false
    | some entries => coversLoop start nr entries

/-- `UIDRangeUsernsMode` -/
inductive UsernsMode where
  | inside
  | outside
  | gidInside
  | gidOutside
  deriving DecidableEq, Repr

/-- What `uid_map_read_one` reads of a line. -/
structure UidMapLine where
  base : UInt32
  shift : UInt32
  range : UInt32

/-- The first uid of a line, by the mode. -/
def UidMapLine.start (line : UidMapLine) (mode : UsernsMode) : UInt32 :=
  if mode = .inside ∨ mode = .gidInside then line.base else line.shift

/-- The loop of `uid_range_load_userns`, over what `uid_map_read_one` returns until there is no line any more. -/
def loadUsernsLoop (q : Sorter) (mode : UsernsMode) (range : List UidRangeEntry) :
    List (Result UidMapLine × Bool) → Option (Result (List UidRangeEntry))
  | [] => (coalesce q range).map .ok
  | (.error e, _) :: _ => some (.error e)
  | (.ok line, alloc) :: lines =>
    match addInternal q alloc (some range) (line.start mode) line.range false with
    | none => none
    | some (.error e, _) => some (.error e)
    | some (.ok (), range) => loadUsernsLoop q mode (range.getD []) lines

/-! ## Entries -/

/-- The uids of an entry. -/
def toInterval (x : UidRangeEntry) : HalfOpen Nat where
  lo := x.start.toNat
  hi := x.start.toNat + x.nr.toNat
  le := Nat.le_add_right _ _

/-- An entry that is not empty and does not wrap. -/
structure Valid (x : UidRangeEntry) : Prop where
  pos : 0 < x.nr.toNat
  fits : x.start.toNat + x.nr.toNat < 2 ^ 32

theorem add_of_lt {a b : UInt32} (h : a.toNat + b.toNat < 2 ^ 32) :
    add a b = some (a + b) ∧ (a + b).toNat = a.toNat + b.toNat := by
  refine ⟨if_pos h, ?_⟩
  rw [UInt32.toNat_add, Nat.mod_eq_of_lt h]

theorem Valid.stop {x : UidRangeEntry} (h : Valid x) :
    add x.start x.nr = some (x.start + x.nr) ∧ (x.start + x.nr).toNat = (toInterval x).hi := add_of_lt h.fits

theorem entryIntersect_eq {x y : UidRangeEntry} (hx : Valid x) (hy : Valid y) :
    entryIntersect x y = some (decide ((toInterval x).Touches (toInterval y))) := by
  unfold entryIntersect
  rw [hx.stop.1, hy.stop.1]
  refine congrArg some ?_
  show (decide (x.start ≤ y.start + y.nr) && decide (y.start ≤ x.start + x.nr)) = _
  rw [← Bool.decide_and, decide_eq_decide, UInt32.le_iff_toNat_le, UInt32.le_iff_toNat_le, hx.stop.2, hy.stop.2]
  rfl

theorem toNat_maxUid (a b : UInt32) : (maxUid a b).toNat = max a.toNat b.toNat := by
  unfold maxUid
  by_cases h : a > b
  · rw [if_pos h]
    exact (Nat.max_eq_left (UInt32.lt_iff_toNat_lt.mp h).le).symm
  · rw [if_neg h]
    exact (Nat.max_eq_right (Nat.le_of_not_lt fun hlt => h (UInt32.lt_iff_toNat_lt.mpr hlt))).symm

theorem toNat_minUid (a b : UInt32) : (minUid a b).toNat = min a.toNat b.toNat := by
  unfold minUid
  by_cases h : a < b
  · rw [if_pos h]
    exact (Nat.min_eq_left (UInt32.lt_iff_toNat_lt.mp h).le).symm
  · rw [if_neg h]
    exact (Nat.min_eq_right (Nat.le_of_not_lt fun hlt => h (UInt32.lt_iff_toNat_lt.mpr hlt))).symm

/-- Two entries are merged to the uids of both and those between them. -/
theorem merge_eq {x y : UidRangeEntry} (hx : Valid x) (hy : Valid y) :
    ∃ z, merge x y = some z ∧ Valid z ∧ toInterval z = (toInterval x).join (toInterval y) := by
  unfold merge
  rw [hx.stop.1, hy.stop.1]
  refine ⟨_, rfl, ?_⟩
  have hmax : (maxUid (x.start + x.nr) (y.start + y.nr)).toNat = max (toInterval x).hi (toInterval y).hi := by
    rw [toNat_maxUid, hx.stop.2, hy.stop.2]
  have hmin : (minUid x.start y.start).toNat = min (toInterval x).lo (toInterval y).lo := toNat_minUid _ _
  have hlt : min (toInterval x).lo (toInterval y).lo < max (toInterval x).hi (toInterval y).hi :=
    lt_of_le_of_lt (min_le_left _ _) (lt_of_lt_of_le (Nat.lt_add_of_pos_right hx.pos) (le_max_left _ _))
  have hfits : max (toInterval x).hi (toInterval y).hi < 2 ^ 32 := max_lt hx.fits hy.fits
  have hsub : (maxUid (x.start + x.nr) (y.start + y.nr) - minUid x.start y.start).toNat =
      max (toInterval x).hi (toInterval y).hi - min (toInterval x).lo (toInterval y).lo := by
    rw [UInt32.toNat_sub_of_le, hmax, hmin]
    rw [UInt32.le_iff_toNat_le, hmax, hmin]
    exact hlt.le
  refine ⟨⟨?_, ?_⟩, ?_⟩
  · show 0 < (maxUid (x.start + x.nr) (y.start + y.nr) - minUid x.start y.start).toNat
    omega
  · show (minUid x.start y.start).toNat + (maxUid (x.start + x.nr) (y.start + y.nr) - minUid x.start y.start).toNat < 2 ^ 32
    omega
  · unfold toInterval HalfOpen.join
    rw [HalfOpen.mk.injEq]
    refine ⟨hmin, ?_⟩
    rw [hsub, hmin]
    exact Nat.add_sub_cancel' hlt.le

/-! ## Coalescing -/

/-- The uids of entries. -/
def uids (entries : List UidRangeEntry) : Set Nat := HalfOpen.union (entries.map toInterval)

/-- The entries are not empty and do not wrap; they are sorted, and between two of them there is always a uid that is in
    none. -/
structure Canonical (entries : List UidRangeEntry) : Prop where
  valid : ∀ x ∈ entries, Valid x
  before : (entries.map toInterval).Pairwise HalfOpen.Before

/-- The inner loop joins an entry with those behind it that it touches. -/
theorem coalesceInner_eq (before : List UidRangeEntry) {rest : List UidRangeEntry} {x : UidRangeEntry} (hx : Valid x)
    (hrest : ∀ y ∈ rest, Valid y) :
    ∃ x' rest', coalesceInner before.length (before.length + 1) (before ++ x :: rest) = some (before ++ x' :: rest') ∧
      Valid x' ∧ (∀ y ∈ rest', Valid y) ∧ rest'.length ≤ rest.length ∧
      HalfOpen.coalesce (toInterval x) (rest.map toInterval) =
        toInterval x' :: HalfOpen.coalesceAll (rest'.map toInterval) := by
  induction rest generalizing x with
  | nil =>
    refine ⟨x, [], ?_, hx, hrest, Nat.le_refl _, rfl⟩
    have hnone : (before ++ [x])[before.length + 1]? = none := getElem?_eq_none (by simp)
    unfold coalesceInner
    split
    · rename_i hj
      rw [hnone] at hj
      cases hj
    · rfl
  | cons y l ih =>
    have hy := hrest y (.head _)
    have hl : ∀ y ∈ l, Valid y := fun z hz => hrest z (.tail _ hz)
    have hi : (before ++ x :: y :: l)[before.length]? = some x := by
      rw [getElem?_append_right (Nat.le_refl _), Nat.sub_self]
      rfl
    have hj : (before ++ x :: y :: l)[before.length + 1]? = some y := by
      rw [getElem?_append_right (Nat.le_add_right _ 1), Nat.add_sub_cancel_left]
      rfl
    unfold coalesceInner HalfOpen.coalesce
    split
    · rename_i x₀ y₀ hi' hj'
      obtain rfl : x = x₀ := Option.some.inj (hi.symm.trans hi')
      obtain rfl : y = y₀ := Option.some.inj (hj.symm.trans hj')
      rw [entryIntersect_eq hx hy]
      by_cases htouches : (toInterval x).Touches (toInterval y)
      · obtain ⟨z, hz, hvalid, hjoin⟩ := merge_eq hx hy
        rw [decide_eq_true htouches, hz]
        have hnext : ((before ++ x :: y :: l).set before.length z).eraseIdx (before.length + 1) = before ++ z :: l := by
          rw [set_append_right _ _ (Nat.le_refl _), Nat.sub_self,
            eraseIdx_append_of_length_le (Nat.le_add_right _ 1), Nat.add_sub_cancel_left]
          rfl
        obtain ⟨x', rest', hrun, hx', hrest', hlen, heq⟩ := ih hvalid hl
        refine ⟨x', rest', ?_, hx', hrest', Nat.le_succ_of_le hlen, ?_⟩
        · dsimp only
          rw [Nat.add_sub_cancel, hnext]
          exact hrun
        · show (if (toInterval x).Touches (toInterval y) then _ else _) = _
          rw [if_pos htouches, ← hjoin]
          exact heq
      · rw [decide_eq_false htouches]
        refine ⟨x, y :: l, rfl, hx, hrest, Nat.le_refl _, ?_⟩
        exact if_neg htouches
    · rename_i hnot
      exact absurd hj (hnot x y hi)

/-- The outer loop goes on behind the entries that are done. -/
theorem coalesceOuter_eq (before : List UidRangeEntry) {rest : List UidRangeEntry} (hrest : ∀ y ∈ rest, Valid y) :
    ∃ rest', coalesceOuter before.length (before ++ rest) = some (before ++ rest') ∧ (∀ y ∈ rest', Valid y) ∧
      rest'.map toInterval = HalfOpen.coalesceAll (rest.map toInterval) := by
  induction hn : rest.length using Nat.strong_induction_on generalizing before rest with
  | _ n ih =>
    unfold coalesceOuter
    cases rest with
    | nil =>
      refine ⟨[], ?_, hrest, rfl⟩
      rw [if_neg (by simp)]
    | cons x l =>
      rw [if_pos (by simp)]
      obtain ⟨x', rest', hrun, hx', hrest', hlen, heq⟩ :=
        coalesceInner_eq before (hrest x (.head _)) fun y hy => hrest y (.tail _ hy)
      have hless : rest'.length < n := by
        rw [length_cons] at hn
        omega
      obtain ⟨rest'', hrun', hrest'', heq'⟩ := ih rest'.length hless (before ++ [x']) hrest' rfl
      rw [length_append, length_singleton, append_assoc, append_assoc] at hrun'
      refine ⟨x' :: rest'', ?_, forall_mem_cons.mpr ⟨hx', hrest''⟩, ?_⟩
      · split
        · rename_i hnone
          rw [hrun] at hnone
          cases hnone
        · rename_i entries hsome
          rw [hrun] at hsome
          obtain rfl := Option.some.inj hsome
          exact hrun'
      · rw [map_cons, heq']
        exact heq.symm

instance : Std.TransCmp entryCompare :=
  inferInstanceAs (Std.TransCmp (compareLex (compareOn UidRangeEntry.start) (compareOn UidRangeEntry.nr)))

theorem entryCompare_consistent (entries : List UidRangeEntry) : Consistent entryCompare entries where
  swap _ _ _ _ := Std.OrientedCmp.eq_swap
  trans _ _ _ _ _ _ hab hbc :=
    Ordering.isLE_iff_ne_gt.mp
      (Std.TransCmp.isLE_trans (Ordering.isLE_iff_ne_gt.mpr hab) (Ordering.isLE_iff_ne_gt.mpr hbc))

theorem start_le_of_compare {a b : UidRangeEntry} (h : entryCompare a b ≠ .gt) : (toInterval a).lo ≤ (toInterval b).lo := by
  have hle : (compare a.start b.start).isLE = true := by
    rw [Ordering.isLE_iff_ne_gt]
    intro hgt
    refine h ?_
    show (compare a.start b.start).then _ = .gt
    rw [hgt]
    rfl
  exact UInt32.le_iff_toNat_le.mp (Std.isLE_compare.mp hle)

/-- Coalescing keeps the uids. -/
theorem coalesce_eq (q : Sorter) {entries : List UidRangeEntry} (h : ∀ x ∈ entries, Valid x) :
    ∃ entries', coalesce q entries = some entries' ∧ Canonical entries' ∧ uids entries' = uids entries := by
  unfold coalesce
  by_cases hempty : entries.length ≤ 0
  · obtain rfl := length_eq_zero_iff.mp (Nat.le_zero.mp hempty)
    exact ⟨[], if_pos hempty, ⟨h, .nil⟩, rfl⟩
  · rw [if_neg hempty]
    have hperm := q.perm entryCompare entries
    have hvalid : ∀ y ∈ q.sort entryCompare entries, Valid y := fun y hy => h y (hperm.mem_iff.mp hy)
    obtain ⟨entries', hrun, hvalid', heq⟩ := coalesceOuter_eq [] hvalid
    have hsorted : ((q.sort entryCompare entries).map toInterval).Pairwise fun x y => x.lo ≤ y.lo := by
      refine pairwise_map.mpr ((q.ordered (entryCompare_consistent entries)).imp ?_)
      exact start_le_of_compare
    refine ⟨entries', hrun, ⟨hvalid', ?_⟩, ?_⟩
    · rw [heq]
      exact HalfOpen.coalesceAll_pairwise hsorted
    · unfold uids
      rw [heq, HalfOpen.union_coalesceAll]
      exact HalfOpen.union_perm (hperm.map toInterval)

/-! ## Additions -/

/-- A call of `uid_range_add_internal`. -/
structure Call where
  alloc : Bool
  start : UInt32
  nr : UInt32
  coalesced : Bool

/-- The range after these calls, and those of them that succeeded. -/
def addCalls (q : Sorter) : Option (List UidRangeEntry) → List Call → Option (List Call × Option (List UidRangeEntry))
  | range, [] => some ([], range)
  | range, c :: calls => do
    let (r, range) ← addInternal q c.alloc range c.start c.nr c.coalesced
    let (accepted, range) ← addCalls q range calls
    return (if r = .ok () then c :: accepted else accepted, range)

/-- The call adds its range: there is nothing to add, or the range has a last uid and there is memory for it. -/
def Call.fits (c : Call) : Bool := c.nr = 0 || (decide (c.start.toNat + c.nr.toNat < 2 ^ 32) && c.alloc)

/-- The uids that these calls ask for. -/
def requested (calls : List Call) : Set Nat :=
  {uid | ∃ c ∈ calls, uid ∈ Set.Ico c.start.toNat (c.start.toNat + c.nr.toNat)}

/-- These uids are added to a range; if it is coalesced, it stays canonical. -/
structure Adds (range : Option (List UidRangeEntry)) (added : Set Nat) (coalesced : Prop)
    (range' : Option (List UidRangeEntry)) : Prop where
  valid : ∀ x ∈ range'.getD [], Valid x
  uids : uids (range'.getD []) = UidRange.uids (range.getD []) ∪ added
  canonical : coalesced → Canonical (range.getD []) → Canonical (range'.getD [])

theorem Adds.empty {range : Option (List UidRangeEntry)} (h : ∀ x ∈ range.getD [], Valid x) (coalesced : Prop) :
    Adds range ∅ coalesced range := ⟨h, (Set.union_empty _).symm, fun _ hcanonical => hcanonical⟩

/-- The check against an overflow. -/
theorem wraps_iff (start nr : UInt32) : start > uint32Max - nr ↔ 2 ^ 32 ≤ start.toNat + nr.toNat := by
  have hlt := nr.toNat_lt
  have hmax : uint32Max.toNat = 2 ^ 32 - 1 := rfl
  have hsub : (uint32Max - nr).toNat = uint32Max.toNat - nr.toNat :=
    UInt32.toNat_sub_of_le _ _ (UInt32.le_iff_toNat_le.mpr (by omega))
  rw [gt_iff_lt, UInt32.lt_iff_toNat_lt, hsub]
  omega

theorem valid_of_fits {start nr : UInt32} (hnr : ¬ nr ≤ 0) (hstart : ¬ start > uint32Max - nr) : Valid ⟨start, nr⟩ :=
  ⟨UInt32.lt_iff_toNat_lt.mp (UInt32.not_le.mp hnr), Nat.not_le.mp (hstart ∘ (wraps_iff start nr).mpr)⟩

theorem uids_append_singleton (entries : List UidRangeEntry) (x : UidRangeEntry) :
    uids (entries ++ [x]) = uids entries ∪ (toInterval x).toSet := by
  unfold uids
  rw [map_append, HalfOpen.union_append]
  refine congrArg _ ?_
  ext uid
  simp [HalfOpen.union]

/-- An addition succeeds, or changes nothing. -/
theorem addInternal_adds (q : Sorter) (alloc : Bool) (range : Option (List UidRangeEntry))
    (h : ∀ x ∈ range.getD [], Valid x) (start nr : UInt32) (coalesced : Bool) :
    ∃ r range', addInternal q alloc range start nr coalesced = some (r, range') ∧
      Adds range (if r = .ok () then Set.Ico start.toNat (start.toNat + nr.toNat) else ∅) (coalesced = true) range' := by
  unfold addInternal
  by_cases hnr : nr ≤ 0
  · refine ⟨.ok (), range, if_pos hnr, ?_⟩
    have hzero : nr.toNat = 0 := Nat.le_zero.mp (UInt32.le_iff_toNat_le.mp hnr)
    rw [if_pos rfl, hzero, Nat.add_zero, Set.Ico_self]
    exact Adds.empty h _
  · rw [if_neg hnr]
    by_cases hstart : start > uint32Max - nr
    · refine ⟨.error ERANGE, range, if_pos hstart, ?_⟩
      exact Adds.empty h _
    · rw [if_neg hstart]
      cases alloc with
      | false =>
        refine ⟨.error ENOMEM, range, rfl, ?_⟩
        exact Adds.empty h _
      | true =>
        have hnew := valid_of_fits hnr hstart
        have hvalid : ∀ x ∈ range.getD [] ++ [⟨start, nr⟩], Valid x :=
          forall_mem_append.mpr ⟨h, forall_mem_singleton.mpr hnew⟩
        have huids : uids (range.getD [] ++ [⟨start, nr⟩]) =
            uids (range.getD []) ∪ Set.Ico start.toNat (start.toNat + nr.toNat) := uids_append_singleton _ _
        cases coalesced with
        | false => exact ⟨.ok (), _, rfl, hvalid, by rw [if_pos rfl]; exact huids, nofun⟩
        | true =>
          obtain ⟨entries, hrun, hcanonical, heq⟩ := coalesce_eq q hvalid
          refine ⟨.ok (), some entries, ?_, hcanonical.valid, ?_, fun _ _ => hcanonical⟩
          · dsimp only
            rw [if_pos rfl, hrun]
            rfl
          · exact heq.trans huids

theorem addInternal_ok_iff {q : Sorter} {c : Call} {range range' : Option (List UidRangeEntry)} {r : Result Unit}
    (hrun : addInternal q c.alloc range c.start c.nr c.coalesced = some (r, range')) : r = .ok () ↔ c.fits = true := by
  have hzero : c.nr ≤ 0 ↔ c.nr = 0 := by rw [UInt32.le_iff_toNat_le, ← UInt32.toNat_inj, UInt32.toNat_zero]; omega
  unfold addInternal at hrun
  rw [Call.fits, Bool.or_eq_true, Bool.and_eq_true, decide_eq_true_iff, decide_eq_true_iff, ← Nat.not_le, ← wraps_iff,
    ← hzero]
  split_ifs at hrun with hnr hstart halloc
  · cases hrun
    exact iff_of_true rfl (.inl hnr)
  · cases hrun
    exact iff_of_false nofun (not_or_intro hnr fun h => h.1 hstart)
  · cases hrun
    exact iff_of_false nofun (not_or_intro hnr fun h => by simp [h.2] at halloc)
  all_goals
    obtain ⟨entries, -, heq⟩ := Option.map_eq_some_iff.mp hrun
    cases heq
    exact iff_of_true rfl (.inr ⟨hstart, by simpa using halloc⟩)

/-- The calls that succeed are those whose range fits. -/
theorem accepted_eq {q : Sorter} {range range' : Option (List UidRangeEntry)} {calls accepted : List Call}
    (hrun : addCalls q range calls = some (accepted, range')) : accepted = calls.filter Call.fits := by
  induction calls generalizing range accepted with
  | nil =>
    cases hrun
    rfl
  | cons c calls ih =>
    obtain ⟨⟨r, range₁⟩, hfirst, hrest⟩ := Option.bind_eq_some_iff.mp hrun
    obtain ⟨⟨accepted', range₂⟩, hcalls, heq⟩ := Option.bind_eq_some_iff.mp hrest
    cases heq
    rw [filter_cons, ih hcalls]
    exact if_congr (addInternal_ok_iff hfirst) rfl rfl

theorem requested_cons (c : Call) (calls : List Call) :
    requested (c :: calls) = Set.Ico c.start.toNat (c.start.toNat + c.nr.toNat) ∪ requested calls := by
  ext uid
  unfold requested
  simp only [Set.mem_ofPred_eq, mem_cons, exists_eq_or_imp, Set.mem_union]

theorem addCalls_adds (q : Sorter) (range : Option (List UidRangeEntry)) (h : ∀ x ∈ range.getD [], Valid x)
    (calls : List Call) :
    ∃ accepted range', addCalls q range calls = some (accepted, range') ∧
      Adds range (requested accepted) (∀ c ∈ calls, c.coalesced = true) range' := by
  induction calls generalizing range with
  | nil =>
    refine ⟨[], range, rfl, ?_⟩
    have hnone : requested [] = ∅ := by
      ext uid
      simp [requested]
    rw [hnone]
    exact Adds.empty h _
  | cons c calls ih =>
    obtain ⟨r, range₁, hrun, hadds⟩ := addInternal_adds q c.alloc range h c.start c.nr c.coalesced
    obtain ⟨accepted, range₂, hrun', hadds'⟩ := ih _ hadds.valid
    refine ⟨if r = .ok () then c :: accepted else accepted, range₂, ?_, hadds'.valid, ?_, fun hall hcanonical => ?_⟩
    · unfold addCalls
      rw [hrun]
      show (do let (accepted, range) ← addCalls q range₁ calls; return _) = _
      rw [hrun']
      rfl
    · rw [hadds'.uids, hadds.uids]
      by_cases hok : r = .ok ()
      · rw [if_pos hok, if_pos hok, requested_cons, Set.union_assoc]
      · rw [if_neg hok, if_neg hok, Set.union_empty]
    · obtain ⟨hc, hcalls⟩ := forall_mem_cons.mp hall
      exact hadds'.canonical hcalls (hadds.canonical hc hcanonical)

/-! ## Coverage -/

/-- The uids from `start` on, `nr` in number. -/
def Covers (S : Set Nat) (start nr : UInt32) : Prop :=
  ∀ uid, start.toNat ≤ uid → uid < start.toNat + nr.toNat → uid ∈ S

theorem coversLoop_eq {entries : List UidRangeEntry} (h : ∀ x ∈ entries, Valid x) {start nr : UInt32}
    (hfits : start.toNat + nr.toNat < 2 ^ 32) :
    ∃ b, coversLoop start nr entries = some b ∧
      (b = true ↔ ∃ x ∈ entries.map toInterval, x.lo ≤ start.toNat ∧ start.toNat + nr.toNat ≤ x.hi) := by
  induction entries with
  | nil => exact ⟨false, rfl, by simp⟩
  | cons i entries ih =>
    obtain ⟨hi, hentries⟩ := forall_mem_cons.mp h
    obtain ⟨b, hrun, hb⟩ := ih hentries
    unfold coversLoop
    rw [(add_of_lt hfits).1, hi.stop.1, map_cons]
    simp only [mem_cons, exists_eq_or_imp]
    have hhit : (start ≥ i.start && start + nr ≤ i.start + i.nr) = true ↔
        (toInterval i).lo ≤ start.toNat ∧ start.toNat + nr.toNat ≤ (toInterval i).hi := by
      rw [Bool.and_eq_true, decide_eq_true_iff, decide_eq_true_iff, UInt32.le_iff_toNat_le, (add_of_lt hfits).2,
        hi.stop.2]
      exact Iff.rfl
    by_cases hcovered : (start ≥ i.start && start + nr ≤ i.start + i.nr) = true
    · exact ⟨true, if_pos hcovered, iff_of_true rfl (.inl (hhit.mp hcovered))⟩
    · refine ⟨b, (if_neg hcovered).trans hrun, hb.trans ?_⟩
      exact (or_iff_right fun hboth => hcovered (hhit.mpr hboth)).symm

theorem lt_of_mem_uids {entries : List UidRangeEntry} (h : ∀ x ∈ entries, Valid x) {uid : Nat} (huid : uid ∈ uids entries) :
    uid < 2 ^ 32 - 1 := by
  obtain ⟨i, hi, -, hlt⟩ := huid
  obtain ⟨x, hx, rfl⟩ := mem_map.mp hi
  exact Nat.lt_of_lt_of_le hlt (Nat.le_pred_of_lt (h x hx).fits)

theorem lt_of_wraps {start nr : UInt32} (h : start > uint32Max - nr) : 2 ^ 32 - 1 < start.toNat + nr.toNat := by
  have hle : nr ≤ uint32Max := UInt32.le_iff_toNat_le.mpr (Nat.le_of_lt_succ nr.toNat_lt)
  have hlt := UInt32.lt_iff_toNat_lt.mp h
  rw [UInt32.toNat_sub_of_le _ _ hle] at hlt
  have hmax : uint32Max.toNat = 2 ^ 32 - 1 := rfl
  omega

/-- A range is covered exactly if each of its uids is in one of the entries. -/
theorem covers_eq {range : Option (List UidRangeEntry)} (h : Canonical (range.getD [])) (start nr : UInt32) :
    ∃ b, covers range start nr = some b ∧ (b = true ↔ Covers (uids (range.getD [])) start nr) := by
  unfold covers
  by_cases hzero : nr = 0
  · refine ⟨true, if_pos hzero, iff_of_true rfl fun uid hlo hhi => ?_⟩
    rw [hzero] at hhi
    exact absurd hlo (Nat.not_le.mpr hhi)
  have hpos : 0 < nr.toNat := Nat.pos_of_ne_zero fun h => hzero (UInt32.toNat_inj.mp h)
  have hnr : ¬ nr ≤ 0 := fun h => absurd hpos (Nat.not_lt.mpr (UInt32.le_iff_toNat_le.mp h))
  rw [if_neg hzero]
  by_cases hstart : start > uint32Max - nr
  · -- The last one of these uids is none.
    refine ⟨false, if_pos hstart, iff_of_false (by decide) fun hcovers => ?_⟩
    have hlast := hcovers (2 ^ 32 - 1) (Nat.le_of_lt_succ start.toNat_lt) (lt_of_wraps hstart)
    exact absurd (lt_of_mem_uids h.valid hlast) (Nat.lt_irrefl _)
  · rw [if_neg hstart]
    have hfits := (valid_of_fits hnr hstart).fits
    have hsub : Covers (uids (range.getD [])) start nr ↔
        Set.Ico start.toNat (start.toNat + nr.toNat) ⊆ uids (range.getD []) :=
      ⟨fun hcovers uid huid => hcovers uid huid.1 huid.2, fun hsub uid hlo hhi => hsub ⟨hlo, hhi⟩⟩
    have hone := hsub.trans (HalfOpen.subset_union_iff h.before (Nat.lt_add_of_pos_right hpos))
    cases range with
    | none => exact ⟨false, rfl, by rw [hone]; simp⟩
    | some entries =>
      obtain ⟨b, hrun, hb⟩ := coversLoop_eq h.valid hfits
      exact ⟨b, hrun, hb.trans hone.symm⟩

/-! ## Runs -/

/-- The entries are what these uids are as a set, and coverage is told of them exactly. -/
structure Faithful (range : Option (List UidRangeEntry)) (S : Set Nat) : Prop where
  canonical : Canonical (range.getD [])
  uids : UidRange.uids (range.getD []) = S
  covers : ∀ start nr, ∃ b, covers range start nr = some b ∧ (b = true ↔ Covers S start nr)

theorem Faithful.of_canonical (range : Option (List UidRangeEntry)) {S : Set Nat} (h : Canonical (range.getD []))
    (hS : UidRange.uids (range.getD []) = S) : Faithful range S where
  canonical := h
  uids := hS
  covers start nr := by
    rw [← hS]
    exact covers_eq h start nr

/-- The uids that the lines of a file ask for. -/
def requestedLines (mode : UsernsMode) (lines : List (Result UidMapLine × Bool)) : Set Nat :=
  {uid | ∃ line alloc, (.ok line, alloc) ∈ lines ∧
    uid ∈ Set.Ico (line.start mode).toNat ((line.start mode).toNat + line.range.toNat)}

theorem requestedLines_cons (mode : UsernsMode) (line : UidMapLine) (alloc : Bool)
    (lines : List (Result UidMapLine × Bool)) :
    requestedLines mode ((.ok line, alloc) :: lines) =
      Set.Ico (line.start mode).toNat ((line.start mode).toNat + line.range.toNat) ∪ requestedLines mode lines := by
  ext uid
  unfold requestedLines
  simp only [Set.mem_ofPred_eq, mem_cons, Prod.mk.injEq, Except.ok.injEq, Set.mem_union]
  constructor
  · rintro ⟨line', alloc', ⟨rfl, rfl⟩ | hmem, huid⟩
    · exact .inl huid
    · exact .inr ⟨line', alloc', hmem, huid⟩
  · rintro (huid | ⟨line', alloc', hmem, huid⟩)
    · exact ⟨line, alloc, .inl ⟨rfl, rfl⟩, huid⟩
    · exact ⟨line', alloc', .inr hmem, huid⟩

/-- A file is loaded with all uids that its lines ask for, or not at all. -/
theorem loadUsernsLoop_ends (q : Sorter) (mode : UsernsMode) (range : List UidRangeEntry) (h : ∀ x ∈ range, Valid x)
    (lines : List (Result UidMapLine × Bool)) :
    ∃ r, loadUsernsLoop q mode range lines = some r ∧
      ∀ entries, r = .ok entries → Canonical entries ∧ uids entries = uids range ∪ requestedLines mode lines := by
  induction lines generalizing range with
  | nil =>
    obtain ⟨entries, hrun, hcanonical, huids⟩ := coalesce_eq q h
    refine ⟨.ok entries, ?_, ?_⟩
    · unfold loadUsernsLoop
      rw [hrun]
      rfl
    · rintro _ ⟨⟩
      have hnone : requestedLines mode [] = ∅ := by
        ext uid
        simp [requestedLines]
      rw [hnone, Set.union_empty]
      exact ⟨hcanonical, huids⟩
  | cons l lines ih =>
    obtain ⟨_ | line, alloc⟩ := l
    · exact ⟨_, rfl, nofun⟩
    · obtain ⟨r, range', hrun, hadds⟩ := addInternal_adds q alloc (some range) h (line.start mode) line.range false
      unfold loadUsernsLoop
      rw [hrun]
      cases r with
      | error e => exact ⟨_, rfl, nofun⟩
      | ok _ =>
        obtain ⟨r, hrun', hr⟩ := ih _ hadds.valid
        refine ⟨r, hrun', fun entries hentries => ?_⟩
        obtain ⟨hcanonical, huids⟩ := hr entries hentries
        refine ⟨hcanonical, ?_⟩
        rw [huids, hadds.uids, if_pos rfl, requestedLines_cons, Set.union_assoc]
        rfl

/-- Ranges are sets of uids.  No addition wraps; if every call coalesces, or the range is coalesced once at the end, the
    entries are sorted with something between them, have exactly the uids of the calls that succeeded (those whose range
    fits, `Call.fits`), and tell exactly which ranges they cover (`Faithful`).  The same holds for what is loaded from a
    file. -/
theorem uidRange_faithful (q : Sorter) :
    (∀ calls : List Call, ∃ accepted range, addCalls q none calls = some (accepted, range) ∧
      accepted = calls.filter Call.fits ∧
      ((∀ c ∈ calls, c.coalesced = true) → Faithful range (requested accepted)) ∧
      ∃ entries, coalesce q (range.getD []) = some entries ∧ Faithful (some entries) (requested accepted)) ∧
    ∀ mode lines, ∃ r, loadUsernsLoop q mode [] lines = some r ∧
      ∀ entries, r = .ok entries → Faithful (some entries) (requestedLines mode lines) := by
  have hnone : uids [] = ∅ := by
    ext uid
    simp [uids, HalfOpen.union]
  refine ⟨fun calls => ?_, fun mode lines => ?_⟩
  · obtain ⟨accepted, range, hrun, hadds⟩ := addCalls_adds q none nofun calls
    have huids : uids (range.getD []) = requested accepted := by
      rw [hadds.uids]
      show uids [] ∪ _ = _
      rw [hnone, Set.empty_union]
    obtain ⟨entries, hcoalesce, hcanonical, heq⟩ := coalesce_eq q hadds.valid
    refine ⟨accepted, range, hrun, accepted_eq hrun, fun hall => ?_, entries, hcoalesce, ?_⟩
    · exact .of_canonical _ (hadds.canonical hall ⟨nofun, .nil⟩) huids
    · exact .of_canonical (some entries) hcanonical (heq.trans huids)
  · obtain ⟨r, hrun, hr⟩ := loadUsernsLoop_ends q mode [] nofun lines
    refine ⟨r, hrun, fun entries hentries => ?_⟩
    obtain ⟨hcanonical, huids⟩ := hr entries hentries
    refine .of_canonical (some entries) hcanonical ?_
    rw [hnone, Set.empty_union] at huids
    exact huids

/-- Neighbours become one range; what would go beyond the last uid is refused. -/
theorem uidRange_faithful_neighbours :
    let calls : List Call := [⟨true, 15, 5, true⟩, ⟨true, 4294967295, 1, true⟩, ⟨true, 10, 5, true⟩]
    ∃ range, addCalls .insertion none calls = some ([⟨true, 15, 5, true⟩, ⟨true, 10, 5, true⟩], range) ∧
      Faithful range (Set.Ico 10 20) ∧ covers range 12 8 = some true ∧ covers range 12 9 = some false := by
  intro calls
  obtain ⟨accepted, range, hrun, haccepted, hall, -⟩ := (uidRange_faithful .insertion).1 calls
  obtain rfl : accepted = [⟨true, 15, 5, true⟩, ⟨true, 10, 5, true⟩] := haccepted
  have huids : requested [⟨true, 15, 5, true⟩, ⟨true, 10, 5, true⟩] = Set.Ico 10 20 := by
    ext uid
    simp [requested]
    omega
  have hrange : Faithful range (Set.Ico 10 20) := huids ▸ hall (by decide)
  obtain ⟨b, hb, hcovers⟩ := hrange.covers 12 8
  obtain ⟨b', hb', hcovers'⟩ := hrange.covers 12 9
  refine ⟨range, hrun, hrange, ?_, ?_⟩
  · rw [hb, hcovers.mpr fun uid hlo hhi => ⟨Nat.le_trans (by decide) hlo, hhi⟩]
  · cases b' with
    | false => exact hb'
    | true => exact absurd (hcovers'.mp rfl 20 (by decide) (by decide)) (by simp)

end UidRange

end Elogind
