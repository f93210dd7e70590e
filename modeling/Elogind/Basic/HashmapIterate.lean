/-
  Elogind.Basic.HashmapIterate

  Iterating over a hashmap (hashmap_iterate_entry), in the order of the list or in the
  order of the buckets.

  `Pending h i rest` says of an iterator that the entries in the buckets `rest` are the
  ones it will still come to.  It does not have to point at the first of them: after an
  entry was removed, the next one may be a bucket further back.
-/

import Elogind.Basic.HashmapSpec

namespace Elogind

open Lib Lib.RobinHood List

namespace HashmapBase

variable {P HK : Type} {h h' : HashmapBase P HK} {l : List Nat} {disp : Nat → Option Nat}

/-! ## The order of iteration -/

/-- What `_hashmap_iterate` gives for an entry: its key and its value. -/
def item (h : HashmapBase P HK) (idx : Nat) : P × P := ((h.bucket idx).key, h.entryValue idx)

theorem item_eq (h : HashmapBase P HK) (idx : Nat) : h.item idx = h.type.itemOf (h.entry idx) := by
  rfl

/-- The buckets in use, in the order of iteration. -/
def iterationOrder (h : HashmapBase P HK) (l : List Nat) : List Nat :=
  if h.type = .ordered then l else (List.range h.nBuckets).filter fun i => decide (i ∈ l)

/-- The bucket that an iterator goes to after `idx`. -/
def successor (h : HashmapBase P HK) (idx : Nat) : Nat :=
  if h.type = .ordered then (h.bucket idx).iterateNext else h.skipFreeBuckets (idx + 1)

/-- The bucket that an iterator looks at if the expected entry is not where it was. -/
def predecessor (h : HashmapBase P HK) (idx : Nat) : Nat :=
  if h.type = .ordered then h.prevIdx idx else idx - 1

theorem iterationOrder_of_ordered (htype : h.type = .ordered) : h.iterationOrder l = l := if_pos htype

theorem iterationOrder_of_ne (htype : h.type ≠ .ordered) :
    h.iterationOrder l = (List.range h.nBuckets).filter fun i => decide (i ∈ l) := if_neg htype

theorem sorted_iterationOrder (htype : h.type ≠ .ordered) : (h.iterationOrder l).Pairwise (· < ·) := by
  rw [iterationOrder_of_ne htype]
  exact pairwise_lt_range.filter _

theorem skipFreeBuckets_of_lt {p : Nat} (hp : p < h.nBuckets) :
    h.skipFreeBuckets p = if h.dib p ≠ dibRawFree then p else h.skipFreeBuckets (p + 1) := by
  have hsucc : h.nBuckets - p = h.nBuckets - (p + 1) + 1 := by omega
  unfold skipFreeBuckets
  rw [hsucc, skipFreeLoop]

theorem skipFreeBuckets_of_le {p : Nat} (hp : h.nBuckets ≤ p) : h.skipFreeBuckets p = idxNil := by
  unfold skipFreeBuckets
  rw [Nat.sub_eq_zero_of_le hp, skipFreeLoop]

namespace Stored

theorem mem_iterationOrder (hs : Stored h l disp) {i : Nat} : i ∈ h.iterationOrder l ↔ i ∈ l := by
  unfold iterationOrder
  split
  · rfl
  · rw [mem_filter, mem_range, decide_eq_true_iff]
    exact ⟨And.right, fun hi => ⟨hs.inside i hi, hi⟩⟩

theorem iterationOrder_perm (hs : Stored h l disp) : (h.iterationOrder l).Perm l := by
  have hnodup : (h.iterationOrder l).Nodup := by
    unfold iterationOrder
    split
    · exact hs.table.nodup
    · exact nodup_range.filter _
  rw [perm_ext_iff_of_nodup hnodup hs.table.nodup]
  exact fun i => hs.mem_iterationOrder

theorem dib_eq_free_iff (hs : Stored h l disp) {i : Nat} (hi : i < h.nBuckets) :
    h.dib i = dibRawFree ↔ i ∉ l := by
  constructor
  · intro hfree hmem
    obtain ⟨d, hd⟩ := hs.exists_disp hmem
    have hused := hs.table.dib_lt hd
    rw [hfree] at hused
    exact absurd hused (by decide)
  · intro hmem
    cases hd : disp i with
    | none => exact (hs.stops i hi hd).1
    | some d => exact absurd (hs.table.home i d hd).2.1 hmem

/-- `skip_free_buckets` gives the first of the buckets in use from `p` on. -/
theorem skipFreeBuckets_eq (hs : Stored h l disp) {p : Nat} {b : List Nat} (hsorted : b.Pairwise (· < ·))
    (hmem : ∀ i, i ∈ b ↔ i ∈ l ∧ p ≤ i) : h.skipFreeBuckets p = b.head?.getD idxNil := by
  by_cases hp : p < h.nBuckets
  · rw [skipFreeBuckets_of_lt hp]
    by_cases hfree : h.dib p = dibRawFree
    · rw [if_neg (not_not.mpr hfree)]
      have hout := (hs.dib_eq_free_iff hp).mp hfree
      refine hs.skipFreeBuckets_eq hsorted fun i => ?_
      rw [hmem]
      refine and_congr_right fun hi => ?_
      have hne : i ≠ p := fun heq => hout (heq ▸ hi)
      omega
    · rw [if_pos hfree]
      have hin : p ∈ l := by
        by_contra hout
        exact hfree ((hs.dib_eq_free_iff hp).mpr hout)
      cases b with
      | nil => exact absurd ((hmem p).mpr ⟨hin, Nat.le_refl p⟩) not_mem_nil
      | cons x b =>
        show p = x
        have hx := ((hmem x).mp mem_cons_self).2
        rcases mem_cons.mp ((hmem p).mpr ⟨hin, Nat.le_refl p⟩) with heq | hlater
        · exact heq
        · have hlt := (pairwise_cons.mp hsorted).1 p hlater
          omega
  · rw [skipFreeBuckets_of_le (Nat.not_lt.mp hp)]
    cases b with
    | nil => rfl
    | cons x b =>
      obtain ⟨hx, hle⟩ := (hmem x).mp mem_cons_self
      have hlt := hs.inside x hx
      omega
termination_by h.nBuckets - p

/-- The buckets behind one of them, in the order of the buckets. -/
theorem mem_behind (hs : Stored h l disp) (htype : h.type ≠ .ordered) {a b : List Nat} {x : Nat}
    (horder : h.iterationOrder l = a ++ x :: b) (i : Nat) : i ∈ b ↔ i ∈ l ∧ x + 1 ≤ i := by
  have hsorted := sorted_iterationOrder (l := l) htype
  rw [horder] at hsorted
  obtain ⟨-, hxb, hab⟩ := pairwise_append.mp hsorted
  have hb := (pairwise_cons.mp hxb).1
  constructor
  · intro hi
    refine ⟨hs.mem_iterationOrder.mp (by rw [horder]; simp [hi]), hb i hi⟩
  · rintro ⟨hi, hlt⟩
    have hmem := hs.mem_iterationOrder.mpr hi
    rw [horder] at hmem
    rcases mem_append.mp hmem with hia | hix
    · have hlt' := hab i hia x mem_cons_self
      omega
    · rcases mem_cons.mp hix with rfl | hib
      · omega
      · exact hib

/-- The iterator goes along the order. -/
theorem successor_eq (hs : Stored h l disp) {a b : List Nat} {x : Nat}
    (horder : h.iterationOrder l = a ++ x :: b) : h.successor x = b.head?.getD idxNil := by
  unfold successor
  by_cases htype : h.type = .ordered
  · rw [if_pos htype]
    rw [iterationOrder_of_ordered htype] at horder
    exact (hs.table.threaded htype).next a x b horder
  · rw [if_neg htype]
    have hsorted := sorted_iterationOrder (l := l) htype
    rw [horder] at hsorted
    exact hs.skipFreeBuckets_eq (pairwise_cons.mp (pairwise_append.mp hsorted).2.1).2
      (hs.mem_behind htype horder)

end Stored

/-! ## One step -/

section Step

variable {i : Iterator P} {r : Nat} {rest : List Nat}

/-- The iterator will read bucket `r`. -/
structure Reads (h : HashmapBase P HK) (i : Iterator P) (r : Nat) : Prop where
  nil : i.idx ≠ idxNil
  first : i.idx ≠ idxFirst
  pos : h.type ≠ .ordered → 0 < i.idx
  key : (h.bucket r).key = i.nextKey
  read : ((h.bucket i.idx).key = i.nextKey ∧ r = i.idx) ∨
    ((h.bucket i.idx).key ≠ i.nextKey ∧ r = h.predecessor i.idx)
  inside : r < h.nBuckets

/-- What the iterator will still come to.  A bucket may be read in place of another one, if
    nothing depends on which of the two it is. -/
inductive Pending (h : HashmapBase P HK) (i : Iterator P) : List Nat → Prop where
  | done (hidx : i.idx = idxNil) : Pending h i []
  | next {x r : Nat} {rest : List Nat} (hreads : Reads h i r) (hitem : h.item r = h.item x)
      (hnext : h.successor r = h.successor x) : Pending h i (x :: rest)

/-- An iterator that points at the next entry. -/
inductive Fresh (h : HashmapBase P HK) (i : Iterator P) : List Nat → Prop where
  | done (hidx : i.idx = idxNil) : Fresh h i []
  | next {y : Nat} {rest : List Nat} (hidx : i.idx = y) (hkey : i.nextKey = (h.bucket y).key)
      (hpos : h.type ≠ .ordered → 0 < y) : Fresh h i (y :: rest)

/-- Where the iterator is after it has read bucket `r`. -/
def advanced (h : HashmapBase P HK) (i : Iterator P) (r : Nat) : Iterator P :=
  if h.successor r ≠ idxNil then { idx := h.successor r, nextKey := (h.bucket (h.successor r)).key }
  else { i with idx := idxNil }

theorem step_of_ordered (htype : h.type = .ordered) (i : Iterator P) (r : Nat) :
    h.stepInInsertionOrder i r = (h.advanced i r, r) := by
  have hnext : h.successor r = (h.bucket r).iterateNext := if_pos htype
  unfold stepInInsertionOrder advanced
  rw [hnext]
  split <;> rfl

theorem step_of_ne (htype : h.type ≠ .ordered) (i : Iterator P) (r : Nat) :
    h.stepInInternalOrder i r = (h.advanced i r, r) := by
  have hnext : h.successor r = h.skipFreeBuckets (r + 1) := if_neg htype
  unfold stepInInternalOrder advanced
  rw [hnext]
  dsimp only
  split <;> rfl

theorem Reads.hashmapIterateEntry [DecidableEq P] (hr : Reads h i r) :
    h.hashmapIterateEntry i = some (h, h.advanced i r, r) := by
  have hread : ∀ p, p = h.predecessor i.idx →
      (if (h.bucket i.idx).key ≠ i.nextKey then p else i.idx) = r := by
    rintro p rfl
    rcases hr.read with ⟨hkey, rfl⟩ | ⟨hkey, rfl⟩
    · exact if_neg (not_not.mpr hkey)
    · exact if_pos hkey
  unfold HashmapBase.hashmapIterateEntry
  by_cases htype : h.type = .ordered
  · have hprev : h.predecessor i.idx = h.prevIdx i.idx := if_pos htype
    rw [if_pos htype]
    unfold hashmapIterateInInsertionOrder
    rw [if_neg (by rintro (hnil | ⟨hfirst, -⟩); exacts [hr.nil hnil, hr.first hfirst]), if_neg hr.first]
    rw [hread _ hprev.symm, if_pos hr.key, step_of_ordered htype]
    rfl
  · have hprev : h.predecessor i.idx = i.idx - 1 := if_neg htype
    rw [if_neg htype]
    unfold hashmapIterateInInternalOrder
    rw [if_neg hr.nil, if_neg hr.first, if_neg (Nat.ne_of_gt (hr.pos htype))]
    rw [hread _ hprev.symm, if_pos hr.key, step_of_ne htype]

namespace Stored

theorem ne_idxFirst (hs : Stored h l disp) {x : Nat} (hx : x ∈ l) : x ≠ idxFirst := by
  have hlt := hs.table.lt_idxPut (hs.inside x hx)
  unfold idxPut at hlt
  unfold idxFirst
  omega

theorem ne_idxNil (hs : Stored h l disp) {x : Nat} (hx : x ∈ l) : x ≠ idxNil :=
  fun heq => hs.table.idxNil_not_mem (heq ▸ hx)

/-- The iterator goes on behind the bucket that it has read. -/
theorem fresh_advanced (hs : Stored h l disp) {a : List Nat} {x : Nat}
    (horder : h.iterationOrder l = a ++ x :: rest) (hnext : h.successor r = h.successor x) :
    Fresh h (h.advanced i r) rest := by
  unfold advanced
  rw [hnext, hs.successor_eq horder]
  cases rest with
  | nil => exact .done rfl
  | cons y rest =>
    have hy : y ∈ l := hs.mem_iterationOrder.mp (by rw [horder]; simp)
    rw [if_pos (by exact hs.ne_idxNil hy)]
    refine .next rfl rfl fun htype => ?_
    have hlt := ((hs.mem_behind htype horder y).mp mem_cons_self).2
    omega

end Stored

theorem Fresh.pending (hs : Stored h l disp) (hfresh : Fresh h i rest) (hmem : ∀ y ∈ rest, y ∈ l) :
    Pending h i rest := by
  cases hfresh with
  | done hidx => exact .done hidx
  | @next y rest hidx hkey hpos =>
    subst hidx
    have hy := hmem _ mem_cons_self
    exact .next (r := i.idx) ⟨hs.ne_idxNil hy, hs.ne_idxFirst hy, hpos, hkey.symm, .inl ⟨hkey.symm, rfl⟩,
      hs.inside _ hy⟩ rfl rfl

end Step

/-! ## The first step -/

section First

variable [Inhabited P] [DecidableEq P]

/-- The bucket of the lowest entry is known. -/
def knowLowest (h : HashmapBase P HK) (idx : Nat) : HashmapBase P HK :=
  if h.type ≠ .ordered ∧ h.hasIndirect = true then { h with idxLowestEntry := idx } else h

omit [Inhabited P] [DecidableEq P] in
theorem knowLowest_of_ne (htype : h.type ≠ .ordered) (idx : Nat) :
    h.knowLowest idx = if h.hasIndirect = true then { h with idxLowestEntry := idx } else h := by
  unfold knowLowest
  by_cases hind : h.hasIndirect = true
  · rw [if_pos hind, if_pos ⟨htype, hind⟩]
  · rw [if_neg hind, if_neg fun hcond => hind hcond.2]

omit [Inhabited P] [DecidableEq P] in
theorem Stored.knowLowest (hs : Stored h l disp) :
    Stored (h.knowLowest ((h.iterationOrder l).head?.getD idxNil)) l disp := by
  unfold HashmapBase.knowLowest
  split
  · next hcond =>
    refine ⟨{ hs.table with lowest := ?_ }, hs.ordered, hs.inside, hs.stops, hs.size, ?_, hs.anchor⟩
    · intro _ i hi _
      have hsorted := sorted_iterationOrder (l := l) hcond.1
      have hmem := hs.mem_iterationOrder.mpr hi
      show (h.iterationOrder l).head?.getD idxNil ≤ i
      cases horder : h.iterationOrder l with
      | nil =>
        rw [horder] at hmem
        cases hmem
      | cons x rest =>
        rw [horder] at hmem hsorted
        rcases mem_cons.mp hmem with rfl | hlater
        · exact Nat.le_refl _
        · exact Nat.le_of_lt ((pairwise_cons.mp hsorted).1 i hlater)
    · cases hs.sized with
      | direct hind hbuckets hle => exact .direct hind hbuckets hle
      | indirect hind hshift hbuckets hle => exact .indirect hind hshift hbuckets hle
  · exact hs

omit [Inhabited P] [DecidableEq P] in
theorem bucket_knowLowest (h : HashmapBase P HK) (idx : Nat) : (h.knowLowest idx).bucket = h.bucket := by
  unfold knowLowest
  split <;> rfl

omit [Inhabited P] [DecidableEq P] in
theorem entry_knowLowest (h : HashmapBase P HK) (idx : Nat) : (h.knowLowest idx).entry = h.entry := by
  funext i
  unfold entry
  rw [bucket_knowLowest]

omit [Inhabited P] [DecidableEq P] in
theorem sameKind_knowLowest (h : HashmapBase P HK) (idx : Nat) : SameKind h (h.knowLowest idx) := by
  unfold knowLowest
  split <;> exact ⟨rfl, rfl, rfl⟩

omit [Inhabited P] [DecidableEq P] in
theorem iterationOrder_knowLowest (h : HashmapBase P HK) (idx : Nat) (l : List Nat) :
    (h.knowLowest idx).iterationOrder l = h.iterationOrder l := by
  unfold knowLowest
  split <;> rfl

omit [Inhabited P] [DecidableEq P] in
theorem item_knowLowest (h : HashmapBase P HK) (idx : Nat) : (h.knowLowest idx).item = h.item := by
  unfold knowLowest
  split <;> rfl

omit [Inhabited P] [DecidableEq P] in
/-- The first bucket that is not free, from the lowest one on. -/
theorem Stored.skip_lowest (hs : Stored h l disp) (htype : h.type ≠ .ordered) :
    h.skipFreeBuckets (if h.hasIndirect then h.idxLowestEntry else 0) =
      (h.iterationOrder l).head?.getD idxNil := by
  refine hs.skipFreeBuckets_eq (sorted_iterationOrder htype) fun i => ?_
  rw [hs.mem_iterationOrder]
  refine ⟨fun hi => ⟨hi, ?_⟩, And.left⟩
  split
  · next hind => exact hs.table.lowest hind i hi (hs.inside i hi)
  · exact Nat.zero_le i

/-- The first step gives the first bucket, or that there is none. -/
theorem Stored.iterate_first (hs : Stored h l disp) :
    ∃ i, h.hashmapIterateEntry iteratorFirst =
        some (h.knowLowest ((h.iterationOrder l).head?.getD idxNil), i,
          (h.iterationOrder l).head?.getD idxNil) ∧
      Fresh (h.knowLowest ((h.iterationOrder l).head?.getD idxNil)) i (h.iterationOrder l).tail := by
  have hs' := hs.knowLowest
  have hat : (iteratorFirst : Iterator P).idx = idxFirst := rfl
  have hfirst : (iteratorFirst : Iterator P).idx ≠ idxNil := show idxFirst ≠ idxNil by decide
  have horder' := iterationOrder_knowLowest h ((h.iterationOrder l).head?.getD idxNil) l
  have hstep : ∀ x rest, h.iterationOrder l = x :: rest → ∀ i : Iterator P,
      Fresh (h.knowLowest ((h.iterationOrder l).head?.getD idxNil))
        ((h.knowLowest ((h.iterationOrder l).head?.getD idxNil)).advanced i x) rest := by
    intro x rest horder i
    exact hs'.fresh_advanced (a := []) (horder'.trans horder) rfl
  unfold HashmapBase.hashmapIterateEntry
  by_cases htype : h.type = .ordered
  · rw [if_pos htype]
    have hknow : h.knowLowest ((h.iterationOrder l).head?.getD idxNil) = h :=
      if_neg fun hcond => hcond.1 htype
    rw [hknow] at hstep ⊢
    have hhead : h.iterateListHead = (h.iterationOrder l).head?.getD idxNil := by
      rw [iterationOrder_of_ordered htype]
      exact (hs.table.threaded htype).head
    unfold hashmapIterateInInsertionOrder
    cases horder : h.iterationOrder l with
    | nil =>
      rw [horder] at hhead
      rw [if_pos (.inr ⟨rfl, hhead⟩)]
      exact ⟨_, rfl, .done rfl⟩
    | cons x rest =>
      rw [horder] at hhead
      replace hhead : h.iterateListHead = x := hhead
      have hx : x ∈ l := hs.mem_iterationOrder.mp (by rw [horder]; simp)
      rw [if_neg, if_pos hat, hhead, step_of_ordered htype]
      · exact ⟨_, rfl, hstep x rest horder _⟩
      · rintro (hnil | ⟨-, hnil⟩)
        · exact hfirst hnil
        · exact hs.ne_idxNil hx (hhead ▸ hnil)
  · rw [if_neg htype]
    unfold hashmapIterateInInternalOrder
    rw [if_neg hfirst, if_pos hat]
    dsimp only
    rw [hs.skip_lowest htype, ← knowLowest_of_ne htype]
    have htype' : (h.knowLowest ((h.iterationOrder l).head?.getD idxNil)).type ≠ .ordered := by
      rw [(sameKind_knowLowest h _).type]
      exact htype
    cases horder : h.iterationOrder l with
    | nil => exact ⟨_, if_pos rfl, .done rfl⟩
    | cons x rest =>
      have hx : x ∈ l := hs.mem_iterationOrder.mp (by rw [horder]; simp)
      rw [horder] at htype' hstep
      rw [if_neg (by exact hs.ne_idxNil hx), step_of_ne htype']
      exact ⟨_, rfl, hstep x rest rfl _⟩

/-- What `_hashmap_first_key_and_value` does and returns. -/
inductive FirstOutcome (h : HashmapBase P HK) (m : List (P × P)) (remove : Bool) :
    HashmapBase P HK → P × P → Prop where
  | empty (hempty : m = []) : FirstOutcome h m remove h (default, default)
  | entry {h' : HashmapBase P HK} {e : P × P} (he : e ∈ m)
      (hfirst : h.type = .ordered → m.head? = some e) (hkind : SameKind h h')
      (hholds : Holds h' (if remove then h.without m e.1 else m)) :
      FirstOutcome h m remove h' (h.type.itemOf e)

theorem hashmapFirstKeyAndValue_spec {m : List (P × P)} (hm : Holds h m) (remove : Bool) :
    ∃ h' e, h.hashmapFirstKeyAndValue remove = some (h', e) ∧ FirstOutcome h m remove h' e := by
  have hsize := hm.nEntries
  obtain ⟨l, disp, hs, rfl⟩ := hm
  unfold hashmapFirstKeyAndValue findFirstEntry
  by_cases hempty : h.nEntries = 0
  · rw [if_pos hempty]
    exact ⟨h, _, if_pos rfl, .empty (eq_nil_of_length_eq_zero (hsize.symm.trans hempty))⟩
  rw [if_neg hempty]
  obtain ⟨i, hiterate, -⟩ := hs.iterate_first
  have hs' := hs.knowLowest
  rw [hiterate]
  cases horder : h.iterationOrder l with
  | nil =>
    have hlen := hs.iterationOrder_perm.length_eq
    rw [horder, ← hs.size] at hlen
    exact absurd hlen.symm hempty
  | cons x rest =>
    have hx : x ∈ l := hs.mem_iterationOrder.mp (by rw [horder]; simp)
    rw [horder] at hs'
    replace hs' : Stored (h.knowLowest x) l disp := hs'
    have hkind := sameKind_knowLowest h x
    have hentry : (h.knowLowest x).entry = h.entry := entry_knowLowest h x
    have hitem : ((h.knowLowest x).bucket x).key = (h.entry x).1 := by
      rw [bucket_knowLowest]
      rfl
    have hvalue : (h.knowLowest x).entryValue x = h.type.valueOf (h.entry x) := by
      rw [entryValue_eq, hkind.type, hentry]
    have hmem : h.entry x ∈ l.map h.entry := mem_map.mpr ⟨x, hx, rfl⟩
    have hhead : h.type = .ordered → (l.map h.entry).head? = some (h.entry x) := by
      intro htype
      rw [iterationOrder_of_ordered htype] at horder
      rw [horder]
      rfl
    dsimp only [Option.map_some, head?_cons, Option.getD_some]
    rw [if_neg (hs.ne_idxNil hx), hitem, hvalue]
    cases remove with
    | false =>
      refine ⟨h.knowLowest x, _, rfl, .entry hmem hhead hkind ?_⟩
      exact ⟨l, disp, hs', by rw [hentry]; rfl⟩
    | true =>
      obtain ⟨h', hremove, hkind', hholds⟩ := hs'.remove hx (h.knowLowest x |>.hashOps.equal_refl _)
      rw [if_pos rfl, hremove]
      refine ⟨h', _, rfl, .entry hmem hhead (hkind.trans hkind') ?_⟩
      unfold without at hholds ⊢
      rw [hkind.hashOps, hentry, hitem] at hholds
      exact hholds

omit [Inhabited P] [DecidableEq P] in
/-- Taking out the entry of a key makes the entries one less. -/
theorem length_without {m : List (P × P)} (hm : Holds h m) {e : P × P} (he : e ∈ m) :
    (h.without m e.1).length + 1 = m.length := by
  obtain ⟨l, disp, hs, rfl⟩ := hm
  obtain ⟨i, hi, rfl⟩ := mem_map.mp he
  show (h.without (l.map h.entry) (h.bucket i).key).length + 1 = _
  rw [← hs.filter_ne hi (h.hashOps.equal_refl _), length_map, length_map]
  obtain ⟨a, b, rfl⟩ := append_of_mem hi
  rw [filter_ne_eq_append hs.table.nodup]
  simp only [length_append, length_cons]
  omega

/-! ## Clearing -/

omit [DecidableEq P] in
theorem holds_resetDirectStorage (h : HashmapBase P HK) : Holds h.resetDirectStorage [] := by
  have hpos : 0 < h.type.nDirectBuckets := by
    cases h.type <;> decide
  have hsmall : h.type.nDirectBuckets ≤ 2 ^ 31 := Nat.le_trans (nDirectBuckets_le _) (by decide)
  refine ⟨[], fun _ => none, ⟨⟨hpos, hsmall, .nil, ?_, ?_, .nil, ?_, ?_⟩, ?_, ?_, ?_, rfl, ?_, ?_⟩, rfl⟩
  · intro i hi
    cases hi
  · intro i d hd
    cases hd
  · intro hind
    cases hind
  · intro _
    refine ⟨rfl, rfl, ?_, ?_⟩
    · intro a i b hl
      simp at hl
    · intro a i b hl
      simp at hl
  · intro i _ d hd
    cases hd
  · intro i hi
    cases hi
  · intro i _ _
    exact ⟨rfl, not_mem_nil⟩
  · exact .direct rfl rfl (Nat.zero_le _)
  · refine ⟨0, hpos, fun d hd => ?_⟩
    cases hd

/-- The destructors are called for every entry, once. -/
theorem clearLoop_spec {n : Nat} {m : List (P × P)} (hm : Holds h m) (hn : m.length < n)
    (freed : List (P × P)) :
    ∃ h' s, clearLoop n h freed = some (h', freed ++ s) ∧ SameKind h h' ∧
      s.Perm (m.map h.type.itemOf) := by
  induction n generalizing h m freed with
  | zero => omega
  | succ n ih =>
    have hsize := hm.nEntries
    rw [clearLoop]
    by_cases hempty : 0 < h.nEntries
    · rw [if_pos hempty]
      obtain ⟨h₁, e, heq, hfirst⟩ := hashmapFirstKeyAndValue_spec hm true
      rw [heq]
      cases hfirst with
      | empty hnil =>
        rw [hnil] at hsize
        rw [hsize] at hempty
        cases hempty
      | @entry _ e he _ hkind hholds =>
        rw [if_pos rfl] at hholds
        have hlen := length_without hm he
        obtain ⟨h', s, hloop, hkind', hperm⟩ := ih hholds (by omega)
          (freed ++ [h.type.itemOf e])
        refine ⟨h', h.type.itemOf e :: s, ?_, hkind.trans hkind', ?_⟩
        · dsimp only
          rw [hloop, append_assoc]
          rfl
        · -- the entry and those without it are all there are
          have hsplit : m.Perm (e :: h.without m e.1) := by
            have hnodup := FinMap.nodup_of_distinct h.hashOps.keyEquiv hm.distinct
            have hout : e ∉ h.without m e.1 := by
              intro hmem
              have hkey := (mem_filter.mp hmem).2
              rw [h.hashOps.equal_refl] at hkey
              cases hkey
            rw [perm_ext_iff_of_nodup hnodup (nodup_cons.mpr ⟨hout, hnodup.filter _⟩)]
            intro e'
            rw [mem_cons, mem_filter]
            constructor
            · intro he'
              by_cases hee : e' = e
              · exact .inl hee
              · refine .inr ⟨he', ?_⟩
                cases hkey : h.hashOps.equal e'.1 e.1 with
                | false => rfl
                | true =>
                  exact absurd (FinMap.eq_of_pairwise (f := Prod.fst) h.hashOps.keyEquiv hm.distinct he'
                    he hkey) hee
            · rintro (rfl | ⟨he', -⟩)
              · exact he
              · exact he'
          rw [hkind.type] at hperm
          exact (hperm.cons _).trans (hsplit.map h.type.itemOf).symm
    · rw [if_neg hempty]
      have hnil : m = [] := eq_nil_of_length_eq_zero (by omega)
      refine ⟨h, [], by rw [append_nil], .refl h, ?_⟩
      rw [hnil]
      exact .nil

omit [DecidableEq P] in
theorem sameKind_resetDirectStorage (h : HashmapBase P HK) : SameKind h h.resetDirectStorage :=
  ⟨rfl, rfl, rfl⟩

theorem hashmapClear_spec {m : List (P × P)} (hm : Holds h m) (destructors : Bool) :
    ∃ h' freed, h.hashmapClear destructors = some (h', freed) ∧ SameKind h h' ∧ Holds h' [] ∧
      freed.Perm (if destructors then m.map h.type.itemOf else []) := by
  unfold hashmapClear
  cases destructors with
  | false =>
    exact ⟨_, [], rfl, sameKind_resetDirectStorage h, holds_resetDirectStorage h, .nil⟩
  | true =>
    have hsize := hm.nEntries
    obtain ⟨h', s, heq, hkind, hperm⟩ := clearLoop_spec (n := h.nEntries + 1) hm (by omega) []
    rw [if_pos rfl, heq]
    exact ⟨_, s, rfl, hkind.trans (sameKind_resetDirectStorage h'), holds_resetDirectStorage h', hperm⟩

end First

end HashmapBase

end Elogind
