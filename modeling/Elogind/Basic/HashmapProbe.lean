/-
  Elogind.Basic.HashmapProbe

  Probing (base_bucket_scan, base_remove_entry) in the bucket arrays that the functions of
  hashmap.c make, the full ones included.
-/

import Elogind.Basic.HashmapOrder

namespace Elogind

open Lib Lib.RobinHood HashmapBase

/-! ## Scanning -/

namespace HashmapBase

variable {P HK : Type} {h h' : HashmapBase P HK} {l : List Nat} {disp : Nat → Option Nat} {idx : Nat}

/-- The array is full, all entries have the home `idx`, and none has the key. -/
def FullOfOneHome (h : HashmapBase P HK) (idx : Nat) (key : P) : Prop :=
  ∀ j < h.nBuckets, h.dib ((idx + j) % h.nBuckets) ≠ dibRawFree ∧
    h.bucketCalculateDib ((idx + j) % h.nBuckets) (h.dib ((idx + j) % h.nBuckets)) = j ∧
    h.hashOps.equal (h.bucket ((idx + j) % h.nBuckets)).key key = false

/-- The scan ends in the next `n` buckets, or passes them: each then has an entry that is at
    least as far from its home as the scan has come. -/
theorem bucketScanLoop_cases (hs : Stored h l disp) (key : P) {n d : Nat} (hn : d + n = h.nBuckets) :
    (∃ r, ∀ m, h.bucketScanLoop key (n + m) ((idx + d) % h.nBuckets) d = some r) ∨
      (h.bucketScanLoop key n ((idx + d) % h.nBuckets) d = none ∧
        (∀ m, h.bucketScanLoop key (n + m) ((idx + d) % h.nBuckets) d =
          h.bucketScanLoop key m ((idx + h.nBuckets) % h.nBuckets) h.nBuckets) ∧
        ∀ j, d ≤ j → j < h.nBuckets → ∃ e, j ≤ e ∧ disp ((idx + j) % h.nBuckets) = some e ∧
          (e = j → h.hashOps.equal (h.bucket ((idx + j) % h.nBuckets)).key key = false)) := by
  induction n generalizing d with
  | zero =>
    right
    rw [← hn]
    exact ⟨rfl, fun m => by rw [Nat.zero_add, Nat.add_zero], fun j hle hlt => by omega⟩
  | succ n ih =>
    have hlt : (idx + d) % h.nBuckets < h.nBuckets := Nat.mod_lt _ hs.table.pos
    have hfuel : ∀ m, n + 1 + m = (n + m) + 1 := fun m => by omega
    cases hd : disp ((idx + d) % h.nBuckets) with
    | none =>
      left
      refine ⟨idxNil, fun m => ?_⟩
      rw [hfuel, bucketScanLoop, if_pos (hs.stops _ hlt hd).1]
    | some e =>
      have hfree := hs.table.dib_ne_free hd
      have hdib := hs.table.bucketCalculateDib_eq hd
      by_cases hpoor : e < d
      · left
        refine ⟨idxNil, fun m => ?_⟩
        rw [hfuel, bucketScanLoop, if_neg hfree]
        rw [hdib, if_pos hpoor]
      by_cases hhere : e = d ∧ h.hashOps.equal (h.bucket ((idx + d) % h.nBuckets)).key key
      · left
        refine ⟨(idx + d) % h.nBuckets, fun m => ?_⟩
        rw [hfuel, bucketScanLoop, if_neg hfree]
        rw [hdib, if_neg hpoor, if_pos hhere]
      -- the scan goes on behind this bucket
      have hnext : h.nextIdx ((idx + d) % h.nBuckets) = (idx + (d + 1)) % h.nBuckets := succMod_add ..
      have hstep : ∀ m, h.bucketScanLoop key (m + 1) ((idx + d) % h.nBuckets) d =
          h.bucketScanLoop key m ((idx + (d + 1)) % h.nBuckets) (d + 1) := by
        intro m
        rw [bucketScanLoop, if_neg hfree]
        rw [hdib, if_neg hpoor, if_neg hhere, hnext]
      obtain ⟨r, hr⟩ | ⟨hnone, hmore, hahead⟩ := ih (d := d + 1) (by omega)
      · left
        exact ⟨r, fun m => by rw [hfuel, hstep, hr]⟩
      · right
        refine ⟨by rw [hstep, hnone], fun m => by rw [hfuel, hstep, hmore], fun j hle hj => ?_⟩
        by_cases hjd : j = d
        · subst hjd
          refine ⟨e, by omega, hd, fun he => ?_⟩
          rw [he] at hhere
          simpa using hhere
        · exact hahead j (by omega) hj

/-- Where all buckets were passed, the entries have been at home one behind the other. -/
theorem Stored.fullOfOneHome (hs : Stored h l disp) (hidx : idx < h.nBuckets) {key : P}
    (hahead : ∀ j < h.nBuckets, ∃ e, j ≤ e ∧ disp ((idx + j) % h.nBuckets) = some e ∧
      (e = j → h.hashOps.equal (h.bucket ((idx + j) % h.nBuckets)).key key = false)) :
    FullOfOneHome h idx key := by
  -- the bucket with an entry at home can only be the first one
  have hfirst : disp idx = some 0 := by
    obtain ⟨i, hi, hhome⟩ := hs.anchor
    obtain ⟨e, hle, he, -⟩ := hahead _ (distMod_lt hidx hi)
    rw [add_distMod hidx hi] at he
    have hzero := hhome e he
    have heq : idx = i := eq_of_distMod_eq_zero hidx (by omega)
    rw [heq, he, hzero]
  have hexact : ∀ j < h.nBuckets, disp ((idx + j) % h.nBuckets) = some j := by
    intro j
    induction j with
    | zero =>
      intro _
      rw [Nat.add_zero, Nat.mod_eq_of_lt hidx]
      exact hfirst
    | succ j ih =>
      intro hj
      obtain ⟨e, hle, he, -⟩ := hahead (j + 1) hj
      obtain ⟨e, rfl⟩ : ∃ e', e = e' + 1 := ⟨e - 1, by omega⟩
      rw [← succMod_add] at he
      obtain ⟨e', hle', he'⟩ := hs.ordered _ (Nat.mod_lt _ hs.table.pos) e he
      rw [ih (by omega)] at he'
      cases he'
      rw [← succMod_add, he]
      congr 1
      omega
  intro j hj
  obtain ⟨e, -, he, hkey⟩ := hahead j hj
  rw [hexact j hj] at he
  cases he
  exact ⟨hs.table.dib_ne_free (hexact j hj), hs.table.bucketCalculateDib_eq (hexact j hj), hkey rfl⟩

/-- The scan ends after `nBuckets` probes, or with one more that only reads the first DIB
    again. -/
theorem Stored.scan_ends (hs : Stored h l disp) (hidx : idx < h.nBuckets) (key : P) :
    ∃ r, h.baseBucketScan idx key = some r ∧
      (h.bucketScanLoop key h.nBuckets idx 0 = some r ∨
        (h.bucketScanLoop key h.nBuckets idx 0 = none ∧ r = idxNil ∧ FullOfOneHome h idx key)) := by
  have hzero : (idx + 0) % h.nBuckets = idx := Nat.mod_eq_of_lt hidx
  have hcases := @bucketScanLoop_cases P HK h l disp idx hs key _ 0 (Nat.zero_add h.nBuckets)
  rw [hzero] at hcases
  unfold baseBucketScan
  rw [if_neg (Nat.not_le.mpr hidx)]
  rcases hcases with ⟨r, hr⟩ | ⟨hnone, hmore, hahead⟩
  · exact ⟨r, hr 1, .inl (hr 0)⟩
  · have hfull := hs.fullOfOneHome hidx fun j hj => hahead j (Nat.zero_le j) hj
    obtain ⟨hfree, hdib, -⟩ := hfull 0 hs.table.pos
    rw [hzero] at hfree hdib
    -- one probe more: the first bucket again, where the entry is at home
    refine ⟨idxNil, ?_, .inr ⟨hnone, rfl, hfull⟩⟩
    rw [hmore, Nat.add_mod_right, Nat.mod_eq_of_lt hidx, bucketScanLoop, if_neg hfree]
    rw [hdib, if_pos hs.table.pos]

/-! ## Shifting -/

/-- In at most `n` steps the loop of `base_remove_entry` comes to `right`, and no bucket that it
    shifts is free, to be rehashed, or has an entry at home. -/
def ShiftHolds : Nat → HashmapBase P HK → (prev left right : Nat) → Prop
  | 0, _, _, left, right => left = right
  | n + 1, h, prev, left, right =>
    left = right ∨ (h.dib left < dibRawRehash ∧ h.bucketCalculateDib left (h.dib left) ≠ 0 ∧
      ShiftHolds n ((h.bucketMoveEntry left prev).bucketSetDib prev
        (h.bucketCalculateDib left (h.dib left) - 1)) left (h.nextIdx left) right)

theorem Shifting.shiftHolds {h₀ : HashmapBase P HK} {l₀ : List Nat} {disp₀ : Nat → Option Nat}
    {n t k : Nat} (hs₀ : Stored h₀ l₀ disp₀) (hidx : idx ∈ l₀)
    (hs : Shifting h₀ l₀ disp₀ idx t h disp) (hk : Stop h₀ idx k) (ht : t + 1 + n = k) :
    ShiftHolds n h ((idx + t) % h₀.nBuckets) ((idx + (t + 1)) % h₀.nBuckets)
      ((idx + k) % h₀.nBuckets) := by
  induction n generalizing h disp t with
  | zero =>
    rw [← ht]
    exact rfl
  | succ n ih =>
    obtain ⟨d, hd⟩ := hs.exists_disp hs₀ hidx hk (by omega)
    have hdib := hs.table.bucketCalculateDib_eq hd
    refine .inr ⟨hs.table.dib_lt hd, by rw [hdib]; exact Nat.succ_ne_zero d, ?_⟩
    rw [hdib, hs.nextIdx, Nat.add_sub_cancel]
    exact ih (hs.step hs₀ hidx hk (by omega) hd) (by omega)

/-! ## Reachable bucket arrays -/

section Reachable

variable [Inhabited P] [DecidableEq P]

/-- The bucket arrays that the functions of hashmap.c make: new ones, and those after a call, a
    resize, a step of an iterator, or an entry was put where there is room for it
    (`hashmap_move`) or removed. -/
inductive Reachable : HashmapBase P HK → Prop where
  | new (hashOps : HashOps P HK) (type : HashmapType) (sharedHashKey : HK) :
      Reachable (hashmapBaseNew hashOps type sharedHashKey)
  | call {h h' : HashmapBase P HK} (hr : Reachable h) (op : MapOp P HK) (htyped : op.Typed h.type)
      (hcall : (op.call h).map Prod.fst = some h') : Reachable h'
  | resize {h h' : HashmapBase P HK} {entriesAdd : Nat} {env : ResizeEnv HK} {r : Int} (hr : Reachable h)
      (hcall : h.resizeBuckets entriesAdd env = some (h', r)) : Reachable h'
  | iterate {h h' : HashmapBase P HK} {i i' : Iterator P} {idx : Nat} (hr : Reachable h)
      (hcall : h.hashmapIterateEntry i = some (h', i', idx)) : Reachable h'
  | put {h h' : HashmapBase P HK} {key value : P} {r : Int} (hr : Reachable h) (hroom : Room h 1)
      (habsent : h.lookup key = some idxNil)
      (hcall : h.hashmapBasePutBoldly (h.bucketHash key) key value none = some (h', r)) : Reachable h'
  | remove {h h' : HashmapBase P HK} {idx : Nat} (hr : Reachable h) (hidx : idx < h.nBuckets)
      (hused : h.dib idx ≠ dibRawFree) (hcall : h.baseRemoveEntry idx = some h') : Reachable h'

/-- A call that would need more buckets than can be allocated does not return. -/
theorem call_eq_none (hs : Stored h l disp) {op : MapOp P HK} (hfits : ¬op.Fits h) : op.call h = none := by
  cases op with
  | put key value env =>
    obtain ⟨hnil, hroom⟩ := Classical.not_imp.mp hfits
    rw [MapOp.call, hashmapPut, hnil]
    dsimp only
    rw [if_neg (not_not.mpr rfl), putBoldly_eq_none hs hroom]
    rfl
  | setPut key env =>
    obtain ⟨hnil, hroom⟩ := Classical.not_imp.mp hfits
    rw [MapOp.call, setPut, hnil]
    dsimp only
    rw [if_neg (not_not.mpr rfl), putBoldly_eq_none hs hroom]
    rfl
  | replace key value env =>
    obtain ⟨hnil, hroom⟩ := Classical.not_imp.mp hfits
    rw [MapOp.call, hashmapReplace, hnil]
    dsimp only
    rw [if_neg (not_not.mpr rfl), putBoldly_eq_none hs hroom]
    rfl
  | update | get | contains | size | remove | removeValue | removeAndPut | setRemoveAndPut | first | clear =>
    exact absurd trivial hfits

theorem Holds.call {m : List (P × P)} (hm : Holds h m) {op : MapOp P HK} (htyped : op.Typed h.type)
    (hcall : (op.call h).map Prod.fst = some h') : ∃ m', Holds h' m' := by
  by_cases hfits : op.Fits h
  · obtain ⟨h₁, ret₁, f', heq, ⟨m', -, hm', -⟩, -⟩ := call_spec ⟨m, rfl, hm, rfl⟩ op htyped hfits
    rw [heq] at hcall
    cases hcall
    exact ⟨m', hm'⟩
  · obtain ⟨l, disp, hs, -⟩ := hm
    rw [call_eq_none hs hfits] at hcall
    cases hcall

omit [DecidableEq P] in
/-- A resize that returns has had room, or has changed nothing. -/
theorem Holds.resize {m : List (P × P)} (hm : Holds h m) {entriesAdd : Nat} {env : ResizeEnv HK} {r : Int}
    (hcall : h.resizeBuckets entriesAdd env = some (h', r)) : ∃ m', Holds h' m' := by
  obtain ⟨l, disp, hs, hentries⟩ := hm
  by_cases hfits : bucketsFor (h.nEntries + entriesAdd) ≤ maxBuckets h.type
  · obtain ⟨h₁, r₁, heq, hresized⟩ := resizeBuckets_spec hs entriesAdd env hfits
    rw [hcall] at heq
    cases heq
    cases hresized with
    | kept | failed => exact ⟨m, l, disp, hs, hentries⟩
    | grown hs' => exact ⟨_, _, _, hs', rfl⟩
  · have hmax := maxBuckets_lt h.type
    have hle := hs.sized.nEntries_le
    have hbuckets := hs.sized.nBuckets_le
    have hsame : h' = h := by
      unfold resizeBuckets at hcall
      dsimp only at hcall
      split at hcall
      · cases hcall; rfl
      next hover =>
      split at hcall
      · cases hcall; rfl
      split at hcall
      · cases hcall; rfl
      next hover' =>
      split at hcall
      · cases hcall; rfl
      split at hcall
      · cases hcall; rfl
      have hsum : (h.nEntries + entriesAdd) % 2 ^ 32 = h.nEntries + entriesAdd := by omega
      have hnew : (h.nEntries + entriesAdd + (h.nEntries + entriesAdd) / (5 - 1)) % 2 ^ 32 =
          bucketsFor (h.nEntries + entriesAdd) := by
        rw [hsum] at hover'
        unfold bucketsFor
        omega
      rw [hsum, hnew, if_pos] at hcall
      · cases hcall
      · exact Nat.not_lt.mp fun hshift => hfits ((newShift_lt_iff h.type _).mp hshift)
    rw [hsame]
    exact ⟨m, l, disp, hs, hentries⟩

omit [Inhabited P] in
/-- A step of an iterator at most finds out which bucket is the lowest one in use. -/
theorem Holds.iterate {m : List (P × P)} (hm : Holds h m) {i i' : Iterator P}
    (hcall : h.hashmapIterateEntry i = some (h', i', idx)) : ∃ m', Holds h' m' := by
  obtain ⟨l, disp, hs, hentries⟩ := hm
  have hcases : h' = h ∨ h' = h.knowLowest ((h.iterationOrder l).head?.getD idxNil) := by
    unfold hashmapIterateEntry at hcall
    by_cases htype : h.type = .ordered
    · rw [if_pos htype] at hcall
      obtain ⟨s, -, heq⟩ := Option.map_eq_some_iff.mp hcall
      cases heq
      exact .inl rfl
    rw [if_neg htype] at hcall
    unfold hashmapIterateInInternalOrder at hcall
    dsimp only at hcall
    rw [hs.skip_lowest htype, ← knowLowest_of_ne htype] at hcall
    split at hcall
    · cases hcall
      exact .inl rfl
    split at hcall
    · split at hcall <;> exact .inr (congrArg Prod.fst (Option.some.inj hcall)).symm
    split at hcall
    · cases hcall
    generalize (if (h.bucket i.idx).key ≠ i.nextKey then i.idx - 1 else i.idx) = x at hcall
    split at hcall
    · exact .inl (congrArg Prod.fst (Option.some.inj hcall)).symm
    · cases hcall
  rcases hcases with rfl | rfl
  · exact ⟨m, l, disp, hs, hentries⟩
  · exact ⟨_, l, disp, hs.knowLowest, rfl⟩

theorem Reachable.holds (hr : Reachable h) : ∃ m, Holds h m := by
  induction hr with
  | new hashOps type sharedHashKey => exact ⟨[], holds_resetDirectStorage _⟩
  | call _ op htyped hcall ih =>
    obtain ⟨m, hm⟩ := ih
    exact hm.call htyped hcall
  | resize _ hcall ih =>
    obtain ⟨m, hm⟩ := ih
    exact hm.resize hcall
  | iterate _ hcall ih =>
    obtain ⟨m, hm⟩ := ih
    exact hm.iterate hcall
  | put _ hroom habsent hcall ih =>
    obtain ⟨m, l, disp, hs, rfl⟩ := ih
    have hnone := FinMap.ofList_eq_none.mp ((lookup_eq_nil_iff ⟨l, disp, hs, rfl⟩).mp habsent)
    obtain ⟨h₁, l₁, disp₁, heq, hput⟩ := putBoldly_of_room hs hroom
      (fun i hi => hnone _ (List.mem_map.mpr ⟨i, hi, rfl⟩)) _
    rw [hcall] at heq
    cases heq
    exact ⟨_, _, _, hput.stored, rfl⟩
  | remove _ hidx hused hcall ih =>
    obtain ⟨m, l, disp, hs, -⟩ := ih
    have hmem := not_not.mp fun hout => hused ((hs.dib_eq_free_iff hidx).mpr hout)
    obtain ⟨h₁, k, disp₁, heq, hremoved⟩ := baseRemoveEntry_spec hs hmem
    rw [hcall] at heq
    cases heq
    exact ⟨_, _, _, hremoved.stored, rfl⟩

/-- In every bucket array that is reachable a scan ends after at most `nBuckets` probes; only where
    the array is full of entries with the home the scan starts in there is one more, which finds
    the first of them at home.  When an entry is removed, a stop bucket is found, and all buckets
    in front of it are fit to be shifted. -/
theorem probing_assertions_hold (hr : Reachable h) :
    (∀ idx < h.nBuckets, ∀ key, ∃ r, h.baseBucketScan idx key = some r ∧
      (h.bucketScanLoop key h.nBuckets idx 0 = some r ∨
        (h.bucketScanLoop key h.nBuckets idx 0 = none ∧ r = idxNil ∧ FullOfOneHome h idx key))) ∧
    ∀ idx < h.nBuckets, h.dib idx ≠ dibRawFree → ∃ k < h.nBuckets, ∃ h',
      h.findStop idx h.nBuckets (h.nextIdx idx) = some ((idx + (k + 1)) % h.nBuckets) ∧
      ShiftHolds k (if h.type = .ordered then h.unlink idx else h) idx (h.nextIdx idx)
        ((idx + (k + 1)) % h.nBuckets) ∧
      h.baseRemoveEntry idx = some h' := by
  obtain ⟨m, l, disp, hs, -⟩ := hr.holds
  refine ⟨fun idx hidx key => hs.scan_ends hidx key, fun idx hidx hused => ?_⟩
  have hmem := not_not.mp fun hout => hused ((hs.dib_eq_free_iff hidx).mpr hout)
  obtain ⟨h', _, _, heq, -⟩ := baseRemoveEntry_spec hs hmem
  obtain ⟨k, hk, hfind⟩ := hs.exists_stop hidx
  have hpos := hk.pos
  have hle := hk.le
  obtain ⟨k, rfl⟩ : ∃ k', k = k' + 1 := ⟨k - 1, by omega⟩
  refine ⟨k, hle, h', hfind, ?_, heq⟩
  have hshift := (hs.shifting hmem).shiftHolds (n := k) hs hmem hk (by omega)
  rwa [Nat.add_zero, Nat.mod_eq_of_lt hidx] at hshift

/-- The only bucket of a new ordered hashmap is in use. -/
def onlyZero : HashmapBase Nat Unit :=
  (((hashmapBaseNew Maps.natOps .ordered ()).hashmapPut 0 0 Maps.memory).map Prod.fst).getD
    (hashmapBaseNew Maps.natOps .ordered ())

theorem reachable_onlyZero : Reachable onlyZero :=
  .call (.new Maps.natOps .ordered ()) (.put 0 0 Maps.memory) (show HashmapType.ordered ≠ .set by decide) rfl

theorem probing_assertions_hold_onlyZero :
    Reachable onlyZero ∧
      (∀ idx < onlyZero.nBuckets, ∀ key, ∃ r, onlyZero.baseBucketScan idx key = some r ∧
        (onlyZero.bucketScanLoop key onlyZero.nBuckets idx 0 = some r ∨
          (onlyZero.bucketScanLoop key onlyZero.nBuckets idx 0 = none ∧ r = idxNil ∧
            FullOfOneHome onlyZero idx key))) ∧
      ∀ idx < onlyZero.nBuckets, onlyZero.dib idx ≠ dibRawFree → ∃ k < onlyZero.nBuckets, ∃ h',
        onlyZero.findStop idx onlyZero.nBuckets (onlyZero.nextIdx idx) =
          some ((idx + (k + 1)) % onlyZero.nBuckets) ∧
        ShiftHolds k (if onlyZero.type = .ordered then onlyZero.unlink idx else onlyZero) idx
          (onlyZero.nextIdx idx) ((idx + (k + 1)) % onlyZero.nBuckets) ∧
        onlyZero.baseRemoveEntry idx = some h' :=
  ⟨reachable_onlyZero, probing_assertions_hold reachable_onlyZero⟩

/-- The key 1 is looked for in an array with one bucket, which is probed twice. -/
theorem scan_probes_twice :
    ¬∀ h : HashmapBase Nat Unit, Reachable h → ∀ idx < h.nBuckets, ∀ key,
      ∃ r, h.bucketScanLoop key h.nBuckets idx 0 = some r := by
  intro hall
  have hlt : 0 < onlyZero.nBuckets := by decide
  obtain ⟨r, hr⟩ := hall onlyZero reachable_onlyZero 0 hlt 1
  have hnone : onlyZero.bucketScanLoop 1 onlyZero.nBuckets 0 0 = none := rfl
  rw [hnone] at hr
  cases hr

end Reachable

end HashmapBase

/-! ## The hashmaps of a program -/

namespace Maps

variable {P HK : Type} [Inhabited P] [DecidableEq P] {ops : HashOps P HK} {maps maps' : Maps P HK}

def AllReachable (maps : Maps P HK) : Prop := ∀ a h, maps a = some h → Reachable h

theorem AllReachable.update (hm : AllReachable maps) (a : Nat) {h : HashmapBase P HK} (hr : Reachable h) :
    AllReachable (Function.update maps a (some h)) := by
  intro b h' hb
  by_cases hba : b = a
  · rw [hba, Function.update_self] at hb
    cases hb
    exact hr
  · rw [Function.update_of_ne hba] at hb
    exact hm b h' hb

theorem mergePut_reachable {h h' : HashmapBase P HK} {key value : P} {env : ResizeEnv HK} {r : Int}
    (hr : Reachable h) (heq : mergePut h key value env = some (h', r)) : Reachable h' := by
  by_cases htype : h.type = .set
  · have hput : h.setPut key env = some (h', r) := by
      rw [← heq, mergePut, htype]
    exact hr.call (.setPut key env) htype (by rw [MapOp.call, hput]; rfl)
  · have hput : h.hashmapPut key value env = some (h', r) := by
      rw [← heq, mergePut]
      split <;> first | rfl | contradiction
    exact hr.call (.put key value env) htype (by rw [MapOp.call, hput]; rfl)

theorem AllReachable.mergeLoop (hm : AllReachable maps) {a b n : Nat} {i : Iterator P}
    {env : Nat → ResizeEnv HK} {r : Int} (heq : mergeLoop a b n maps i env = some (maps', r)) :
    AllReachable maps' := by
  induction n generalizing maps i with
  | zero => cases heq
  | succ n ih =>
    rw [Maps.mergeLoop] at heq
    split at heq
    · cases heq
      exact hm
    next source hb =>
    split at heq
    · cases heq
    next source' i' idx hiterate =>
    have hm' := hm.update b ((hm b source hb).iterate hiterate)
    dsimp only at heq
    split at heq
    · cases heq
      exact hm'
    split at heq
    · cases heq
    next target ha =>
    split at heq
    · cases heq
    next target' r' hput =>
    have hm'' := hm'.update a (mergePut_reachable (hm' a target ha) hput)
    split at heq
    · cases heq
      exact hm''
    · exact ih hm'' heq

theorem AllReachable.hashmapMerge (hm : AllReachable maps) {a b : Nat} {env : Nat → ResizeEnv HK} {r : Int}
    (heq : hashmapMerge maps a b env = some (maps', r)) : AllReachable maps' := by
  unfold Maps.hashmapMerge at heq
  split at heq
  · cases heq
  · exact hm.mergeLoop heq

theorem AllReachable.hashmapCopy (hm : AllReachable maps) {a b : Nat} {allocated : Bool}
    {env : Nat → ResizeEnv HK} (heq : hashmapCopy maps a b allocated env = some maps') :
    AllReachable maps' := by
  unfold Maps.hashmapCopy at heq
  split at heq
  · cases heq
  next source ha =>
  split at heq
  · cases heq
    exact hm
  dsimp only at heq
  split at heq
  · cases heq
  next maps₁ r hmerge =>
  have hm₁ := (hm.update b (.new source.hashOps source.type source.sharedHashKey)).hashmapMerge hmerge
  split at heq
  · cases heq
    intro c h hc
    by_cases hcb : c = b
    · rw [hcb, Function.update_self] at hc
      cases hc
    · rw [Function.update_of_ne hcb] at hc
      exact hm₁ c h hc
  · cases heq
    exact hm₁

theorem AllReachable.step (hm : AllReachable maps) (sharedHashKey : HK) {op : MapsOp P HK} {ret : Ret P}
    (hallowed : Allowed maps op) (heq : step ops sharedHashKey maps op = some (maps', ret)) :
    AllReachable maps' := by
  cases op with
  | new a type allocated =>
    rw [Maps.step] at heq
    split at heq
    · cases heq
      exact hm.update a (.new ops type sharedHashKey)
    · cases heq
      exact hm
  | on a op =>
    rw [Maps.step] at heq
    split at heq
    · obtain ⟨_, -, hsame⟩ := Option.map_eq_some_iff.mp heq
      cases hsame
      exact hm
    next h ha =>
    obtain ⟨s, hcall, hsame⟩ := Option.map_eq_some_iff.mp heq
    cases hsame
    exact hm.update a ((hm a h ha).call op (typed_of_allowed hallowed ha) (by rw [hcall]; rfl))
  | merge a b env =>
    obtain ⟨s, hmerge, hsame⟩ := Option.map_eq_some_iff.mp heq
    cases hsame
    exact hm.hashmapMerge hmerge
  | copy a b allocated env =>
    obtain ⟨s, hcopy, hsame⟩ := Option.map_eq_some_iff.mp heq
    cases hsame
    exact hm.hashmapCopy hcopy

/-- All hashmaps of a program are reachable, whatever it calls. -/
theorem AllReachable.run (hm : AllReachable maps) (sharedHashKey : HK) {calls : List (MapsOp P HK)}
    {rets : List (Ret P)} (hallowed : AllowedRun ops sharedHashKey maps calls)
    (heq : run ops sharedHashKey maps calls = some (maps', rets)) : AllReachable maps' := by
  induction calls generalizing maps rets with
  | nil =>
    cases heq
    exact hm
  | cons op calls ih =>
    rw [Maps.run] at heq
    split at heq
    · cases heq
    next maps₁ ret hstep =>
    obtain ⟨s, hrun, hsame⟩ := Option.map_eq_some_iff.mp heq
    cases hsame
    exact ih (hm.step sharedHashKey hallowed.1 hstep) (hallowed.2 _ _ hstep) hrun

/-- Whatever a program calls, each of its hashmaps stands for a finite map, which every lookup agrees with. -/
theorem run_holds (sharedHashKey : HK) {calls : List (MapsOp P HK)} {rets : List (Ret P)} {a : Nat}
    {h : HashmapBase P HK} (hallowed : AllowedRun ops sharedHashKey initial calls)
    (heq : run ops sharedHashKey initial calls = some (maps, rets)) (ha : maps a = some h) :
    ∃ m, Holds h m ∧ h.nEntries = m.length ∧
      ∀ key, h.hashmapGet key = some (((h.find m key).map h.type.valueOf).getD default) := by
  have hinitial : AllReachable (initial : Maps P HK) := fun _ _ hnone => by cases hnone
  obtain ⟨m, hm⟩ := (hinitial.run sharedHashKey hallowed heq a h ha).holds
  exact ⟨m, hm, hm.nEntries, hashmapGet_spec hm⟩

theorem run_holds_program :
    ∃ maps h m, run natOps () initial program = some (maps, programReturns) ∧ maps 0 = some h ∧ Holds h m ∧
      h.nEntries = m.length ∧ ∀ key, h.hashmapGet key = some (((h.find m key).map h.type.valueOf).getD 0) := by
  have hmap : (run natOps () initial program).any (fun s => (s.1 0).isSome) = true := by decide +kernel
  have hrets := run_program
  obtain ⟨⟨maps, rets⟩, hrun, hsome⟩ := (Option.any_eq_true _ _).mp hmap
  obtain ⟨h, hh⟩ := Option.isSome_iff_exists.mp hsome
  rw [hrun] at hrets
  obtain rfl := Option.some.inj hrets
  obtain ⟨m, hm, hsize, hget⟩ := run_holds () admits_program.allowedRun hrun hh
  exact ⟨maps, h, m, hrun, hh, hm, hsize, hget⟩

end Maps

end Elogind
