/-
  Elogind.Basic.HashmapSpec

  What the operations on a single key do to the entries of a hashmap (hashmap.c), as a
  list in the order in which they were put.
-/

import Elogind.Basic.HashmapLookup
import Elogind.Basic.HashmapOps
import Elogind.Lib.FinMap

namespace Elogind

open Lib Lib.RobinHood List Function

theorem HashOps.keyEquiv {P HK : Type} (ops : HashOps P HK) : KeyEquiv ops.equal :=
  ⟨ops.equal_refl, ops.equal_symm, ops.equal_trans⟩

/-- What is returned as the value of an entry. -/
def HashmapType.valueOf {P : Type} (type : HashmapType) (e : P × P) : P :=
  match type with
  | .plain | .ordered => e.2
  | .set => e.1

/-- An entry as the caller sees it: its key and its value. -/
def HashmapType.itemOf {P : Type} (type : HashmapType) (e : P × P) : P × P := (e.1, type.valueOf e)

namespace HashmapBase

variable {P HK : Type} {h h' : HashmapBase P HK} {l : List Nat} {disp : Nat → Option Nat}
  {m : List (P × P)} {key value : P} {env : ResizeEnv HK}

/-! ## Hashmaps and their entries -/

/-- The hashmap is well-formed and holds the entries `m`, which were put in this order. -/
def Holds (h : HashmapBase P HK) (m : List (P × P)) : Prop :=
  ∃ l disp, Stored h l disp ∧ l.map h.entry = m

/-- A hashmap with the same kind of keys and entries. -/
structure SameKind (h h' : HashmapBase P HK) : Prop where
  hashOps : h'.hashOps = h.hashOps
  type : h'.type = h.type
  sharedHashKey : h'.sharedHashKey = h.sharedHashKey

theorem SameKind.refl (h : HashmapBase P HK) : SameKind h h := ⟨rfl, rfl, rfl⟩

theorem SameKind.trans {h'' : HashmapBase P HK} (h₁ : SameKind h h') (h₂ : SameKind h' h'') :
    SameKind h h'' :=
  ⟨h₂.hashOps.trans h₁.hashOps, h₂.type.trans h₁.type, h₂.sharedHashKey.trans h₁.sharedHashKey⟩

/-- The entry of a key. -/
abbrev find (h : HashmapBase P HK) (m : List (P × P)) (key : P) : Option (P × P) :=
  FinMap.ofList h.hashOps.equal m key

namespace Holds

theorem distinct (hm : Holds h m) : Distinct h.hashOps.equal m := by
  obtain ⟨l, disp, hs, rfl⟩ := hm
  exact hs.table.distinct

theorem nEntries (hm : Holds h m) : h.nEntries = m.length := by
  obtain ⟨l, disp, hs, rfl⟩ := hm
  rw [length_map]
  exact hs.size

end Holds

/-- Where the entry of a key is. -/
inductive Located (h : HashmapBase P HK) (l : List Nat) (key : P) : Nat → Prop where
  | entry {idx : Nat} (hidx : idx ∈ l) (hnil : idx ≠ idxNil)
      (hkey : h.hashOps.equal (h.bucket idx).key key = true)
      (hfind : h.find (l.map h.entry) key = some (h.entry idx)) : Located h l key idx
  | absent (hnone : ∀ i ∈ l, h.hashOps.equal (h.bucket i).key key = false)
      (hfind : h.find (l.map h.entry) key = none) : Located h l key idxNil

/-- Entries with equal keys are the same. -/
theorem Stored.eq_of_equal (hs : Stored h l disp) {i j : Nat} (hi : i ∈ l) (hj : j ∈ l)
    (hij : h.hashOps.equal (h.bucket i).key (h.bucket j).key = true) : i = j :=
  FinMap.eq_of_pairwise h.hashOps.keyEquiv (pairwise_map.mp hs.table.distinct) hi hj hij

theorem Stored.lookup (hs : Stored h l disp) (key : P) :
    ∃ idx, h.lookup key = some idx ∧ Located h l key idx := by
  obtain ⟨idx, heq, hfound⟩ := lookup_spec hs key
  refine ⟨idx, heq, ?_⟩
  cases hfound with
  | entry hidx hkey =>
    refine .entry hidx (fun hnil => hs.table.idxNil_not_mem (hnil ▸ hidx)) hkey ?_
    rw [FinMap.ofList_eq_some h.hashOps.keyEquiv hs.table.distinct]
    exact ⟨mem_map.mpr ⟨idx, hidx, rfl⟩, hkey⟩
  | absent hnone =>
    refine .absent hnone ?_
    rw [FinMap.ofList_eq_none]
    intro e he
    obtain ⟨i, hi, rfl⟩ := mem_map.mp he
    exact hnone i hi

theorem entryValue_eq (h : HashmapBase P HK) (idx : Nat) : h.entryValue idx = h.type.valueOf (h.entry idx) := by
  unfold entryValue HashmapType.valueOf
  cases h.type <;> rfl

/-! ## Looking up -/

section Null

variable [Inhabited P]

theorem hashmapGet_spec (hm : Holds h m) (key : P) :
    h.hashmapGet key = some (((h.find m key).map h.type.valueOf).getD default) := by
  obtain ⟨l, disp, hs, rfl⟩ := hm
  obtain ⟨idx, heq, hloc⟩ := hs.lookup key
  unfold hashmapGet
  rw [heq]
  cases hloc with
  | entry hidx hnil hkey hfind =>
    dsimp only
    rw [if_neg hnil, hfind, entryValue_eq]
    rfl
  | absent hnone hfind =>
    rw [hfind]
    rfl

omit [Inhabited P] in
theorem hashmapContains_spec (hm : Holds h m) (key : P) :
    h.hashmapContains key = some (h.find m key).isSome := by
  obtain ⟨l, disp, hs, rfl⟩ := hm
  obtain ⟨idx, heq, hloc⟩ := hs.lookup key
  unfold hashmapContains
  rw [heq]
  cases hloc with
  | entry hidx hnil hkey hfind =>
    dsimp only
    rw [hfind, decide_eq_true hnil]
    rfl
  | absent hnone hfind =>
    rw [hfind]
    rfl

/-! ## Overwriting -/

omit [Inhabited P] in
/-- An entry is overwritten by one with an equal key. -/
theorem Stored.setEntry (hs : Stored h l disp) {idx : Nat} (hidx : idx ∈ l)
    (hkey : h.hashOps.equal (h.bucket idx).key key = true) (value : P) :
    Stored (h.setEntry idx key value) l disp ∧
      l.map (h.setEntry idx key value).entry =
        (l.map h.entry).map fun e => if h.hashOps.equal e.1 key then (key, value) else e := by
  have heq := h.hashOps.keyEquiv
  have hself : update h.bucket idx { h.bucket idx with key := key, value := value } idx =
      { h.bucket idx with key := key, value := value } := update_self ..
  have hother : ∀ i, i ≠ idx →
      update h.bucket idx { h.bucket idx with key := key, value := value } i = h.bucket i :=
    fun i hi => update_of_ne hi _ _
  -- every key stays equal to what it was, so that hashes and homes stay too
  have hequal : ∀ i, h.hashOps.equal ((h.setEntry idx key value).bucket i).key (h.bucket i).key = true := by
    intro i
    show h.hashOps.equal (update h.bucket idx _ i).key _ = true
    by_cases hi : i = idx
    · rw [hi, hself]
      exact h.hashOps.equal_symm _ _ hkey
    · rw [hother i hi]
      exact h.hashOps.equal_refl _
  have hentries : l.map (h.setEntry idx key value).entry =
      (l.map h.entry).map fun e => if h.hashOps.equal e.1 key then (key, value) else e := by
    rw [map_map]
    apply map_congr_left
    intro i hi
    rw [comp_apply]
    show ((update h.bucket idx _ i).key, (update h.bucket idx _ i).value) = _
    by_cases hii : i = idx
    · rw [hii, hself, if_pos (by exact hkey)]
    · rw [hother i hii, if_neg]
      · rfl
      · intro hik
        exact hii (hs.eq_of_equal hi hidx (heq.trans _ _ _ hik (heq.symm _ _ hkey)))
  -- the links of the list are not written
  have hlinks : (h.setEntry idx key value).links = h.links := by
    have hnext : ∀ i, (update h.bucket idx { h.bucket idx with key := key, value := value }
        i).iterateNext = (h.bucket i).iterateNext := by
      intro i
      by_cases hi : i = idx
      · rw [hi, hself]
      · rw [hother i hi]
    have hprev : ∀ i, (update h.bucket idx { h.bucket idx with key := key, value := value }
        i).iteratePrevious = (h.bucket i).iteratePrevious := by
      intro i
      by_cases hi : i = idx
      · rw [hi, hself]
      · rw [hother i hi]
    show Links.mk _ _ _ _ = Links.mk _ _ _ _
    rw [Links.mk.injEq]
    exact ⟨funext hnext, funext hprev, rfl, rfl⟩
  refine ⟨⟨⟨hs.table.pos, hs.table.small, hs.table.nodup, hs.table.range, ?_, ?_, hs.table.lowest, ?_⟩,
    hs.ordered, hs.inside, hs.stops, hs.size, ?_, hs.anchor⟩, hentries⟩
  · intro i d hd
    obtain ⟨hlt, hmem, hdib, hdist⟩ := hs.table.home i d hd
    refine ⟨hlt, hmem, hdib, ?_⟩
    have hhash : (h.setEntry idx key value).bucketHash ((h.setEntry idx key value).bucket i).key =
        h.bucketHash (h.bucket i).key := by
      unfold bucketHash
      show h.hashOps.hash h.hashKey _ % h.nBuckets = _
      rw [h.hashOps.hash_eq _ _ (hequal i)]
    rw [hhash]
    exact hdist
  · rw [hentries]
    refine FinMap.distinct_map heq hs.table.distinct fun e => ?_
    split
    · next hk => exact heq.symm _ _ hk
    · exact heq.refl _
  · intro htype
    rw [hlinks]
    exact hs.table.threaded htype
  · cases hs.sized with
    | direct hind hbuckets hle => exact .direct hind hbuckets hle
    | indirect hind hshift hbuckets hle => exact .indirect hind hshift hbuckets hle

omit [Inhabited P] in
theorem hashmapUpdate_spec (hm : Holds h m) (key value : P) :
    (h.find m key = none ∧ h.hashmapUpdate key value = some (h, Errno.ENOENT.neg)) ∨
      ∃ h', h.find m key ≠ none ∧ h.hashmapUpdate key value = some (h', 0) ∧ SameKind h h' ∧
        Holds h' (m.map fun e => if h.hashOps.equal e.1 key then (e.1, value) else e) := by
  obtain ⟨l, disp, hs, rfl⟩ := hm
  obtain ⟨idx, heq, hloc⟩ := hs.lookup key
  unfold hashmapUpdate
  rw [heq]
  cases hloc with
  | entry hidx hnil hkey hfind =>
    obtain ⟨hs', hentries⟩ := hs.setEntry hidx (h.hashOps.equal_refl _) value
    refine .inr ⟨h.setValue idx value, by rw [hfind]; exact Option.some_ne_none _, if_neg hnil,
      ⟨rfl, rfl, rfl⟩, l, disp, hs', hentries.trans ?_⟩
    -- the key that is there is equal to the one that is looked for
    apply map_congr_left
    intro e he
    rw [h.hashOps.keyEquiv.congr_right hkey]
    split
    · next hk =>
      obtain ⟨i, hi, rfl⟩ := mem_map.mp he
      have hii := hs.eq_of_equal hi hidx (h.hashOps.equal_trans _ _ _ hk (h.hashOps.equal_symm _ _ hkey))
      rw [hii]
      rfl
    · rfl
  | absent hnone hfind => exact .inl ⟨hfind, rfl⟩

/-! ## Putting -/

/-- What putting a key that is not there comes to. -/
inductive PutAbsent (h : HashmapBase P HK) (m : List (P × P)) (key value : P) (env : ResizeEnv HK) :
    HashmapBase P HK → Int → Prop where
  | put {h' : HashmapBase P HK} (hkind : SameKind h h') (hholds : Holds h' (m ++ [(key, value)])) :
      PutAbsent h m key value env h' 1
  | failed (hfailed : env.allocated = false) : PutAbsent h m key value env h Errno.ENOMEM.neg

/-- A key that is not there can be put, if buckets for the entries can be allocated. -/
def Fits (type : HashmapType) (n : Nat) : Prop := bucketsFor n ≤ maxBuckets type

instance (type : HashmapType) (n : Nat) : Decidable (Fits type n) :=
  inferInstanceAs (Decidable (_ ≤ _))

theorem Fits.mono {type : HashmapType} {k n : Nat} (hfits : Fits type n) (hle : k ≤ n) : Fits type k := by
  unfold Fits bucketsFor at *
  omega

theorem putAbsent_spec (hm : Holds h m) (hnone : h.find m key = none)
    (hfits : Fits h.type (m.length + 1)) (value : P) (env : ResizeEnv HK) :
    ∃ h' r, h.hashmapBasePutBoldly (h.bucketHash key) key value (some env) = some (h', r) ∧
      PutAbsent h m key value env h' r := by
  have hsize := hm.nEntries
  obtain ⟨l, disp, hs, rfl⟩ := hm
  have habsent : ∀ i ∈ l, h.hashOps.equal (h.bucket i).key key = false :=
    fun i hi => FinMap.ofList_eq_none.mp hnone _ (mem_map.mpr ⟨i, hi, rfl⟩)
  obtain ⟨h', r, heq, hput⟩ := hashmapBasePutBoldly_spec hs habsent value env (by rw [hsize]; exact hfits)
  refine ⟨h', r, heq, ?_⟩
  cases hput with
  | put hput =>
    exact .put ⟨hput.hashOps, hput.type, hput.sharedHashKey⟩ ⟨_, _, hput.stored, hput.entries⟩
  | failed hfailed => exact .failed hfailed

/-- Without that, the size of the new storage is not defined. -/
theorem resizeBuckets_eq_none {l : List Nat} {disp : Nat → Option Nat} (hs : Stored h l disp)
    (hfits : ¬Fits h.type (h.nEntries + 1)) (env : ResizeEnv HK) : h.resizeBuckets 1 env = none := by
  have hmax := maxBuckets_lt h.type
  have hle := hs.sized.nBuckets_le
  have hroom : maxBuckets h.type + 2 ≤ (2 ^ 32 - 1) / h.type.bucketSize := by
    cases h.type <;> decide
  have hfour : 7 ≤ maxBuckets h.type := by
    cases h.type <;> decide
  unfold Fits bucketsFor at hfits
  -- the entries that are there do have buckets
  have hind : h.hasIndirect = true ∧ h.nEntries + h.nEntries / 4 ≤ h.nBuckets := by
    cases hs.sized with
    | direct hind hbuckets hle' =>
      have hsmall := nDirectBuckets_le h.type
      omega
    | indirect hind _ _ hle' => exact ⟨hind, hle'⟩
  unfold resizeBuckets
  rw [Nat.mod_eq_of_lt (by omega)]
  rw [if_neg (by omega), if_neg (by simp [hind.1]), Nat.mod_eq_of_lt (by omega), if_neg (by omega),
    if_neg (by omega), if_neg (by omega)]
  have hshift : ¬newShift h.type (h.nEntries + 1 + (h.nEntries + 1) / 4) < 32 := by
    rw [newShift_lt_iff]
    exact hfits
  exact if_pos (Nat.not_lt.mp hshift)

theorem putBoldly_eq_none {l : List Nat} {disp : Nat → Option Nat} (hs : Stored h l disp)
    (hfits : ¬Fits h.type (h.nEntries + 1)) (key value : P) (env : ResizeEnv HK) :
    h.hashmapBasePutBoldly (h.bucketHash key) key value (some env) = none := by
  unfold hashmapBasePutBoldly
  rw [if_neg (Nat.not_le.mpr (hs.table.bucketHash_lt key))]
  dsimp only
  rw [resizeBuckets_eq_none hs hfits]

/-- What `hashmap_put` does and returns. -/
inductive PutOutcome [DecidableEq P] (h : HashmapBase P HK) (m : List (P × P)) (key value : P)
    (env : ResizeEnv HK) : HashmapBase P HK → Int → Prop where
  | found {e : P × P} (hfind : h.find m key = some e) :
      PutOutcome h m key value env h (if e.2 = value then 0 else Errno.EEXIST.neg)
  | absent {h' : HashmapBase P HK} {r : Int} (hfind : h.find m key = none)
      (hput : PutAbsent h m key value env h' r) : PutOutcome h m key value env h' r

theorem hashmapPut_spec [DecidableEq P] (hm : Holds h m) (key value : P) (env : ResizeEnv HK)
    (hfits : h.find m key = none → Fits h.type (m.length + 1)) :
    ∃ h' r, h.hashmapPut key value env = some (h', r) ∧ PutOutcome h m key value env h' r := by
  have hput := fun hnone => putAbsent_spec hm hnone (hfits hnone) value env
  obtain ⟨l, disp, hs, rfl⟩ := hm
  obtain ⟨idx, heq, hloc⟩ := hs.lookup key
  unfold hashmapPut
  rw [heq]
  cases hloc with
  | entry hidx hnil hkey hfind =>
    dsimp only
    rw [if_pos hnil, ← apply_ite some, ← apply_ite (Prod.mk h)]
    exact ⟨h, _, rfl, .found hfind⟩
  | absent hnone hfind =>
    obtain ⟨h', r, hboldly, houtcome⟩ := hput hfind
    exact ⟨h', r, hboldly, .absent hfind houtcome⟩

/-- The key is put, and buckets for it cannot be allocated. -/
theorem hashmapPut_eq_none [DecidableEq P] (hm : Holds h m) (hfind : h.find m key = none)
    (hfits : ¬Fits h.type (m.length + 1)) (value : P) (env : ResizeEnv HK) :
    h.hashmapPut key value env = none := by
  have hsize := hm.nEntries
  obtain ⟨l, disp, hs, rfl⟩ := hm
  obtain ⟨idx, heq, hloc⟩ := hs.lookup key
  unfold hashmapPut
  rw [heq]
  cases hloc with
  | entry hidx hnil hkey hfind' =>
    rw [hfind] at hfind'
    cases hfind'
  | absent hnone _ =>
    dsimp only
    rw [if_neg (not_not.mpr rfl), putBoldly_eq_none hs (by rw [hsize]; exact hfits)]

/-- What `set_put` does and returns. -/
inductive SetPutOutcome (h : HashmapBase P HK) (m : List (P × P)) (key : P) (env : ResizeEnv HK) :
    HashmapBase P HK → Int → Prop where
  | found {e : P × P} (hfind : h.find m key = some e) : SetPutOutcome h m key env h 0
  | absent {h' : HashmapBase P HK} {r : Int} (hfind : h.find m key = none)
      (hput : PutAbsent h m key default env h' r) : SetPutOutcome h m key env h' r

theorem setPut_spec (hm : Holds h m) (key : P) (env : ResizeEnv HK)
    (hfits : h.find m key = none → Fits h.type (m.length + 1)) :
    ∃ h' r, h.setPut key env = some (h', r) ∧ SetPutOutcome h m key env h' r := by
  have hput := fun hnone => putAbsent_spec hm hnone (hfits hnone) default env
  obtain ⟨l, disp, hs, rfl⟩ := hm
  obtain ⟨idx, heq, hloc⟩ := hs.lookup key
  unfold setPut
  rw [heq]
  cases hloc with
  | entry hidx hnil hkey hfind => exact ⟨h, 0, if_pos hnil, .found hfind⟩
  | absent hnone hfind =>
    obtain ⟨h', r, hboldly, houtcome⟩ := hput hfind
    exact ⟨h', r, hboldly, .absent hfind houtcome⟩

/-- What `hashmap_replace` does and returns. -/
inductive ReplaceOutcome (h : HashmapBase P HK) (m : List (P × P)) (key value : P)
    (env : ResizeEnv HK) : HashmapBase P HK → Int → Prop where
  | found {h' : HashmapBase P HK} (hfind : h.find m key ≠ none) (hkind : SameKind h h')
      (hholds : Holds h' (m.map fun e => if h.hashOps.equal e.1 key then (key, value) else e)) :
      ReplaceOutcome h m key value env h' 0
  | absent {h' : HashmapBase P HK} {r : Int} (hfind : h.find m key = none)
      (hput : PutAbsent h m key value env h' r) : ReplaceOutcome h m key value env h' r

theorem hashmapReplace_spec (hm : Holds h m) (key value : P) (env : ResizeEnv HK)
    (hfits : h.find m key = none → Fits h.type (m.length + 1)) :
    ∃ h' r, h.hashmapReplace key value env = some (h', r) ∧ ReplaceOutcome h m key value env h' r := by
  have hput := fun hnone => putAbsent_spec hm hnone (hfits hnone) value env
  obtain ⟨l, disp, hs, rfl⟩ := hm
  obtain ⟨idx, heq, hloc⟩ := hs.lookup key
  unfold hashmapReplace
  rw [heq]
  cases hloc with
  | entry hidx hnil hkey hfind =>
    obtain ⟨hs', hentries⟩ := hs.setEntry hidx hkey value
    exact ⟨h.setEntry idx key value, 0, if_pos hnil,
      .found (by rw [hfind]; exact Option.some_ne_none _) ⟨rfl, rfl, rfl⟩ ⟨l, disp, hs', hentries⟩⟩
  | absent hnone hfind =>
    obtain ⟨h', r, hboldly, houtcome⟩ := hput hfind
    exact ⟨h', r, hboldly, .absent hfind houtcome⟩

/-! ## Removing -/

/-- The entries without those of a key. -/
abbrev without (h : HashmapBase P HK) (m : List (P × P)) (key : P) : List (P × P) :=
  m.filter fun e => !h.hashOps.equal e.1 key

omit [Inhabited P] in
theorem Stored.filter_ne (hs : Stored h l disp) {idx : Nat} (hidx : idx ∈ l)
    (hkey : h.hashOps.equal (h.bucket idx).key key = true) :
    (l.filter (· ≠ idx)).map h.entry = h.without (l.map h.entry) key := by
  unfold without
  rw [filter_map]
  congr 1
  apply filter_congr
  intro i hi
  have hiff : h.hashOps.equal (h.bucket i).key key = true ↔ i = idx := by
    constructor
    · intro hk
      exact hs.eq_of_equal hi hidx (h.hashOps.equal_trans _ _ _ hk (h.hashOps.equal_symm _ _ hkey))
    · rintro rfl
      exact hkey
  show decide (i ≠ idx) = !h.hashOps.equal (h.bucket i).key key
  cases hk : h.hashOps.equal (h.bucket i).key key with
  | true => simp [hiff.mp hk]
  | false =>
    have hne : i ≠ idx := fun heq => by rw [hiff.mpr heq] at hk; cases hk
    simp [hne]

/-- An entry is removed. -/
theorem Stored.remove (hs : Stored h l disp) {idx : Nat} (hidx : idx ∈ l)
    (hkey : h.hashOps.equal (h.bucket idx).key key = true) :
    ∃ h', h.baseRemoveEntry idx = some h' ∧ SameKind h h' ∧ Holds h' (h.without (l.map h.entry) key) := by
  obtain ⟨h', k, disp', heq, hr⟩ := baseRemoveEntry_spec hs hidx
  refine ⟨h', heq, ⟨hr.hashOps, hr.type, hr.sharedHashKey⟩, _, disp', hr.stored, ?_⟩
  rw [hr.entries, hs.filter_ne hidx hkey]

theorem hashmapRemove_spec (hm : Holds h m) (key : P) :
    (h.find m key = none ∧ h.hashmapRemove key = some (h, default)) ∨
      ∃ h' e, h.find m key = some e ∧ h.hashmapRemove key = some (h', h.type.valueOf e) ∧ SameKind h h' ∧
        Holds h' (h.without m key) := by
  obtain ⟨l, disp, hs, rfl⟩ := hm
  obtain ⟨idx, heq, hloc⟩ := hs.lookup key
  unfold hashmapRemove
  rw [heq]
  cases hloc with
  | entry hidx hnil hkey hfind =>
    obtain ⟨h', hremove, hkind, hholds⟩ := hs.remove hidx hkey
    refine .inr ⟨h', h.entry idx, hfind, ?_, hkind, hholds⟩
    dsimp only
    rw [if_neg hnil, hremove, entryValue_eq]
    rfl
  | absent hnone hfind => exact .inl ⟨hfind, rfl⟩

theorem hashmapRemoveValue_spec [DecidableEq P] (hm : Holds h m) (key value : P) :
    ((h.find m key).map h.type.valueOf ≠ some value ∧
        h.hashmapRemoveValue key value = some (h, default)) ∨
      ∃ h', (h.find m key).map h.type.valueOf = some value ∧
        h.hashmapRemoveValue key value = some (h', value) ∧ SameKind h h' ∧
        Holds h' (h.without m key) := by
  obtain ⟨l, disp, hs, rfl⟩ := hm
  obtain ⟨idx, heq, hloc⟩ := hs.lookup key
  unfold hashmapRemoveValue
  rw [heq]
  cases hloc with
  | entry hidx hnil hkey hfind =>
    dsimp only
    rw [if_neg hnil, hfind, entryValue_eq, Option.map_some]
    by_cases hvalue : h.type.valueOf (h.entry idx) = value
    · obtain ⟨h', hremove, hkind, hholds⟩ := hs.remove hidx hkey
      refine .inr ⟨h', congrArg some hvalue, ?_, hkind, hholds⟩
      rw [if_neg (not_not.mpr hvalue), hremove]
      rfl
    · refine .inl ⟨fun heq => hvalue (Option.some.inj heq), if_pos hvalue⟩
  | absent hnone hfind =>
    refine .inl ⟨?_, rfl⟩
    rw [hfind]
    exact Option.some_ne_none value ∘ Eq.symm

/-- What `hashmap_remove_and_put` does and returns. -/
inductive RemoveAndPutOutcome (h : HashmapBase P HK) (m : List (P × P)) (oldKey newKey value : P) :
    HashmapBase P HK → Int → Prop where
  | missing (hold : h.find m oldKey = none) :
      RemoveAndPutOutcome h m oldKey newKey value h Errno.ENOENT.neg
  | found (hold : h.find m oldKey ≠ none) (hnew : h.find m newKey ≠ none) :
      RemoveAndPutOutcome h m oldKey newKey value h Errno.EEXIST.neg
  | moved {h' : HashmapBase P HK} (hold : h.find m oldKey ≠ none) (hnew : h.find m newKey = none)
      (hkind : SameKind h h') (hholds : Holds h' (h.without m oldKey ++ [(newKey, value)])) :
      RemoveAndPutOutcome h m oldKey newKey value h' 0

/-- There is room for as many entries as there were. -/
theorem Removed.room {idx k : Nat} {disp' : Nat → Option Nat} (hs : Stored h l disp)
    (hr : Removed h l idx k h' disp') : Room h' 1 := by
  have hentries := hr.nEntries
  have hbuckets := hr.nBuckets
  refine ⟨fun hind => ?_, fun hind => ?_⟩
  · have hle := hs.sized.nEntries_le
    omega
  · rw [hr.hasIndirect] at hind
    cases hs.sized with
    | direct hind' _ _ =>
      rw [hind] at hind'
      cases hind'
    | indirect _ _ _ hle =>
      rw [hentries, hbuckets]
      exact hle

theorem hashmapRemoveAndPut_spec (hm : Holds h m) (oldKey newKey value : P) :
    ∃ h' r, h.hashmapRemoveAndPut oldKey newKey value = some (h', r) ∧
      RemoveAndPutOutcome h m oldKey newKey value h' r := by
  obtain ⟨l, disp, hs, rfl⟩ := hm
  obtain ⟨idx, heq, hloc⟩ := hs.lookup oldKey
  unfold hashmapRemoveAndPut
  rw [heq]
  cases hloc with
  | absent hnone hfind => exact ⟨h, _, rfl, .missing hfind⟩
  | entry hidx hnil hkey hfind =>
    have hold : h.find (l.map h.entry) oldKey ≠ none := by
      rw [hfind]
      exact Option.some_ne_none _
    obtain ⟨idxNew, heqNew, hlocNew⟩ := hs.lookup newKey
    dsimp only
    rw [if_neg hnil, heqNew]
    cases hlocNew with
    | entry hidxNew hnilNew hkeyNew hfindNew =>
      exact ⟨h, _, if_pos hnilNew, .found hold (by rw [hfindNew]; exact Option.some_ne_none _)⟩
    | absent hnoneNew hfindNew =>
      obtain ⟨h₁, k, disp₁, hremove, hr⟩ := baseRemoveEntry_spec hs hidx
      have hentries := hr.entries.trans (hs.filter_ne hidx hkey)
      have habsent : ∀ i ∈ (l.filter (· ≠ idx)).map (shiftedIdx h.nBuckets idx (k - 1)),
          h₁.hashOps.equal (h₁.bucket i).key newKey = false := by
        intro i hi
        have hmem : h₁.entry i ∈ (l.filter (· ≠ idx)).map h.entry := by
          rw [← hr.entries]
          exact mem_map.mpr ⟨i, hi, rfl⟩
        obtain ⟨j, hj, hjeq⟩ := mem_map.mp hmem
        have hkey' : (h.bucket j).key = (h₁.bucket i).key := congrArg Prod.fst hjeq
        rw [hr.hashOps, ← hkey']
        exact hnoneNew j (mem_filter.mp hj).1
      obtain ⟨h', l', disp', hboldly, hput⟩ := putBoldly_of_room hr.stored (hr.room hs) habsent value
      have hhash : h₁.bucketHash newKey = h.bucketHash newKey := by
        unfold bucketHash
        rw [hr.hashOps, hr.hashKey, hr.nBuckets]
      rw [hhash] at hboldly
      refine ⟨h', 0, ?_, .moved hold hfindNew ⟨hput.hashOps.trans hr.hashOps, hput.type.trans hr.type,
        hput.sharedHashKey.trans hr.sharedHashKey⟩ ⟨l', disp', hput.stored, ?_⟩⟩
      · dsimp only
        rw [if_neg (not_not.mpr rfl), hremove]
        dsimp only
        rw [hboldly]
        rfl
      · rw [hput.entries, hentries]

end Null

end HashmapBase

end Elogind
