/-
  Elogind.Basic.HashmapLookup

  Looking for a key (base_bucket_scan), and putting a key that is not there
  (hashmap_base_put_boldly).
-/

import Elogind.Basic.HashmapRemove

namespace Elogind

open Lib Lib.RobinHood List Function HashmapBase

namespace HashmapBase

variable {P HK : Type} {h h' : HashmapBase P HK} {l : List Nat} {disp : Nat → Option Nat} {key : P}

/-! ## Looking for a key -/

/-- What is found for a key: the index of its entry, or that there is none. -/
inductive Found (h : HashmapBase P HK) (l : List Nat) (key : P) : Nat → Prop where
  | entry {idx : Nat} (hidx : idx ∈ l) (hkey : h.hashOps.equal (h.bucket idx).key key = true) :
      Found h l key idx
  | absent (hnone : ∀ i ∈ l, h.hashOps.equal (h.bucket i).key key = false) : Found h l key idxNil

/-- An entry with an equal key is in the cluster that the scan starts in. -/
theorem Stored.home_of_equal (hs : Stored h l disp) {i : Nat} (hi : i ∈ l)
    (hkey : h.hashOps.equal (h.bucket i).key key = true) :
    ∃ d, disp i = some d ∧ i = (h.bucketHash key + d) % h.nBuckets := by
  obtain ⟨d, hd⟩ := hs.exists_disp hi
  obtain ⟨hlt, -, -, hdist⟩ := hs.table.home i d hd
  have hhash : h.bucketHash (h.bucket i).key = h.bucketHash key := by
    unfold bucketHash
    rw [h.hashOps.hash_eq _ _ hkey]
  refine ⟨d, hd, ?_⟩
  rw [← hdist, hhash, bucketDistance_eq, add_distMod (hs.table.bucketHash_lt key) hlt]

/-- The scan goes on as long as an entry with the key can still come. -/
theorem bucketScanLoop_spec (hs : Stored h l disp) {n distance : Nat}
    (hle : distance ≤ h.nBuckets) (hn : distance + n = h.nBuckets + 1)
    (hahead : ∀ i ∈ l, h.hashOps.equal (h.bucket i).key key = true → ∀ d, disp i = some d → distance ≤ d) :
    ∃ idx, h.bucketScanLoop key n ((h.bucketHash key + distance) % h.nBuckets) distance = some idx ∧
      Found h l key idx := by
  induction n generalizing distance with
  | zero => omega
  | succ n ih =>
    -- were there an entry with the key, this bucket would have one as far from its home
    have hprobe : ∀ i ∈ l, h.hashOps.equal (h.bucket i).key key = true →
        ∃ e, distance ≤ e ∧ disp ((h.bucketHash key + distance) % h.nBuckets) = some e := by
      intro i hi hkey
      obtain ⟨d, hd, hat⟩ := hs.home_of_equal hi hkey
      rw [hat] at hd
      exact hs.ordered.probe hs.table.pos hd (hahead i hi hkey d (by rw [hat]; exact hd))
    have habsent : (∀ e, disp ((h.bucketHash key + distance) % h.nBuckets) = some e → e < distance) →
        Found h l key idxNil := by
      intro hno
      refine .absent fun i hi => ?_
      by_contra hkey
      obtain ⟨e, hle', he⟩ := hprobe i hi (by simpa using hkey)
      have hlt := hno e he
      omega
    have hlt : (h.bucketHash key + distance) % h.nBuckets < h.nBuckets := Nat.mod_lt _ hs.table.pos
    rw [bucketScanLoop]
    cases hd : disp ((h.bucketHash key + distance) % h.nBuckets) with
    | none =>
      rw [if_pos (hs.stops _ hlt hd).1]
      exact ⟨idxNil, rfl, habsent fun e he => by rw [hd] at he; cases he⟩
    | some d =>
      rw [if_neg (hs.table.dib_ne_free hd)]
      rw [hs.table.bucketCalculateDib_eq hd]
      by_cases hpoor : d < distance
      · rw [if_pos hpoor]
        refine ⟨idxNil, rfl, habsent fun e he => ?_⟩
        rw [hd] at he
        cases he
        exact hpoor
      rw [if_neg hpoor]
      by_cases hhere : d = distance ∧
          h.hashOps.equal (h.bucket ((h.bucketHash key + distance) % h.nBuckets)).key key = true
      · rw [if_pos hhere]
        exact ⟨_, rfl, .entry (hs.table.home _ _ hd).2.1 hhere.2⟩
      · rw [if_neg hhere]
        have hnext : h.nextIdx ((h.bucketHash key + distance) % h.nBuckets) =
            (h.bucketHash key + (distance + 1)) % h.nBuckets := succMod_add ..
        have hdlt := hs.table.disp_lt hd
        rw [hnext]
        refine ih (by omega) (by omega) fun i hi hkey e he => ?_
        have hle' := hahead i hi hkey e he
        by_contra hnot
        have heq : e = distance := by omega
        subst heq
        obtain ⟨e', he', hat⟩ := hs.home_of_equal hi hkey
        rw [he] at he'
        cases he'
        rw [← hat] at hd hhere
        rw [he] at hd
        cases hd
        exact hhere ⟨rfl, hkey⟩

theorem lookup_spec (hs : Stored h l disp) (key : P) :
    ∃ idx, h.lookup key = some idx ∧ Found h l key idx := by
  have hlt := hs.table.bucketHash_lt key
  unfold lookup baseBucketScan
  rw [if_neg (Nat.not_le.mpr hlt)]
  have hzero : (h.bucketHash key + 0) % h.nBuckets = h.bucketHash key := Nat.mod_eq_of_lt hlt
  have hloop : ∃ idx, h.bucketScanLoop key (h.nBuckets + 1) ((h.bucketHash key + 0) % h.nBuckets) 0 =
      some idx ∧ Found h l key idx :=
    bucketScanLoop_spec hs (Nat.zero_le _) (by omega) fun _ _ _ d _ => Nat.zero_le d
  rwa [hzero] at hloop

/-! ## Putting a key that is not there -/

/-- An entry is put at the end, and is still in the swap slot. -/
theorem Table.push (ht : Table h l disp) (hinside : ∀ i ∈ l, i < h.nBuckets)
    (hframe : SameFrame h h') (hdib : h'.dib = h.dib) (hlowest : h'.idxLowestEntry = h.idxLowestEntry)
    (hentry : ∀ i ∈ l, h'.entry i = h.entry i)
    (hnone : ∀ i ∈ l, h.hashOps.equal (h.bucket i).key (h'.bucket idxPut).key = false)
    (hthreaded : h'.type = .ordered → Threaded idxNil h'.links (l ++ [idxPut])) :
    Table h' (l ++ [idxPut]) disp := by
  have hput : idxPut ∉ l := fun hmem => absurd (ht.lt_idxPut (hinside _ hmem)) (Nat.lt_irrefl _)
  have hentries : (l ++ [idxPut]).map h'.entry = l.map h.entry ++ [h'.entry idxPut] := by
    rw [map_append, map_congr_left hentry]
    rfl
  refine ⟨by rw [hframe.nBuckets]; exact ht.pos, by rw [hframe.nBuckets]; exact ht.small, ?_, ?_, ?_, ?_, ?_,
    hthreaded⟩
  · rw [nodup_append]
    refine ⟨ht.nodup, nodup_singleton _, fun i hi j hj => ?_⟩
    rw [mem_singleton.mp hj]
    exact fun heq => hput (heq ▸ hi)
  · intro i hi
    rw [hframe.nBuckets]
    rcases mem_append.mp hi with hi | hi
    · exact .inl (hinside i hi)
    · exact .inr (.inl (mem_singleton.mp hi))
  · intro i d hd
    obtain ⟨hlt, hmem, hdib', hdist⟩ := ht.home i d hd
    refine ⟨by rw [hframe.nBuckets]; exact hlt, by simp [hmem], by rw [hdib]; exact hdib', ?_⟩
    have hkey : (h'.bucket i).key = (h.bucket i).key := congrArg Prod.fst (hentry i hmem)
    rw [hkey]
    unfold bucketHash bucketDistance
    rw [hframe.hashOps, hframe.hashKey, hframe.nBuckets]
    exact hdist
  · rw [hentries, hframe.hashOps, pairwise_append]
    refine ⟨ht.distinct, pairwise_singleton _ _, fun a ha b hb => ?_⟩
    obtain ⟨i, hi, rfl⟩ := mem_map.mp ha
    rw [mem_singleton.mp hb]
    exact hnone i hi
  · intro hind i hi hlt
    rw [hframe.hasIndirect] at hind
    rw [hframe.nBuckets] at hlt
    rw [hlowest]
    rcases mem_append.mp hi with hi | hi
    · exact ht.lowest hind i hi hlt
    · rw [mem_singleton.mp hi] at hlt
      exact absurd (ht.lt_idxPut hlt) (Nat.lt_irrefl _)

/-- The entry in the swap slot becomes the last of the list. -/
theorem linkLast_spec (hl : Threaded idxNil h.links l) (hnil : idxNil ∉ l) (hput : idxPut ∉ l) :
    ∃ h', h.linkLast = some h' ∧ Threaded idxNil h'.links (l ++ [idxPut]) ∧ SameFrame h h' ∧
      h'.dib = h.dib ∧ h'.idxLowestEntry = h.idxLowestEntry ∧ ∀ i, h'.entry i = h.entry i := by
  have htail := hl.tail_cases
  have hpnil : idxPut ≠ idxNil := by decide
  have htput : h.iterateListTail ≠ idxPut := by
    intro heq
    rcases htail with hnone | hmem
    · exact hpnil (heq.symm.trans hnone)
    · exact hput (heq ▸ hmem)
  -- the last entry has nothing behind it
  have hend : h.iterateListTail ≠ idxNil → (h.bucket h.iterateListTail).iterateNext = idxNil := by
    intro hne
    rcases htail with hnone | hmem
    · exact absurd hnone hne
    · exact (hl.tail_eq_iff hnil hmem).mp rfl
  unfold linkLast
  rw [if_neg]
  · refine ⟨_, rfl, ?_, ⟨rfl, rfl, rfl, rfl, rfl, rfl, rfl⟩, rfl, rfl, fun i => ?_⟩
    · refine hl.append hnil hput ?_ ?_ ?_ ?_ ?_ rfl
      · intro i hi
        have hip : i ≠ idxPut := fun heq => hput (heq ▸ hi)
        have hinil : i ≠ idxNil := fun heq => hnil (heq ▸ hi)
        show ((if h.iterateListTail ≠ idxNil then setNext _ h.iterateListTail idxPut else _) i).iterateNext =
          if i = h.iterateListTail then idxPut else (h.bucket i).iterateNext
        by_cases hit : i = h.iterateListTail
        · rw [if_pos hit, if_pos (hit ▸ hinil), next_setNext, if_pos hit]
        · split <;> simp [hit, hip]
      · intro i hi
        have hip : i ≠ idxPut := fun heq => hput (heq ▸ hi)
        show ((if h.iterateListTail ≠ idxNil then setNext _ h.iterateListTail idxPut else _)
          i).iteratePrevious = (h.bucket i).iteratePrevious
        split <;> simp [hip]
      · show ((if h.iterateListTail ≠ idxNil then setNext _ h.iterateListTail idxPut else _)
          idxPut).iterateNext = idxNil
        split <;> simp [Ne.symm htput]
      · show ((if h.iterateListTail ≠ idxNil then setNext _ h.iterateListTail idxPut else _)
          idxPut).iteratePrevious = h.iterateListTail
        split <;> simp
      · rfl
    · unfold entry
      split <;> simp
  · rintro ⟨hne, hbad⟩
    apply hbad
    rw [next_setPrevious, next_setNext, if_neg htput]
    exact hend hne

/-- What putting an entry does. -/
structure Put (h : HashmapBase P HK) (l : List Nat) (key value : P) (h' : HashmapBase P HK)
    (l' : List Nat) (disp' : Nat → Option Nat) : Prop where
  stored : Stored h' l' disp'
  entries : l'.map h'.entry = l.map h.entry ++ [(key, value)]
  hashOps : h'.hashOps = h.hashOps
  type : h'.type = h.type
  sharedHashKey : h'.sharedHashKey = h.sharedHashKey

theorem Stored.mem_placed (hs : Stored h l disp) {i : Nat} : i ∈ placed h.nBuckets disp ↔ i ∈ l := by
  unfold placed
  rw [Finset.mem_filter, Finset.mem_range, Option.isSome_iff_exists]
  constructor
  · rintro ⟨-, d, hd⟩
    exact (hs.table.home i d hd).2.1
  · exact fun hi => ⟨hs.inside i hi, hs.exists_disp hi⟩

/-- With the new entry in the swap slot, and in the list. -/
theorem Stored.loaded (hs : Stored h l disp) (hroom : h.nEntries < h.nBuckets)
    (hnone : ∀ i ∈ l, h.hashOps.equal (h.bucket i).key key = false) (value : P) :
    ∃ k, (if h.type = .ordered then
          HashmapBase.linkLast
            { h with bucket := Function.update h.bucket idxPut { key := key, value := value } }
        else some { h with bucket := Function.update h.bucket idxPut { key := key, value := value } }) =
        some k ∧
      Loaded k (l ++ [idxPut]) disp ∧ SameFrame h k ∧ k.dib = h.dib ∧
      (l ++ [idxPut]).map k.entry = l.map h.entry ++ [(key, value)] ∧ (k.bucket idxPut).key = key := by
  obtain ⟨ht₁, hentries₁⟩ := hs.table.setBucket hs.idxPut_not_mem { key := key, value := value }
  have hsame₁ : ∀ i ∈ l, entry
      { h with bucket := update h.bucket idxPut { key := key, value := value } } i = h.entry i := by
    intro i hi
    have hne : i ≠ idxPut := fun heq => hs.idxPut_not_mem (heq ▸ hi)
    unfold entry
    dsimp only
    rw [update_of_ne hne]
  have hslot₁ : entry
      { h with bucket := update h.bucket idxPut { key := key, value := value } } idxPut =
      (key, value) := by
    unfold entry
    dsimp only
    rw [update_self]
  have hframe₁ : SameFrame h
      { h with bucket := update h.bucket idxPut { key := key, value := value } } :=
    ⟨rfl, rfl, rfl, rfl, rfl, rfl, rfl⟩
  have hdib₁ : dib
      { h with bucket := update h.bucket idxPut { key := key, value := value } } = h.dib := rfl
  have hlow₁ : idxLowestEntry
      { h with bucket := update h.bucket idxPut { key := key, value := value } } =
      h.idxLowestEntry := rfl
  generalize { h with bucket := update h.bucket idxPut { key := key, value := value } } = h₁
    at ht₁ hsame₁ hslot₁ hframe₁ hdib₁ hlow₁ ⊢
  -- in the list or not, nothing else changes
  have hlink : ∃ k, (if h.type = .ordered then h₁.linkLast else some h₁) = some k ∧ SameFrame h k ∧
      k.dib = h.dib ∧ k.idxLowestEntry = h.idxLowestEntry ∧ (∀ i, k.entry i = h₁.entry i) ∧
      (k.type = .ordered → Threaded idxNil k.links (l ++ [idxPut])) := by
    by_cases htype : h.type = .ordered
    · rw [if_pos htype]
      obtain ⟨k, hk, hthreaded, hframe, hdib, hlow, hentry⟩ := linkLast_spec
        (ht₁.threaded (hframe₁.type.trans htype)) ht₁.idxNil_not_mem hs.idxPut_not_mem
      exact ⟨k, hk, hframe₁.trans hframe, hdib.trans hdib₁, hlow.trans hlow₁, hentry, fun _ => hthreaded⟩
    · rw [if_neg htype]
      exact ⟨h₁, rfl, hframe₁, hdib₁, hlow₁, fun _ => rfl, fun ht => absurd (hframe₁.type.symm.trans ht) htype⟩
  obtain ⟨k, hk, hframe, hdib, hlow, hentry, hthreaded⟩ := hlink
  have hkslot : k.entry idxPut = (key, value) := (hentry idxPut).trans hslot₁
  have hkey : (k.bucket idxPut).key = key := congrArg Prod.fst hkslot
  have hksame : ∀ i ∈ l, k.entry i = h.entry i := fun i hi => (hentry i).trans (hsame₁ i hi)
  have htable : Table k (l ++ [idxPut]) disp :=
    hs.table.push hs.inside hframe hdib hlow hksame (by rw [hkey]; exact hnone) hthreaded
  refine ⟨k, hk, ⟨htable, by rw [hframe.nBuckets]; exact hs.ordered, by simp, ?_, ?_, ?_⟩, hframe, hdib, ?_,
    hkey⟩
  · intro hmem
    rcases mem_append.mp hmem with hmem | hmem
    · exact hs.idxTmp_not_mem hmem
    · exact absurd (mem_singleton.mp hmem) (by decide)
  · intro i hi hd
    rw [hframe.nBuckets] at hi
    obtain ⟨hfree, hmem⟩ := hs.stops i hi hd
    refine .inl ⟨by rw [hdib]; exact hfree, fun hmem' => ?_⟩
    rcases mem_append.mp hmem' with hmem' | hmem'
    · exact hmem hmem'
    · rw [mem_singleton.mp hmem'] at hi
      exact absurd (hs.table.lt_idxPut hi) (Nat.lt_irrefl _)
  · have hsize := hs.size
    rw [length_append, hframe.nBuckets]
    show l.length + 1 ≤ h.nBuckets
    omega
  · rw [map_append, map_congr_left hksame]
    show _ ++ [k.entry idxPut] = _
    rw [hkslot]

theorem putEntry_spec (hs : Stored h l disp) (hroom : Room h 1)
    (hnone : ∀ i ∈ l, h.hashOps.equal (h.bucket i).key key = false) (value : P) :
    ∃ h' l' disp', h.putEntry (h.bucketHash key) key value = some (h', 1) ∧
      Put h l key value h' l' disp' := by
  have hlt : h.nEntries < h.nBuckets := by
    cases hind : h.hasIndirect with
    | false =>
      have hle := hroom.direct hind
      omega
    | true =>
      have hle := hroom.indirect hind
      omega
  obtain ⟨k, hk, hloaded, hframe, hdib, hentries, hkey⟩ := hs.loaded hlt hnone value
  obtain ⟨h', l', disp', r, heq, hsettled⟩ := hashmapPutRobinHood_spec hloaded
  have hhash : k.bucketHash (k.bucket idxPut).key = h.bucketHash key := by
    unfold bucketHash
    rw [hkey, hframe.hashOps, hframe.hashKey, hframe.nBuckets]
  rw [hhash] at heq
  -- no entry is marked as one to be rehashed
  have hnomark : ∀ i < h'.nBuckets, h'.dib i ≠ dibRawRehash := by
    intro i hi hmark
    have hmark' := hsettled.rehash i hmark
    rw [hdib] at hmark'
    rw [hsettled.frame.nBuckets, hframe.nBuckets] at hi
    exact hs.dib_ne_rehash hi hmark'
  have hstops : ∀ i < h'.nBuckets, disp' i = none → h'.dib i = dibRawFree ∧ i ∉ l' := by
    intro i hi hd
    rcases hsettled.stops i hi hd with hfree | ⟨hmark, -⟩
    · exact hfree
    · exact absurd hmark (hnomark i hi)
  have hlen : l'.length = l.length + 1 := by
    have hmap := congrArg length (hsettled.entries.trans hentries)
    rw [length_map, length_append, length_map] at hmap
    exact hmap
  have hframe' := hframe.trans hsettled.frame
  -- every entry is in its bucket, so that none was left in the swap slot
  have hr : r = false := by
    cases hr : r with
    | false => rfl
    | true =>
      have hold : (placed h.nBuckets disp).card = l.length := by
        rw [← toFinset_card_of_nodup hs.table.nodup]
        congr 1
        ext i
        rw [hs.mem_placed, mem_toFinset]
      have hsub : placed h.nBuckets disp' ⊆ l'.toFinset.erase idxPut := by
        intro i hi
        obtain ⟨hlt', hsome⟩ := Finset.mem_filter.mp hi
        obtain ⟨d, hd⟩ := Option.isSome_iff_exists.mp hsome
        have hi' := Finset.mem_range.mp hlt'
        rw [Finset.mem_erase, mem_toFinset]
        exact ⟨Nat.ne_of_lt (hs.table.lt_idxPut hi'), (hsettled.table.home i d hd).2.1⟩
      have hcard := Finset.card_le_card hsub
      rw [Finset.card_erase_of_mem (mem_toFinset.mpr (hsettled.put.mpr hr)),
        toFinset_card_of_nodup hsettled.table.nodup] at hcard
      have hnew := hsettled.card
      rw [hframe.nBuckets] at hnew
      omega
  subst hr
  have hput : idxPut ∉ l' := fun hmem => by cases hsettled.put.mp hmem
  have hinside : ∀ i ∈ l', i < h'.nBuckets := by
    intro i hi
    rcases hsettled.table.range i hi with hlt' | rfl | rfl
    · exact hlt'
    · exact absurd hi hput
    · exact absurd hi hsettled.tmp
  refine ⟨{ h' with nEntries := h'.nEntries + 1 }, l', disp', ?_, ⟨?_, hsettled.entries.trans hentries,
    hframe'.hashOps, hframe'.type, hframe'.sharedHashKey⟩⟩
  · unfold putEntry
    rw [if_neg (Nat.not_le.mpr hlt)]
    dsimp only
    rw [hk]
    dsimp only
    rw [heq]
  · refine ⟨{ hsettled.table with }, hsettled.ordered, hinside, hstops, ?_, ?_, hsettled.anchor⟩
    · show h'.nEntries + 1 = l'.length
      rw [hlen, hframe'.nEntries, hs.size]
    · have hentries' := hframe'.nEntries
      have hbuckets' := hframe'.nBuckets
      cases hs.sized with
      | direct hind hbuckets _ =>
        refine .direct (hframe'.hasIndirect.trans hind) ?_ ?_
        · show h'.nBuckets = h'.type.nDirectBuckets
          rw [hbuckets', hframe'.type]
          exact hbuckets
        · show h'.nEntries + 1 ≤ h'.nBuckets
          omega
      | indirect hind hshift hbuckets _ =>
        have hle := hroom.indirect hind
        refine .indirect (hframe'.hasIndirect.trans hind) hshift ?_ ?_
        · show h'.nBuckets = _ / h'.type.bucketSize
          rw [hbuckets', hframe'.type]
          exact hbuckets
        · show h'.nEntries + 1 + (h'.nEntries + 1) / 4 ≤ h'.nBuckets
          omega

/-- What putting a key that is not there comes to: the entry is put, or there was no
    memory and nothing has changed. -/
inductive PutBoldly (h : HashmapBase P HK) (l : List Nat) (disp : Nat → Option Nat) (key value : P)
    (env : ResizeEnv HK) : HashmapBase P HK → Int → Prop where
  | put {h' : HashmapBase P HK} {l' : List Nat} {disp' : Nat → Option Nat}
      (hput : Put h l key value h' l' disp') : PutBoldly h l disp key value env h' 1
  | failed (hfailed : env.allocated = false) : PutBoldly h l disp key value env h Errno.ENOMEM.neg

section Boldly

variable [Inhabited P]

theorem hashmapBasePutBoldly_spec (hs : Stored h l disp)
    (hnone : ∀ i ∈ l, h.hashOps.equal (h.bucket i).key key = false) (value : P) (env : ResizeEnv HK)
    (hfits : bucketsFor (h.nEntries + 1) ≤ maxBuckets h.type) :
    ∃ h' r, h.hashmapBasePutBoldly (h.bucketHash key) key value (some env) = some (h', r) ∧
      PutBoldly h l disp key value env h' r := by
  unfold hashmapBasePutBoldly
  rw [if_neg (Nat.not_le.mpr (hs.table.bucketHash_lt key))]
  obtain ⟨h₁, r, heq, hresized⟩ := resizeBuckets_spec hs 1 env hfits
  dsimp only
  rw [heq]
  cases hresized with
  | kept hroom =>
    obtain ⟨h', l', disp', hput, hspec⟩ := putEntry_spec hs hroom hnone value
    exact ⟨h', 1, hput, .put hspec⟩
  | failed hfailed => exact ⟨h, _, rfl, .failed hfailed⟩
  | @grown _ l₁ disp₁ hs₁ hentries hroom hops htype hshared hsize =>
    have hnone₁ : ∀ i ∈ l₁, h₁.hashOps.equal (h₁.bucket i).key key = false := by
      intro i hi
      have hmem : h₁.entry i ∈ l.map h.entry := by
        rw [← hentries]
        exact mem_map.mpr ⟨i, hi, rfl⟩
      obtain ⟨j, hj, heq'⟩ := mem_map.mp hmem
      have hkey : (h.bucket j).key = (h₁.bucket i).key := congrArg Prod.fst heq'
      rw [hops, ← hkey]
      exact hnone j hj
    obtain ⟨h', l', disp', hput, hspec⟩ := putEntry_spec hs₁ hroom hnone₁ value
    refine ⟨h', 1, hput, .put ⟨hspec.stored, ?_, hspec.hashOps.trans hops, hspec.type.trans htype,
      hspec.sharedHashKey.trans hshared⟩⟩
    · rw [hspec.entries, hentries]

/-- In a hashmap from which an entry was just removed there is room for another. -/
theorem putBoldly_of_room (hs : Stored h l disp) (hroom : Room h 1)
    (hnone : ∀ i ∈ l, h.hashOps.equal (h.bucket i).key key = false) (value : P) :
    ∃ h' l' disp', h.hashmapBasePutBoldly (h.bucketHash key) key value none = some (h', 1) ∧
      Put h l key value h' l' disp' := by
  unfold hashmapBasePutBoldly
  rw [if_neg (Nat.not_le.mpr (hs.table.bucketHash_lt key))]
  exact putEntry_spec hs hroom hnone value

end Boldly

end HashmapBase

end Elogind
