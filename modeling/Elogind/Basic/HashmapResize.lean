/-
  Elogind.Basic.HashmapResize

  Rehashing in place (resize_buckets).  The entries whose bucket is not yet known are
  marked; each is taken into the swap slot and put, which may bring another marked
  entry into the slot.
-/

import Elogind.Basic.HashmapPut

namespace Elogind

open Lib Lib.RobinHood Function List

namespace HashmapBase

variable {P HK : Type} {h h' : HashmapBase P HK} {l l' : List Nat} {disp : Nat → Option Nat}

/-! ## Sizes -/

theorem log2uRoundUp_le_iff {x k : Nat} (hx : 1 < x) : log2uRoundUp x ≤ k ↔ x ≤ 2 ^ k := by
  unfold log2uRoundUp
  rw [if_neg (by omega), Nat.succ_le_iff, Nat.log2_lt (by omega)]
  omega

/-- The storage is as large as it has to be for its entries. -/
inductive Sized (h : HashmapBase P HK) : Prop where
  | direct (hind : h.hasIndirect = false) (hbuckets : h.nBuckets = h.type.nDirectBuckets)
      (hentries : h.nEntries ≤ h.nBuckets)
  | indirect (hind : h.hasIndirect = true) {shift : Nat} (hshift : shift < 32)
      (hbuckets : h.nBuckets = 2 ^ shift / h.type.bucketSize)
      (hentries : h.nEntries + h.nEntries / 4 ≤ h.nBuckets)

/-- As many entries as there is room for. -/
def maxBuckets (type : HashmapType) : Nat := 2 ^ 31 / type.bucketSize

theorem Sized.nEntries_le (hs : Sized h) : h.nEntries ≤ h.nBuckets := by
  cases hs with
  | direct _ _ hentries => exact hentries
  | indirect _ _ _ hentries => omega

theorem nDirectBuckets_le (type : HashmapType) : type.nDirectBuckets ≤ 4 := by
  cases type <;> decide

theorem bucketSize_pos (type : HashmapType) : 0 < type.bucketSize := Nat.succ_pos _

theorem Sized.nBuckets_le (hs : Sized h) : h.nBuckets ≤ maxBuckets h.type := by
  cases hs with
  | direct _ hbuckets _ =>
    rw [hbuckets]
    cases h.type <;> decide
  | @indirect _ shift hshift hbuckets _ =>
    rw [hbuckets]
    exact Nat.div_le_div_right (Nat.pow_le_pow_right (by decide) (by omega))

/-! ## Tables at rest -/

/-- A table in which every entry is in its bucket. -/
structure Stored (h : HashmapBase P HK) (l : List Nat) (disp : Nat → Option Nat) : Prop where
  table : Table h l disp
  ordered : Ordered h.nBuckets disp
  inside : ∀ i ∈ l, i < h.nBuckets
  stops : ∀ i < h.nBuckets, disp i = none → h.dib i = dibRawFree ∧ i ∉ l
  size : h.nEntries = l.length
  sized : Sized h
  anchor : ∃ i < h.nBuckets, ∀ d, disp i = some d → d = 0

namespace Stored

theorem idxPut_not_mem (hs : Stored h l disp) : idxPut ∉ l :=
  fun hmem => absurd (hs.table.lt_idxPut (hs.inside _ hmem)) (Nat.lt_irrefl _)

theorem idxTmp_not_mem (hs : Stored h l disp) : idxTmp ∉ l := by
  intro hmem
  have hlt := hs.table.lt_idxPut (hs.inside _ hmem)
  exact absurd hlt (by decide)

theorem exists_disp (hs : Stored h l disp) {i : Nat} (hi : i ∈ l) : ∃ d, disp i = some d := by
  cases hd : disp i with
  | none => exact absurd hi (hs.stops i (hs.inside i hi) hd).2
  | some d => exact ⟨d, rfl⟩

theorem dib_ne_rehash (hs : Stored h l disp) {i : Nat} (hi : i < h.nBuckets) :
    h.dib i ≠ dibRawRehash := by
  cases hd : disp i with
  | none =>
    rw [(hs.stops i hi hd).1]
    decide
  | some d => exact Nat.ne_of_lt (hs.table.dib_lt hd)

end Stored

/-- A bucket that is not in use may hold anything. -/
theorem Table.setBucket (ht : Table h l disp) {i : Nat} (hi : i ∉ l) (e : HashmapEntry P) :
    Table { h with bucket := Function.update h.bucket i e } l disp ∧
      l.map (HashmapBase.entry { h with bucket := Function.update h.bucket i e }) = l.map h.entry := by
  have hsame : ∀ j ∈ l, update h.bucket i e j = h.bucket j := by
    intro j hj
    apply update_of_ne
    rintro rfl
    exact hi hj
  have hentries : l.map (HashmapBase.entry { h with bucket := update h.bucket i e }) =
      l.map h.entry := by
    apply map_congr_left
    intro j hj
    unfold entry
    dsimp only
    rw [hsame j hj]
  refine ⟨?_, hentries⟩
  exact { ht with
    home := by
      intro j d hd
      obtain ⟨hlt, hmem, hdib, hdist⟩ := ht.home j d hd
      refine ⟨hlt, hmem, hdib, ?_⟩
      dsimp only
      rw [hsame j hmem]
      exact hdist
    distinct := by
      rw [hentries]
      exact ht.distinct
    threaded := by
      intro htype
      refine (ht.threaded htype).congr (fun j hj => ?_) (fun j hj => ?_) rfl rfl
      · exact congrArg HashmapEntry.iterateNext (hsame j hj)
      · exact congrArg HashmapEntry.iteratePrevious (hsame j hj) }

section Null

variable [Inhabited P]

/-- A table of which some entries are still to be rehashed. -/
structure Rehashing (h : HashmapBase P HK) (l : List Nat) (disp : Nat → Option Nat)
    (idx old nRehashed : Nat) : Prop where
  table : Table h l disp
  ordered : Ordered h.nBuckets disp
  inside : ∀ i ∈ l, i < h.nBuckets
  stops : ∀ i < h.nBuckets, disp i = none →
    (h.dib i = dibRawFree ∧ i ∉ l) ∨ (h.dib i = dibRawRehash ∧ i ∈ l)
  room : l.length < h.nBuckets
  card : nRehashed = (placed h.nBuckets disp).card
  marked : ∀ i < h.nBuckets, h.dib i = dibRawRehash → idx ≤ i ∧ i < old

/-- What the inner loop comes to. -/
structure Rehashed (h : HashmapBase P HK) (l : List Nat) (disp : Nat → Option Nat) (nRehashed : Nat)
    (h' : HashmapBase P HK) (l' : List Nat) (disp' : Nat → Option Nat) (nRehashed' : Nat) : Prop where
  frame : SameFrame h h'
  table : Table h' l' disp'
  ordered : Ordered h'.nBuckets disp'
  entries : l'.map h'.entry = l.map h.entry
  put : idxPut ∉ l'
  tmp : idxTmp ∉ l'
  stops : ∀ i < h'.nBuckets, disp' i = none →
    (h'.dib i = dibRawFree ∧ i ∉ l') ∨ (h'.dib i = dibRawRehash ∧ i ∈ l')
  card : nRehashed' + (placed h.nBuckets disp).card = nRehashed + (placed h.nBuckets disp').card
  rehash : ∀ i, h'.dib i = dibRawRehash → h.dib i = dibRawRehash

omit [Inhabited P] in
theorem rehashEntry_spec {n : Nat} (nRehashed : Nat) (hl : Loaded h l disp)
    (hfuel : h.nBuckets ≤ (placed h.nBuckets disp).card + n) :
    ∃ h' l' disp' nRehashed', rehashEntry n h (h.bucketHash (h.bucket idxPut).key) nRehashed =
        some (h', nRehashed') ∧ Rehashed h l disp nRehashed h' l' disp' nRehashed' := by
  induction n generalizing h l disp nRehashed with
  | zero =>
    -- there is still an empty bucket
    obtain ⟨i, hi, hnone⟩ := hl.exists_free
    have hcard := card_placed_put hi hnone 0
    have hle := card_placed_le h.nBuckets (update disp i (some 0))
    omega
  | succ n ih =>
    obtain ⟨k, l₁, disp₁, r, heq, hs⟩ := hashmapPutRobinHood_spec hl
    have hcard := hs.card
    rw [rehashEntry, heq]
    cases r with
    | false =>
      refine ⟨k, l₁, disp₁, _, rfl, hs.frame, hs.table, hs.ordered, hs.entries, ?_, hs.tmp, hs.stops, ?_,
        hs.rehash⟩
      · intro hmem
        cases hs.put.mp hmem
      · omega
    | true =>
      have hlen : l₁.length = l.length := by
        have hmap := congrArg length hs.entries
        rwa [length_map, length_map] at hmap
      have hloaded : Loaded k l₁ disp₁ :=
        ⟨hs.table, hs.ordered, hs.put.mpr rfl, hs.tmp, hs.stops, by
          rw [hlen, hs.frame.nBuckets]
          exact hl.room⟩
      have hfuel' : k.nBuckets ≤ (placed k.nBuckets disp₁).card + n := by
        rw [hs.frame.nBuckets]
        omega
      obtain ⟨h', l', disp', nRehashed', hloop, hr⟩ := ih (nRehashed + 1) hloaded hfuel'
      have hcard' := hr.card
      rw [hs.frame.nBuckets] at hcard'
      refine ⟨h', l', disp', nRehashed', hloop, hs.frame.trans hr.frame, hr.table, hr.ordered,
        hr.entries.trans hs.entries, hr.put, hr.tmp, hr.stops, ?_, fun i hi => hs.rehash i (hr.rehash i hi)⟩
      omega

namespace Rehashing

variable {idx old nRehashed : Nat}

omit [Inhabited P] in
theorem disp_eq_none (hr : Rehashing h l disp idx old nRehashed) {i : Nat}
    (hmark : h.dib i = dibRawRehash) : disp i = none := by
  cases hd : disp i with
  | none => rfl
  | some d =>
    have hlt := hr.table.dib_lt hd
    omega

omit [Inhabited P] in
theorem mem (hr : Rehashing h l disp idx old nRehashed) {i : Nat} (hi : i < h.nBuckets)
    (hmark : h.dib i = dibRawRehash) : i ∈ l := by
  rcases hr.stops i hi (hr.disp_eq_none hmark) with hfree | hfree
  · rw [hmark] at hfree
    cases hfree.1
  · exact hfree.2

omit [Inhabited P] in
/-- The entry is already where it belongs. -/
theorem keep (hr : Rehashing h l disp idx old nRehashed) (hidx : idx < h.nBuckets)
    (hmark : h.dib idx = dibRawRehash) (hopt : h.bucketHash (h.bucket idx).key = idx) :
    Rehashing { h with dib := Function.update h.dib idx 0 } l (Function.update disp idx (some 0))
      (idx + 1) old (nRehashed + 1) := by
  have hnone := hr.disp_eq_none hmark
  refine ⟨?_, ?_, hr.inside, ?_, hr.room, ?_, ?_⟩
  · refine (hr.table.setDib hnone 0).place hidx (hr.mem hidx hmark) ?_ ?_
    · exact update_self ..
    · show h.bucketDistance idx (h.bucketHash (h.bucket idx).key) = 0
      rw [hopt, bucketDistance_eq, distMod_self]
  · refine hr.ordered.put (.inl rfl) ?_
    intro e he
    rw [hnone] at he
    cases he
  · intro i hi hd
    have hne : i ≠ idx := by
      rintro rfl
      rw [update_self] at hd
      cases hd
    rw [update_of_ne hne] at hd
    dsimp only
    rw [update_of_ne hne]
    exact hr.stops i hi hd
  · rw [hr.card]
    exact (card_placed_put hidx hnone 0).symm
  · intro i hi hdib
    replace hdib : update h.dib idx 0 i = dibRawRehash := hdib
    by_cases hne : i = idx
    · rw [hne, update_self] at hdib
      cases hdib
    · rw [update_of_ne hne] at hdib
      have hbound := hr.marked i hi hdib
      omega

omit [Inhabited P] in
theorem idxPut_not_mem (hr : Rehashing h l disp idx old nRehashed) : idxPut ∉ l :=
  fun hmem => absurd (hr.table.lt_idxPut (hr.inside _ hmem)) (Nat.lt_irrefl _)

/-- The entry is taken into the swap slot. -/
theorem load (hr : Rehashing h l disp idx old nRehashed) (hidx : idx < h.nBuckets)
    (hmark : h.dib idx = dibRawRehash) :
    ∃ l', Loaded (h.takeOut idx) l' disp ∧ l'.map (h.takeOut idx).entry = l.map h.entry ∧
      ((h.takeOut idx).bucket idxPut).key = (h.bucket idx).key := by
  have hnone := hr.disp_eq_none hmark
  have hmem := hr.mem hidx hmark
  have hne : idxPut ≠ idx := Nat.ne_of_gt (hr.table.lt_idxPut hidx)
  obtain ⟨h₁, e₁⟩ := (hr.table.setDib hnone dibRawFree).move hmem hr.idxPut_not_mem hnone
    (.inr (.inl rfl)) fun _ hlt => absurd (hr.table.lt_idxPut hlt) (Nat.lt_irrefl _)
  have m₁ : ∀ i, i ∈ l.map (Threaded.renamed idx idxPut) ↔ i = idxPut ∨ i ∈ l ∧ i ≠ idx :=
    fun i => Threaded.mem_map_renamed hmem
  have hout : idx ∉ l.map (Threaded.renamed idx idxPut) := by
    rw [m₁]
    rintro (heq | ⟨-, heq⟩)
    · exact hne heq.symm
    · exact heq rfl
  obtain ⟨h₂, e₂⟩ := h₁.setBucket hout zeroEntry
  refine ⟨l.map (Threaded.renamed idx idxPut), ⟨h₂, hr.ordered, (m₁ _).mpr (.inl rfl), ?_, ?_, ?_⟩,
    e₂.trans e₁, ?_⟩
  · rw [m₁]
    rintro (heq | ⟨htmp, -⟩)
    · cases heq
    · have hlt := hr.table.lt_idxPut (hr.inside _ htmp)
      exact absurd hlt (by decide)
  · intro i hi hd
    have hnput : i ≠ idxPut := Nat.ne_of_lt (hr.table.lt_idxPut hi)
    rw [m₁]
    show (update h.dib idx dibRawFree i = dibRawFree ∧ _) ∨
      (update h.dib idx dibRawFree i = dibRawRehash ∧ _)
    by_cases hi' : i = idx
    · subst hi'
      rw [update_self]
      exact .inl ⟨rfl, by simp [hnput]⟩
    · simpa [hi', hnput] using hr.stops i hi hd
  · rw [length_map]
    exact Nat.le_of_lt hr.room
  · unfold takeOut
    dsimp only
    rw [update_of_ne hne, key_bucketMoveEntry, if_pos rfl]

end Rehashing

theorem sameFrame_takeOut (h : HashmapBase P HK) (idx : Nat) : SameFrame h (h.takeOut idx) :=
  ⟨rfl, rfl, rfl, rfl, rfl, rfl, rfl⟩

theorem rehashBuckets_spec {old : Nat} (n : Nat) {idx nRehashed : Nat} (hold : idx + n = old)
    (hle : old ≤ h.nBuckets) (hr : Rehashing h l disp idx old nRehashed) :
    ∃ h' l' disp' nRehashed', h.rehashBuckets idx nRehashed n = some (h', nRehashed') ∧
      SameFrame h h' ∧ l'.map h'.entry = l.map h.entry ∧
      Rehashing h' l' disp' old old nRehashed' := by
  induction n generalizing h l disp idx nRehashed with
  | zero =>
    obtain rfl : idx = old := hold
    exact ⟨h, l, disp, nRehashed, rfl, .refl h, rfl, hr⟩
  | succ n ih =>
    have hidx : idx < h.nBuckets := by omega
    rw [rehashBuckets]
    by_cases hmark : h.dib idx = dibRawRehash
    · rw [if_neg (not_not.mpr hmark)]
      dsimp only
      split
      · next hopt =>
        -- the entry is at home in its bucket
        obtain ⟨h', l', disp', nRehashed', heq, hframe, hentries, hend⟩ :=
          ih (by omega) (by exact hle) (hr.keep hidx hmark hopt)
        exact ⟨h', l', disp', nRehashed', heq,
          ⟨hframe.hashOps, hframe.type, hframe.sharedHashKey, hframe.hashKey, hframe.hasIndirect,
            hframe.nEntries, hframe.nBuckets⟩, hentries, hend⟩
      · obtain ⟨l₁, hl, hentries₁, hkey⟩ := hr.load hidx hmark
        have hframe₁ := sameFrame_takeOut h idx
        obtain ⟨k, l₂, disp₂, c, heq, hs⟩ := rehashEntry_spec (n := h.nBuckets) nRehashed hl (by
          show h.nBuckets ≤ (placed h.nBuckets disp).card + h.nBuckets
          omega)
        have hopt : (h.takeOut idx).bucketHash ((h.takeOut idx).bucket idxPut).key =
            h.bucketHash (h.bucket idx).key := by
          rw [hkey]
          rfl
        rw [hopt] at heq
        rw [heq]
        have hlen : l₂.length = l.length := by
          have hmap := congrArg length (hs.entries.trans hentries₁)
          rwa [length_map, length_map] at hmap
        have hbuckets : k.nBuckets = h.nBuckets := (hframe₁.trans hs.frame).nBuckets
        -- the loop goes on after the entry and those that it displaced have settled
        have hnext : Rehashing k l₂ disp₂ (idx + 1) old c := by
          refine ⟨hs.table, hs.ordered, ?_, hs.stops, ?_, ?_, ?_⟩
          · intro i hi
            rcases hs.table.range i hi with hlt | rfl | rfl
            · exact hlt
            · exact absurd hi hs.put
            · exact absurd hi hs.tmp
          · rw [hlen, hbuckets]
            exact hr.room
          · have hsum := hs.card
            replace hsum : c + (placed h.nBuckets disp).card =
              nRehashed + (placed h.nBuckets disp₂).card := hsum
            rw [hbuckets]
            have hold := hr.card
            omega
          · intro i hi hdib
            have hdib' := hs.rehash i hdib
            replace hdib' : update h.dib idx dibRawFree i = dibRawRehash := hdib'
            by_cases hne : i = idx
            · rw [hne, update_self] at hdib'
              cases hdib'
            · rw [update_of_ne hne] at hdib'
              rw [hbuckets] at hi
              have hbound := hr.marked i hi hdib'
              omega
        obtain ⟨h', l', disp', nRehashed', hloop, hframe, hentries, hend⟩ :=
          ih (by omega) (by rw [hbuckets]; exact hle) hnext
        exact ⟨h', l', disp', nRehashed', hloop, (hframe₁.trans hs.frame).trans hframe,
          hentries.trans (hs.entries.trans hentries₁), hend⟩
    · rw [if_pos hmark]
      have hnext : Rehashing h l disp (idx + 1) old nRehashed :=
        { hr with
          marked := by
            intro i hi hdib
            have hbound := hr.marked i hi hdib
            have hne : i ≠ idx := fun heq => hmark (heq ▸ hdib)
            omega }
      exact ih (by omega) hle hnext

/-! ## Resizing -/

/-- There is room for more entries. -/
structure Room (h : HashmapBase P HK) (entriesAdd : Nat) : Prop where
  direct : h.hasIndirect = false → h.nEntries + entriesAdd ≤ h.nBuckets
  indirect : h.hasIndirect = true →
    h.nEntries + entriesAdd + (h.nEntries + entriesAdd) / 4 ≤ h.nBuckets

/-- What `resize_buckets` does and returns. -/
inductive Resized (h : HashmapBase P HK) (l : List Nat) (entriesAdd : Nat) (env : ResizeEnv HK) :
    HashmapBase P HK → Int → Prop where
  | kept (hroom : Room h entriesAdd) : Resized h l entriesAdd env h 0
  | failed (hfailed : env.allocated = false) : Resized h l entriesAdd env h Errno.ENOMEM.neg
  | grown {h' : HashmapBase P HK} {l' : List Nat} {disp' : Nat → Option Nat}
      (hs : Stored h' l' disp') (hentries : l'.map h'.entry = l.map h.entry)
      (hroom : Room h' entriesAdd) (hops : h'.hashOps = h.hashOps) (htype : h'.type = h.type)
      (hshared : h'.sharedHashKey = h.sharedHashKey) (hsize : h'.nEntries = h.nEntries) :
      Resized h l entriesAdd env h' 1

theorem maxBuckets_lt (type : HashmapType) : maxBuckets type < 2 ^ 30 := by
  cases type <;> decide

/-- Before anything is rehashed. -/
theorem Stored.reallocated (hs : Stored h l disp) (hashKey : HK) {newShift : Nat}
    (hshift : newShift < 32) (hgrow : h.nBuckets < 2 ^ newShift / h.type.bucketSize) :
    Rehashing (h.reallocated hashKey newShift) l (fun _ => none) 0 h.nBuckets 0 ∧
      l.map (h.reallocated hashKey newShift).entry = l.map h.entry := by
  have hsame : ∀ i ∈ l, (h.reallocated hashKey newShift).bucket i = h.bucket i := by
    intro i hi
    have hlt := hs.inside i hi
    exact if_neg (by omega)
  have hentries : l.map (h.reallocated hashKey newShift).entry = l.map h.entry := by
    apply map_congr_left
    intro i hi
    unfold entry
    rw [hsame i hi]
  have hbuckets : 2 ^ newShift / h.type.bucketSize ≤ 2 ^ 31 :=
    Nat.le_trans (Nat.div_le_self ..) (Nat.pow_le_pow_right (by decide) (by omega))
  -- before, the buckets in use were those that are not free
  have hused : ∀ i < h.nBuckets, h.dib i ≠ dibRawFree → i ∈ l := by
    intro i hi hdib
    cases hd : disp i with
    | none => exact absurd (hs.stops i hi hd).1 hdib
    | some d => exact (hs.table.home i d hd).2.1
  have hfree : ∀ i ∈ l, h.dib i ≠ dibRawFree := by
    intro i hi hdib
    obtain ⟨d, hd⟩ := hs.exists_disp hi
    have hlt := hs.table.dib_lt hd
    unfold dibRawFree at hdib
    unfold dibRawRehash at hlt
    omega
  refine ⟨⟨⟨?_, hbuckets, hs.table.nodup, ?_, ?_, ?_, ?_, ?_⟩, ?_, ?_, ?_, ?_, ?_, ?_⟩, hentries⟩
  · exact Nat.lt_of_le_of_lt (Nat.zero_le _) hgrow
  · exact fun i hi => .inl (Nat.lt_trans (hs.inside i hi) hgrow)
  · intro i d hd
    cases hd
  · rw [hentries]
    exact hs.table.distinct
  · intro _ i hi _
    show (if h.hasIndirect then h.idxLowestEntry else 0) ≤ i
    split
    · next hind => exact hs.table.lowest hind i hi (hs.inside i hi)
    · exact Nat.zero_le i
  · intro htype
    refine (hs.table.threaded htype).congr (fun i hi => ?_) (fun i hi => ?_) rfl rfl
    · exact congrArg HashmapEntry.iterateNext (hsame i hi)
    · exact congrArg HashmapEntry.iteratePrevious (hsame i hi)
  · intro i _ d hd
    cases hd
  · exact fun i hi => Nat.lt_trans (hs.inside i hi) hgrow
  · -- every used bucket is marked for rehashing, the others are free
    intro i _ _
    show ((if i < h.nBuckets ∧ h.dib i ≠ dibRawFree then dibRawRehash else dibRawFree) = _ ∧ _) ∨
      ((if i < h.nBuckets ∧ h.dib i ≠ dibRawFree then dibRawRehash else dibRawFree) = _ ∧ _)
    by_cases hi : i ∈ l
    · rw [if_pos ⟨hs.inside i hi, hfree i hi⟩]
      exact .inr ⟨rfl, hi⟩
    · rw [if_neg fun h => hi (hused i h.1 h.2)]
      exact .inl ⟨rfl, hi⟩
  · have hle := hs.sized.nEntries_le
    rw [hs.size] at hle
    exact Nat.lt_of_le_of_lt hle hgrow
  · unfold placed
    simp
  · intro i _ hdib
    refine ⟨Nat.zero_le i, ?_⟩
    by_contra hge
    replace hdib : (if i < h.nBuckets ∧ h.dib i ≠ dibRawFree then dibRawRehash else dibRawFree) =
      dibRawRehash := hdib
    rw [if_neg fun h => hge h.1] at hdib
    cases hdib

omit [Inhabited P] in
/-- When everything is rehashed. -/
theorem Rehashing.stored {old nRehashed : Nat} (hr : Rehashing h l disp old old nRehashed)
    (hsize : h.nEntries = l.length) (hsized : Sized h) :
    Stored h l disp ∧ nRehashed = h.nEntries := by
  have hstops : ∀ i < h.nBuckets, disp i = none → h.dib i = dibRawFree ∧ i ∉ l := by
    intro i hi hd
    rcases hr.stops i hi hd with hfree | ⟨hmark, -⟩
    · exact hfree
    · have hbound := hr.marked i hi hmark
      omega
  -- the entries that are in place are all there are
  have hmem : ∀ i, i ∈ placed h.nBuckets disp ↔ i ∈ l := by
    intro i
    unfold placed
    rw [Finset.mem_filter, Finset.mem_range]
    constructor
    · rintro ⟨hi, hsome⟩
      obtain ⟨d, hd⟩ := Option.isSome_iff_exists.mp hsome
      exact (hr.table.home i d hd).2.1
    · intro hi
      refine ⟨hr.inside i hi, ?_⟩
      cases hd : disp i with
      | none => exact absurd hi (hstops i (hr.inside i hi) hd).2
      | some d => rfl
  have hcard : (placed h.nBuckets disp).card = l.length := by
    rw [← toFinset_card_of_nodup hr.table.nodup]
    congr 1
    ext i
    rw [hmem, mem_toFinset]
  refine ⟨⟨hr.table, hr.ordered, hr.inside, hstops, hsize, hsized, ?_⟩, ?_⟩
  · by_contra hnone
    have hfull : ∀ i < h.nBuckets, i ∈ placed h.nBuckets disp := by
      intro i hi
      rw [hmem]
      by_contra hi'
      refine hnone ⟨i, hi, fun d hd => ?_⟩
      exact absurd (hr.table.home i d hd).2.1 hi'
    have hle : h.nBuckets ≤ (placed h.nBuckets disp).card := by
      have hsub : Finset.range h.nBuckets ⊆ placed h.nBuckets disp :=
        fun i hi => hfull i (Finset.mem_range.mp hi)
      have hcards := Finset.card_le_card hsub
      rwa [Finset.card_range] at hcards
    have hroom := hr.room
    omega
  · rw [hr.card, hcard, hsize]

/-- The number of buckets for a number of entries. -/
def bucketsFor (n : Nat) : Nat := n + n / 4

/-- The new size of the storage, as a power of two. -/
def newShift (type : HashmapType) (newNBuckets : Nat) : Nat :=
  log2uRoundUp (max (newNBuckets * type.bucketSize) (2 * 39))

theorem newShift_lt_iff (type : HashmapType) (n : Nat) :
    newShift type n < 32 ↔ n ≤ maxBuckets type := by
  unfold newShift maxBuckets
  rw [Nat.lt_succ_iff, log2uRoundUp_le_iff (by omega), Nat.le_div_iff_mul_le (bucketSize_pos type)]
  omega

theorem le_newNBuckets (type : HashmapType) (n : Nat) : n ≤ 2 ^ newShift type n / type.bucketSize := by
  rw [Nat.le_div_iff_mul_le (bucketSize_pos type)]
  have hle := (log2uRoundUp_le_iff (x := max (n * type.bucketSize) (2 * 39)) (by omega)).mp
    (Nat.le_refl _)
  unfold newShift
  omega

/-- The entries are rehashed into a larger storage. -/
theorem Stored.grow (hs : Stored h l disp) (hashKey : HK) {entriesAdd : Nat}
    (hfits : bucketsFor (h.nEntries + entriesAdd) ≤ maxBuckets h.type)
    (hgrow : h.nBuckets < bucketsFor (h.nEntries + entriesAdd)) :
    ∃ h' l' disp', (h.reallocated hashKey (newShift h.type (bucketsFor (h.nEntries + entriesAdd)))).rehashBuckets
        0 0 h.nBuckets = some (h', h'.nEntries) ∧
      Stored h' l' disp' ∧ l'.map h'.entry = l.map h.entry ∧ Room h' entriesAdd ∧
      h'.hashOps = h.hashOps ∧ h'.type = h.type ∧ h'.sharedHashKey = h.sharedHashKey ∧
      h'.nEntries = h.nEntries := by
  have hshift := (newShift_lt_iff h.type _).mpr hfits
  have hle := le_newNBuckets h.type (bucketsFor (h.nEntries + entriesAdd))
  generalize newShift h.type (bucketsFor (h.nEntries + entriesAdd)) = shift at hshift hle ⊢
  obtain ⟨hr, hentries₀⟩ := hs.reallocated hashKey hshift (by omega)
  obtain ⟨h', l', disp', n, heq, hframe, hentries, hend⟩ := rehashBuckets_spec h.nBuckets
    (Nat.zero_add _) (by show h.nBuckets ≤ 2 ^ shift / h.type.bucketSize; omega) hr
  have hlen : l'.length = l.length := by
    have hmap := congrArg length (hentries.trans hentries₀)
    rwa [length_map, length_map] at hmap
  have hbuckets : h'.nBuckets = 2 ^ shift / h.type.bucketSize := hframe.nBuckets
  have htype : h'.type = h.type := hframe.type
  have hsize : h'.nEntries = h.nEntries := hframe.nEntries
  have hsized : Sized h' := by
    refine .indirect hframe.hasIndirect hshift (by rw [hbuckets, htype]) ?_
    unfold bucketsFor at hle
    omega
  obtain ⟨hstored, hn⟩ := hend.stored (by rw [hsize, hlen]; exact hs.size) hsized
  refine ⟨h', l', disp', by rw [heq, hn], hstored, hentries.trans hentries₀, ⟨?_, ?_⟩, hframe.hashOps,
    htype, hframe.sharedHashKey, hsize⟩
  · intro hind
    rw [hframe.hasIndirect] at hind
    cases hind
  · intro _
    rw [hsize, hbuckets]
    exact hle

theorem resizeBuckets_spec (hs : Stored h l disp) (entriesAdd : Nat) (env : ResizeEnv HK)
    (hfits : bucketsFor (h.nEntries + entriesAdd) ≤ maxBuckets h.type) :
    ∃ h' r, h.resizeBuckets entriesAdd env = some (h', r) ∧ Resized h l entriesAdd env h' r := by
  have hmax := maxBuckets_lt h.type
  have hadd : h.nEntries + entriesAdd < 2 ^ 30 := by
    unfold bucketsFor at hfits
    omega
  have hmul : maxBuckets h.type ≤ (2 ^ 32 - 1) / h.type.bucketSize :=
    Nat.div_le_div_right (by decide)
  unfold resizeBuckets
  rw [Nat.mod_eq_of_lt (by omega)]
  rw [if_neg (by omega)]
  by_cases hdirect : h.hasIndirect = false ∧ h.nEntries + entriesAdd ≤ h.type.nDirectBuckets
  · rw [if_pos (by simpa using hdirect)]
    refine ⟨h, 0, rfl, .kept ⟨fun _ => ?_, fun hind => ?_⟩⟩
    · cases hs.sized with
      | direct _ hbuckets _ =>
        rw [hbuckets]
        exact hdirect.2
      | indirect hind _ _ _ =>
        rw [hdirect.1] at hind
        cases hind
    · rw [hdirect.1] at hind
      cases hind
  rw [if_neg (by simpa using hdirect)]
  have hnew : (h.nEntries + entriesAdd + (h.nEntries + entriesAdd) / (5 - 1)) % 2 ^ 32 =
      bucketsFor (h.nEntries + entriesAdd) := by
    exact Nat.mod_eq_of_lt (by omega)
  rw [hnew, if_neg (by unfold bucketsFor; omega), if_neg (by omega)]
  by_cases hkeep : bucketsFor (h.nEntries + entriesAdd) ≤ h.nBuckets
  · rw [if_pos hkeep]
    refine ⟨h, 0, rfl, .kept ⟨fun _ => ?_, fun _ => hkeep⟩⟩
    unfold bucketsFor at hkeep
    omega
  rw [if_neg hkeep]
  have hshift := (newShift_lt_iff h.type _).mpr hfits
  replace hshift : ¬32 ≤ log2uRoundUp (max (bucketsFor (h.nEntries + entriesAdd) * h.type.bucketSize)
    (2 * 39)) := Nat.not_le.mpr hshift
  rw [if_neg hshift]
  cases halloc : env.allocated with
  | false => exact ⟨h, _, rfl, .failed halloc⟩
  | true =>
    have hmarked : ¬∃ idx < h.nBuckets, h.dib idx = dibRawRehash := by
      rintro ⟨i, hi, hdib⟩
      exact hs.dib_ne_rehash hi hdib
    rw [if_neg (by decide), if_neg hmarked]
    obtain ⟨h', l', disp', heq, hstored, hentries, hroom, hops, htype, hshared, hsize⟩ :=
      hs.grow env.hashKey hfits (Nat.lt_of_not_le hkeep)
    refine ⟨h', 1, ?_, .grown hstored hentries hroom hops htype hshared hsize⟩
    replace heq : rehashBuckets (h.reallocated env.hashKey
      (log2uRoundUp (max (bucketsFor (h.nEntries + entriesAdd) * h.type.bucketSize) (2 * 39)))) 0 0
      h.nBuckets = some (h', h'.nEntries) := heq
    rw [heq]
    exact if_pos rfl

end Null

end HashmapBase

end Elogind
