/-
  Elogind.Basic.HashmapTable

  The invariant of a hash table (hashmap.c), and what the moves of entries between
  buckets do to it.

  `Table h l disp` says what holds while entries are moved: `l` are the indices in
  use, swap slots included, in the order in which the entries were put, and `disp`
  are the displacements of the entries that have found their bucket.
-/

import Elogind.Basic.Hashmap
import Elogind.Lib.LinkedList
import Elogind.Lib.RobinHood

namespace Elogind

open Lib Function

namespace HashmapBase

variable {P HK : Type} {h : HashmapBase P HK} {l : List Nat} {disp : Nat → Option Nat} {src dst i : Nat}

/-! ## Entries and links -/

/-- What is stored at an index. -/
def entry (h : HashmapBase P HK) (i : Nat) : P × P := ((h.bucket i).key, (h.bucket i).value)

/-- The links of the iterate list. -/
def links (h : HashmapBase P HK) : Links where
  next i := (h.bucket i).iterateNext
  prev i := (h.bucket i).iteratePrevious
  head := h.iterateListHead
  tail := h.iterateListTail

section Links

variable (bucket : Nat → HashmapEntry P) (idx x j : Nat)

@[simp] theorem key_setNext : (setNext bucket idx x j).key = (bucket j).key := by
  unfold setNext
  by_cases hj : j = idx
  · rw [hj, update_self]
  · rw [update_of_ne hj]

@[simp] theorem value_setNext : (setNext bucket idx x j).value = (bucket j).value := by
  unfold setNext
  by_cases hj : j = idx
  · rw [hj, update_self]
  · rw [update_of_ne hj]

@[simp] theorem previous_setNext :
    (setNext bucket idx x j).iteratePrevious = (bucket j).iteratePrevious := by
  unfold setNext
  by_cases hj : j = idx
  · rw [hj, update_self]
  · rw [update_of_ne hj]

@[simp] theorem next_setNext :
    (setNext bucket idx x j).iterateNext = if j = idx then x else (bucket j).iterateNext := by
  unfold setNext
  by_cases hj : j = idx
  · rw [hj, update_self, if_pos rfl]
  · rw [update_of_ne hj, if_neg hj]

@[simp] theorem key_setPrevious : (setPrevious bucket idx x j).key = (bucket j).key := by
  unfold setPrevious
  by_cases hj : j = idx
  · rw [hj, update_self]
  · rw [update_of_ne hj]

@[simp] theorem value_setPrevious : (setPrevious bucket idx x j).value = (bucket j).value := by
  unfold setPrevious
  by_cases hj : j = idx
  · rw [hj, update_self]
  · rw [update_of_ne hj]

@[simp] theorem next_setPrevious :
    (setPrevious bucket idx x j).iterateNext = (bucket j).iterateNext := by
  unfold setPrevious
  by_cases hj : j = idx
  · rw [hj, update_self]
  · rw [update_of_ne hj]

@[simp] theorem previous_setPrevious :
    (setPrevious bucket idx x j).iteratePrevious =
      if j = idx then x else (bucket j).iteratePrevious := by
  unfold setPrevious
  by_cases hj : j = idx
  · rw [hj, update_self, if_pos rfl]
  · rw [update_of_ne hj, if_neg hj]

theorem key_relink (dst : Nat) : (relink bucket dst j).key = (bucket j).key := by
  unfold relink
  split <;> split <;> simp

theorem value_relink (dst : Nat) : (relink bucket dst j).value = (bucket j).value := by
  unfold relink
  split <;> split <;> simp

end Links

/-- The entry is copied, links or not. -/
theorem entry_bucketMoveEntry (h : HashmapBase P HK) (src dst i : Nat) :
    (h.bucketMoveEntry src dst).entry i = if i = dst then h.entry src else h.entry i := by
  have hbucket : (h.bucketMoveEntry src dst).entry i =
      ((update h.bucket dst (h.bucket src) i).key,
        (update h.bucket dst (h.bucket src) i).value) := by
    unfold entry bucketMoveEntry
    split
    · rw [key_relink, value_relink]
    · rfl
  rw [hbucket]
  by_cases hi : i = dst
  · rw [hi, update_self, if_pos rfl]
    rfl
  · rw [update_of_ne hi, if_neg hi]
    rfl

theorem key_bucketMoveEntry (h : HashmapBase P HK) (src dst i : Nat) :
    ((h.bucketMoveEntry src dst).bucket i).key =
      if i = dst then (h.bucket src).key else (h.bucket i).key := by
  have hentry := congrArg Prod.fst (entry_bucketMoveEntry h src dst i)
  rw [apply_ite Prod.fst] at hentry
  exact hentry

theorem next_relink {bucket : Nat → HashmapEntry P} (dst j : Nat)
    (hdst : (bucket dst).iterateNext ≠ dst) :
    (relink bucket dst j).iterateNext =
      if (bucket dst).iteratePrevious ≠ idxNil ∧ j = (bucket dst).iteratePrevious then dst
      else (bucket j).iterateNext := by
  have hsame : ∀ x, (setPrevious bucket (bucket dst).iterateNext x dst).iteratePrevious =
      (bucket dst).iteratePrevious := by
    intro x
    rw [previous_setPrevious, if_neg (Ne.symm hdst)]
  unfold relink
  by_cases hnext : (bucket dst).iterateNext ≠ idxNil
  · rw [if_pos hnext, hsame]
    by_cases hprev : (bucket dst).iteratePrevious ≠ idxNil
    · simp [hprev]
    · simp [hprev]
  · rw [if_neg hnext]
    by_cases hprev : (bucket dst).iteratePrevious ≠ idxNil
    · simp [hprev]
    · simp [hprev]

theorem previous_relink {bucket : Nat → HashmapEntry P} (dst j : Nat) :
    (relink bucket dst j).iteratePrevious =
      if (bucket dst).iterateNext ≠ idxNil ∧ j = (bucket dst).iterateNext then dst
      else (bucket j).iteratePrevious := by
  unfold relink
  by_cases hnext : (bucket dst).iterateNext ≠ idxNil
  · simp only [if_pos hnext]
    split
    · simp [hnext]
    · simp [hnext]
  · simp only [if_neg hnext]
    split
    · simp [hnext]
    · simp [hnext]

/-- The list after an entry was moved. -/
theorem threaded_bucketMoveEntry (htype : h.type = .ordered) (hl : Threaded idxNil h.links l)
    (hnil : idxNil ∉ l) (hnodup : l.Nodup) (hsrc : src ∈ l) (hdst : dst ∉ l) (hdnil : dst ≠ idxNil) :
    Threaded idxNil (h.bucketMoveEntry src dst).links (l.map (Threaded.renamed src dst)) := by
  have hbucket : (h.bucketMoveEntry src dst).bucket =
      relink (update h.bucket dst (h.bucket src)) dst := if_pos htype
  have hself : update h.bucket dst (h.bucket src) dst = h.bucket src :=
    update_self ..
  have hother : ∀ i, i ≠ dst → update h.bucket dst (h.bucket src) i = h.bucket i :=
    fun i hi => update_of_ne hi _ _
  -- neither neighbour of the entry is where it goes
  have hnext : (h.bucket src).iterateNext ≠ dst := by
    intro heq
    rcases hl.next_cases hsrc with hend | hmem
    · exact hdnil (heq.symm.trans hend)
    · exact hdst (heq ▸ hmem)
  have hprev : (h.bucket src).iteratePrevious ≠ dst := by
    intro heq
    rcases hl.prev_cases hsrc with hend | hmem
    · exact hdnil (heq.symm.trans hend)
    · exact hdst (heq ▸ hmem)
  refine hl.rename hnil hsrc ?_ ?_ ?_ ?_
  · intro i hi
    show ((h.bucketMoveEntry src dst).bucket _).iterateNext =
      if (h.bucket src).iteratePrevious = i then dst else (h.bucket i).iterateNext
    rw [hbucket, next_relink _ _ (by rw [hself]; exact hnext), hself]
    unfold Threaded.renamed
    by_cases his : i = src
    · subst his
      have hne : (h.bucket i).iteratePrevious ≠ i := hl.prev_ne_self hnil hnodup hi
      rw [if_pos rfl, hself, if_neg fun h => hprev h.2.symm, if_neg hne]
    · have hid : i ≠ dst := fun heq => hdst (heq ▸ hi)
      have hinil : i ≠ idxNil := fun heq => hnil (heq ▸ hi)
      rw [if_neg his, hother i hid]
      by_cases hp : (h.bucket src).iteratePrevious = i
      · rw [if_pos hp, if_pos ⟨by rw [hp]; exact hinil, hp.symm⟩]
      · rw [if_neg hp, if_neg fun h => hp h.2.symm]
  · intro i hi
    show ((h.bucketMoveEntry src dst).bucket _).iteratePrevious =
      if (h.bucket src).iterateNext = i then dst else (h.bucket i).iteratePrevious
    rw [hbucket, previous_relink, hself]
    unfold Threaded.renamed
    by_cases his : i = src
    · subst his
      have hne : (h.bucket i).iterateNext ≠ i := hl.next_ne_self hnil hnodup hi
      rw [if_pos rfl, hself, if_neg fun h => hnext h.2.symm, if_neg hne]
    · have hid : i ≠ dst := fun heq => hdst (heq ▸ hi)
      have hinil : i ≠ idxNil := fun heq => hnil (heq ▸ hi)
      rw [if_neg his, hother i hid]
      by_cases hn : (h.bucket src).iterateNext = i
      · rw [if_pos hn, if_pos ⟨by rw [hn]; exact hinil, hn.symm⟩]
      · rw [if_neg hn, if_neg fun h => hn h.2.symm]
  · show (if h.type = .ordered ∧ h.iterateListHead = src then dst else h.iterateListHead) = _
    simp only [htype, true_and]
    rfl
  · show (if h.type = .ordered ∧ h.iterateListTail = src then dst else h.iterateListTail) = _
    simp only [htype, true_and]
    rfl

/-! ## Tables -/

/-- What holds while entries are moved. -/
structure Table (h : HashmapBase P HK) (l : List Nat) (disp : Nat → Option Nat) : Prop where
  pos : 0 < h.nBuckets
  small : h.nBuckets ≤ 2 ^ 31
  nodup : l.Nodup
  range : ∀ i ∈ l, i < h.nBuckets ∨ i = idxPut ∨ i = idxTmp
  /-- An entry that has found its bucket is `disp` away from its home. -/
  home : ∀ i d, disp i = some d → i < h.nBuckets ∧ i ∈ l ∧ h.dib i = min d dibRawOverflow ∧
    h.bucketDistance i (h.bucketHash (h.bucket i).key) = d
  distinct : (l.map h.entry).Pairwise fun a b => h.hashOps.equal a.1 b.1 = false
  lowest : h.hasIndirect = true → ∀ i ∈ l, i < h.nBuckets → h.idxLowestEntry ≤ i
  threaded : h.type = .ordered → Threaded idxNil h.links l

theorem bucketDistance_eq (h : HashmapBase P HK) (i j : Nat) :
    h.bucketDistance i j = distMod h.nBuckets j i := rfl

namespace Table

theorem idxNil_not_mem (ht : Table h l disp) : idxNil ∉ l := by
  intro hmem
  have hsmall := ht.small
  rcases ht.range _ hmem with hlt | heq | heq
  · unfold idxNil at hlt
    omega
  · cases heq
  · cases heq

theorem lt_idxPut (ht : Table h l disp) (hi : i < h.nBuckets) : i < idxPut := by
  have hsmall := ht.small
  unfold idxPut
  omega

theorem disp_eq_none (ht : Table h l disp) (hi : h.nBuckets ≤ i) : disp i = none := by
  cases hd : disp i with
  | none => rfl
  | some d =>
    have hlt := (ht.home i d hd).1
    omega

theorem disp_lt (ht : Table h l disp) {d : Nat} (hd : disp i = some d) : d < h.nBuckets := by
  obtain ⟨hlt, -, -, hdist⟩ := ht.home i d hd
  rw [← hdist, bucketDistance_eq]
  exact distMod_lt (Nat.mod_lt _ ht.pos) hlt

/-- The DIB that is read is the displacement. -/
theorem bucketCalculateDib_eq (ht : Table h l disp) {d : Nat} (hd : disp i = some d) :
    h.bucketCalculateDib i (h.dib i) = d := by
  obtain ⟨-, -, hdib, hdist⟩ := ht.home i d hd
  unfold bucketCalculateDib
  rw [hdib]
  unfold dibRawFree dibRawOverflow
  by_cases hsmall : d < 0xfd
  · rw [Nat.min_eq_left (by omega), if_neg (by omega), if_pos hsmall]
  · rw [Nat.min_eq_right (by omega), if_neg (by omega), if_neg (by omega)]
    exact hdist

/-- A bucket with an entry in place is neither free nor to be rehashed. -/
theorem dib_lt (ht : Table h l disp) {d : Nat} (hd : disp i = some d) : h.dib i < dibRawRehash := by
  rw [(ht.home i d hd).2.2.1]
  unfold dibRawRehash dibRawOverflow
  omega

theorem dib_ne_free (ht : Table h l disp) {d : Nat} (hd : disp i = some d) : h.dib i ≠ dibRawFree := by
  intro hfree
  have hused := ht.dib_lt hd
  rw [hfree] at hused
  exact absurd hused (by decide)

theorem bucketHash_lt (ht : Table h l disp) (p : P) : h.bucketHash p < h.nBuckets :=
  Nat.mod_lt _ ht.pos

/-- An entry is no longer regarded as being in its bucket. -/
theorem unplace (ht : Table h l disp) (i : Nat) : Table h l (Function.update disp i none) :=
  { ht with
    home := by
      intro j d hd
      by_cases hji : j = i
      · rw [hji, update_self] at hd
        cases hd
      · rw [update_of_ne hji] at hd
        exact ht.home j d hd }

/-- An entry has found its bucket. -/
theorem place (ht : Table h l disp) {i d : Nat} (hlt : i < h.nBuckets) (hi : i ∈ l)
    (hdib : h.dib i = min d dibRawOverflow)
    (hd : h.bucketDistance i (h.bucketHash (h.bucket i).key) = d) :
    Table h l (Function.update disp i (some d)) :=
  { ht with
    home := by
      intro j e he
      by_cases hji : j = i
      · subst hji
        rw [update_self] at he
        cases he
        exact ⟨hlt, hi, hdib, hd⟩
      · rw [update_of_ne hji] at he
        exact ht.home j e he }

/-- The DIB of a bucket with no entry in place does not matter. -/
theorem setDib (ht : Table h l disp) {i : Nat} (hi : disp i = none) (x : Nat) :
    Table { h with dib := Function.update h.dib i x } l disp :=
  { ht with
    home := by
      intro j d hd
      have hji : j ≠ i := by
        rintro rfl
        rw [hi] at hd
        cases hd
      obtain ⟨hlt, hmem, hdib, hdist⟩ := ht.home j d hd
      exact ⟨hlt, hmem, (update_of_ne hji _ _).trans hdib, hdist⟩ }

/-- An entry is moved to an index that is not in use. -/
theorem move (ht : Table h l disp) (hsrc : src ∈ l) (hdst : dst ∉ l) (hdsrc : disp src = none)
    (hrange : dst < h.nBuckets ∨ dst = idxPut ∨ dst = idxTmp)
    (hlowest : h.hasIndirect = true → dst < h.nBuckets → h.idxLowestEntry ≤ dst) :
    Table (h.bucketMoveEntry src dst) (l.map (Threaded.renamed src dst)) disp ∧
      (l.map (Threaded.renamed src dst)).map (h.bucketMoveEntry src dst).entry = l.map h.entry := by
  have hentries : (l.map (Threaded.renamed src dst)).map (h.bucketMoveEntry src dst).entry =
      l.map h.entry := by
    rw [List.map_map]
    apply List.map_congr_left
    intro i hi
    rw [comp_apply, entry_bucketMoveEntry]
    unfold Threaded.renamed
    by_cases his : i = src
    · rw [if_pos his, if_pos rfl, his]
    · have hid : i ≠ dst := fun heq => hdst (heq ▸ hi)
      rw [if_neg his, if_neg hid]
  refine ⟨?_, hentries⟩
  have hdnil : dst ≠ idxNil := by
    have hsmall := ht.small
    rintro rfl
    rcases hrange with hlt | heq | heq
    · unfold idxNil at hlt
      omega
    · cases heq
    · cases heq
  refine ⟨ht.pos, ht.small, Threaded.nodup_map_renamed ht.nodup hdst, ?_, ?_, ?_, ?_, ?_⟩
  · intro i hi
    rcases (Threaded.mem_map_renamed hsrc).mp hi with rfl | ⟨hi, -⟩
    · exact hrange
    · exact ht.range i hi
  · intro i d hd
    obtain ⟨hlt, hmem, hdib, hdist⟩ := ht.home i d hd
    have his : i ≠ src := by
      rintro rfl
      rw [hdsrc] at hd
      cases hd
    have hid : i ≠ dst := fun heq => hdst (heq ▸ hmem)
    refine ⟨hlt, (Threaded.mem_map_renamed hsrc).mpr (.inr ⟨hmem, his⟩), hdib, ?_⟩
    rw [key_bucketMoveEntry, if_neg hid]
    exact hdist
  · rw [hentries]
    exact ht.distinct
  · intro hind i hi hlt
    rcases (Threaded.mem_map_renamed hsrc).mp hi with rfl | ⟨hi, -⟩
    · exact hlowest hind hlt
    · exact ht.lowest hind i hi hlt
  · intro htype
    exact threaded_bucketMoveEntry htype (ht.threaded htype) ht.idxNil_not_mem ht.nodup hsrc hdst hdnil

end Table

end HashmapBase

end Elogind
