/-
  Elogind.Basic.HashmapRemove

  Backward shift deletion (base_remove_entry): the entries between the removed one and
  the next bucket that is free or whose entry is at home move one bucket back.
-/

import Elogind.Basic.HashmapResize

namespace Elogind

open Lib Lib.RobinHood List Function

namespace HashmapBase

variable {P HK : Type} {h h' : HashmapBase P HK} {l l' : List Nat} {disp : Nat → Option Nat}
  {idx : Nat}

/-! ## The stop bucket -/

/-- The stop bucket is `k` steps from the removed entry. -/
structure Stop (h : HashmapBase P HK) (idx k : Nat) : Prop where
  pos : 0 < k
  le : k ≤ h.nBuckets
  stop : h.IsStop ((idx + k) % h.nBuckets)
  before : ∀ j, 0 < j → j < k → ¬h.IsStop ((idx + j) % h.nBuckets)

theorem mod_ne_self {n k : Nat} (hidx : idx < n) (hpos : 0 < k) (hlt : k < n) : (idx + k) % n ≠ idx := by
  intro heq
  have hzero := distMod_eq hidx hlt heq
  rw [distMod_self] at hzero
  omega

theorem findStop_spec {n j k₀ : Nat} (hidx : idx < h.nBuckets) (hj : 0 < j) (hjk : j ≤ k₀)
    (hk₀ : k₀ ≤ h.nBuckets) (hstop : h.IsStop ((idx + k₀) % h.nBuckets)) (hn : k₀ < j + n) :
    ∃ k, h.findStop idx n ((idx + j) % h.nBuckets) = some ((idx + k) % h.nBuckets) ∧ j ≤ k ∧
      k ≤ k₀ ∧ h.IsStop ((idx + k) % h.nBuckets) ∧
      ∀ i, j ≤ i → i < k → ¬h.IsStop ((idx + i) % h.nBuckets) := by
  induction n generalizing j with
  | zero => omega
  | succ n ih =>
    rw [findStop]
    by_cases hhere : h.IsStop ((idx + j) % h.nBuckets)
    · rw [if_pos hhere]
      exact ⟨j, rfl, Nat.le_refl j, hjk, hhere, fun i hi hlt => by omega⟩
    · rw [if_neg hhere]
      have hne : j ≠ k₀ := fun heq => hhere (heq ▸ hstop)
      rw [if_neg fun heq => mod_ne_self hidx hj (by omega) heq.symm]
      have hnext : h.nextIdx ((idx + j) % h.nBuckets) = (idx + (j + 1)) % h.nBuckets :=
        succMod_add h.nBuckets idx j
      rw [hnext]
      obtain ⟨k, heq, hle, hle₀, hat, hbefore⟩ := ih (Nat.succ_pos j) (by omega) (by omega)
      refine ⟨k, heq, by omega, hle₀, hat, fun i hi hlt => ?_⟩
      by_cases hij : i = j
      · rw [hij]
        exact hhere
      · exact hbefore i (by omega) hlt

theorem Stored.exists_stop (hs : Stored h l disp) (hidx : idx < h.nBuckets) :
    ∃ k, Stop h idx k ∧
      h.findStop idx h.nBuckets (h.nextIdx idx) = some ((idx + k) % h.nBuckets) := by
  obtain ⟨i, hi, hhome⟩ := hs.anchor
  have hstop : h.IsStop i := by
    cases hd : disp i with
    | none => exact .inr (hs.stops i hi hd).1
    | some d =>
      refine .inl ?_
      rw [(hs.table.home i d hd).2.2.1, hhome d hd]
      exact Nat.zero_min _
  -- how far the bucket is
  obtain ⟨k₀, hpos, hle, hat⟩ : ∃ k, 0 < k ∧ k ≤ h.nBuckets ∧ (idx + k) % h.nBuckets = i := by
    by_cases heq : i = idx
    · refine ⟨h.nBuckets, hs.table.pos, Nat.le_refl _, ?_⟩
      rw [heq, Nat.add_mod_right, Nat.mod_eq_of_lt hidx]
    · refine ⟨distMod h.nBuckets idx i, ?_, Nat.le_of_lt (distMod_lt hidx hi), add_distMod hidx hi⟩
      exact Nat.pos_of_ne_zero fun hzero => heq (eq_of_distMod_eq_zero hidx hzero).symm
  obtain ⟨k, hfind, hkpos, hkle, hkstop, hbefore⟩ := findStop_spec (n := h.nBuckets) hidx
    Nat.one_pos hpos hle (by rw [hat]; exact hstop) (by omega)
  exact ⟨k, ⟨hkpos, by omega, hkstop, hbefore⟩, hfind⟩

/-! ## Leaving the list -/

/-- The indices in use without one of them. -/
theorem filter_ne_eq_append {a b : List Nat} (hnodup : (a ++ idx :: b).Nodup) :
    (a ++ idx :: b).filter (· ≠ idx) = a ++ b := by
  have hout := nodup_middle.mp hnodup
  have hab := nodup_cons.mp hout
  rw [filter_append, filter_cons_of_neg (by simp)]
  rw [← filter_append, filter_eq_self]
  intro i hi
  have hne : i ≠ idx := fun heq => hab.1 (heq ▸ hi)
  simpa using hne

theorem links_unlink (ht : Threaded idxNil h.links l) (hnil : idxNil ∉ l) (hnodup : l.Nodup)
    (hidx : idx ∈ l) : Threaded idxNil (h.unlink idx).links (l.filter (· ≠ idx)) := by
  obtain ⟨a, b, rfl⟩ := append_of_mem hidx
  have hne : ∀ i ∈ a ++ b, i ≠ idxNil := fun i hi heq =>
    hnil (heq ▸ by rcases mem_append.mp hi with h | h <;> simp [h])
  rw [filter_ne_eq_append hnodup]
  refine ht.erase hnil hnodup ?_ ?_ ?_ ?_
  · intro i hi
    show ((h.unlink idx).bucket i).iterateNext =
      if (h.bucket idx).iteratePrevious = i then (h.bucket idx).iterateNext else (h.bucket i).iterateNext
    unfold unlink
    dsimp only
    by_cases hp : (h.bucket idx).iteratePrevious = i
    · rw [if_pos (by rw [hp]; exact hne i hi), if_pos hp]
      split <;> simp [hp]
    · split <;> split <;> simp [Ne.symm hp]
  · intro i hi
    show ((h.unlink idx).bucket i).iteratePrevious =
      if (h.bucket idx).iterateNext = i then (h.bucket idx).iteratePrevious
      else (h.bucket i).iteratePrevious
    unfold unlink
    dsimp only
    by_cases hn : (h.bucket idx).iterateNext = i
    · split <;> simp [hn, hne i hi]
    · split <;> split <;> simp [Ne.symm hn]
  · show (if (h.bucket idx).iteratePrevious ≠ idxNil then h.iterateListHead
      else (h.bucket idx).iterateNext) = if (h.bucket idx).iteratePrevious = idxNil then
        (h.bucket idx).iterateNext else h.iterateListHead
    split <;> simp_all
  · show (if (h.bucket idx).iterateNext ≠ idxNil then h.iterateListTail
      else (h.bucket idx).iteratePrevious) = if (h.bucket idx).iterateNext = idxNil then
        (h.bucket idx).iteratePrevious else h.iterateListTail
    split <;> simp_all

theorem entry_unlink (h : HashmapBase P HK) (idx i : Nat) : (h.unlink idx).entry i = h.entry i := by
  unfold unlink entry
  dsimp only
  split <;> split <;> simp

/-- The table without an entry, before anything is moved. -/
theorem Table.erase (ht : Table h l disp) (hidx : idx ∈ l) :
    Table (if h.type = .ordered then h.unlink idx else h) (l.filter (· ≠ idx))
      (Function.update disp idx none) := by
  have hentry : ∀ i, (if h.type = .ordered then h.unlink idx else h).entry i = h.entry i := by
    intro i
    split
    · exact entry_unlink h idx i
    · rfl
  have hkey : ∀ i, ((if h.type = .ordered then h.unlink idx else h).bucket i).key = (h.bucket i).key :=
    fun i => congrArg Prod.fst (hentry i)
  have hsub : (l.filter (· ≠ idx)).Sublist l := filter_sublist
  have hdistinct := ht.distinct.sublist (hsub.map h.entry)
  have hnodup := ht.nodup.filter (· ≠ idx)
  have hmem : ∀ i ∈ l.filter (· ≠ idx), i ∈ l := fun i hi => (mem_filter.mp hi).1
  have hentries : (l.filter (· ≠ idx)).map (if h.type = .ordered then h.unlink idx else h).entry =
      (l.filter (· ≠ idx)).map h.entry := map_congr_left fun i _ => hentry i
  have hhome := (ht.unplace idx).home
  have hthreaded : h.type = .ordered →
      Threaded idxNil (if h.type = .ordered then h.unlink idx else h).links (l.filter (· ≠ idx)) := by
    intro htype
    rw [if_pos htype]
    exact links_unlink (ht.threaded htype) ht.idxNil_not_mem ht.nodup hidx
  generalize hk : (if h.type = .ordered then h.unlink idx else h) = k at hkey hentries hthreaded ⊢
  have hframe : SameFrame h k ∧ k.dib = h.dib ∧ k.idxLowestEntry = h.idxLowestEntry := by
    rw [← hk]
    split <;> exact ⟨⟨rfl, rfl, rfl, rfl, rfl, rfl, rfl⟩, rfl, rfl⟩
  obtain ⟨hframe, hdib, hlowest⟩ := hframe
  refine ⟨by rw [hframe.nBuckets]; exact ht.pos, by rw [hframe.nBuckets]; exact ht.small, hnodup, ?_, ?_,
    ?_, ?_, ?_⟩
  · intro i hi
    rw [hframe.nBuckets]
    exact ht.range i (hmem i hi)
  · intro i d hd
    obtain ⟨hlt, hi, hdib', hdist⟩ := hhome i d hd
    have hne : i ≠ idx := by
      rintro rfl
      rw [update_self] at hd
      cases hd
    refine ⟨by rw [hframe.nBuckets]; exact hlt, mem_filter.mpr ⟨hi, by simpa using hne⟩,
      by rw [hdib]; exact hdib', ?_⟩
    rw [hkey]
    unfold bucketHash bucketDistance
    rw [hframe.hashOps, hframe.hashKey, hframe.nBuckets]
    exact hdist
  · rw [hentries, hframe.hashOps]
    exact hdistinct
  · intro hind i hi hlt
    rw [hframe.hasIndirect] at hind
    rw [hframe.nBuckets] at hlt
    rw [hlowest]
    exact ht.lowest hind i (hmem i hi) hlt
  · intro htype
    rw [hframe.type] at htype
    exact hthreaded htype

/-! ## Shifting -/

/-- Where the entry of a bucket is after `t` entries behind `idx` were moved. -/
def shiftedIdx (n idx t i : Nat) : Nat :=
  if 0 < distMod n idx i ∧ distMod n idx i ≤ t then (idx + (distMod n idx i - 1)) % n else i

/-- What holds after `t` entries were moved: there is a hole in bucket `idx + t`. -/
structure Shifting (h₀ : HashmapBase P HK) (l₀ : List Nat) (disp₀ : Nat → Option Nat) (idx t : Nat)
    (h : HashmapBase P HK) (disp : Nat → Option Nat) : Prop where
  frame : SameFrame h₀ h
  lowest : h.idxLowestEntry = h₀.idxLowestEntry
  table : Table h ((l₀.filter (· ≠ idx)).map (shiftedIdx h₀.nBuckets idx t)) disp
  hole : Hole h.nBuckets disp ((idx + t) % h₀.nBuckets)
  entries : ((l₀.filter (· ≠ idx)).map (shiftedIdx h₀.nBuckets idx t)).map h.entry =
    (l₀.filter (· ≠ idx)).map h₀.entry
  entry : ∀ i < h₀.nBuckets, h.entry i =
    if distMod h₀.nBuckets idx i < t then h₀.entry (succMod h₀.nBuckets i) else h₀.entry i
  dib : ∀ i < h₀.nBuckets, if distMod h₀.nBuckets idx i < t then h.dib i < dibRawRehash
    else h.dib i = h₀.dib i
  out : (idx + t) % h₀.nBuckets ∉ (l₀.filter (· ≠ idx)).map (shiftedIdx h₀.nBuckets idx t)
  stops : ∀ i < h₀.nBuckets, disp i = none → i ≠ (idx + t) % h₀.nBuckets →
    h.dib i = dibRawFree ∧ i ∉ (l₀.filter (· ≠ idx)).map (shiftedIdx h₀.nBuckets idx t)
  first : h₀.dib idx = 0 → ∀ d, disp idx = some d → d = 0

/-- Before anything is moved. -/
theorem Stored.shifting (hs : Stored h l disp) (hidx : idx ∈ l) :
    Shifting h l disp idx 0 (if h.type = .ordered then h.unlink idx else h)
      (Function.update disp idx none) := by
  have hlt := hs.inside idx hidx
  have hzero : (idx + 0) % h.nBuckets = idx := Nat.mod_eq_of_lt hlt
  have hid : (l.filter (· ≠ idx)).map (shiftedIdx h.nBuckets idx 0) = l.filter (· ≠ idx) := by
    rw [map_congr_left (g := id), map_id]
    intro i _
    exact if_neg (by omega)
  have hout : idx ∉ l.filter (· ≠ idx) := by simp
  have htable := hs.table.erase hidx
  have hentry : ∀ i, (if h.type = .ordered then h.unlink idx else h).entry i = h.entry i := by
    intro i
    split
    · exact entry_unlink h idx i
    · rfl
  generalize hk : (if h.type = .ordered then h.unlink idx else h) = k at htable hentry ⊢
  have hframe : SameFrame h k ∧ k.dib = h.dib ∧ k.idxLowestEntry = h.idxLowestEntry := by
    rw [← hk]
    split <;> exact ⟨⟨rfl, rfl, rfl, rfl, rfl, rfl, rfl⟩, rfl, rfl⟩
  obtain ⟨hframe, hdib, hlowest⟩ := hframe
  refine ⟨hframe, hlowest, ?_, ?_, ?_, ?_, ?_, ?_, ?_, ?_⟩
  · rw [hid]
    exact htable
  · rw [hzero, hframe.nBuckets]
    exact hs.ordered.hole hlt
  · rw [hid]
    exact map_congr_left fun i _ => hentry i
  · intro i _
    exact hentry i
  · intro i _
    rw [if_neg (by omega), hdib]
  · rw [hzero, hid]
    exact hout
  · intro i hi hd hne
    rw [hzero] at hne
    rw [update_of_ne hne] at hd
    rw [hdib, hid]
    obtain ⟨hfree, hmem⟩ := hs.stops i hi hd
    exact ⟨hfree, fun h => hmem (mem_filter.mp h).1⟩
  · intro _ d hd
    rw [update_self] at hd
    cases hd

theorem shiftedIdx_succ {n t i : Nat} (hidx : idx < n) (hi : i < n) (ht : t + 1 < n) :
    Threaded.renamed ((idx + (t + 1)) % n) ((idx + t) % n) (shiftedIdx n idx t i) =
      shiftedIdx n idx (t + 1) i := by
  have hat := add_distMod hidx hi
  have hsrc := distMod_eq hidx ht rfl
  by_cases hlast : distMod n idx i = t + 1
  · have h₁ : shiftedIdx n idx t i = i := if_neg (by omega)
    have h₂ : shiftedIdx n idx (t + 1) i = (idx + t) % n := by
      unfold shiftedIdx
      rw [if_pos (by omega), hlast, Nat.add_sub_cancel]
    rw [h₁, h₂]
    exact if_pos (by rw [← hlast, hat])
  by_cases hmoved : 0 < distMod n idx i ∧ distMod n idx i ≤ t
  · have h₁ : shiftedIdx n idx t i = (idx + (distMod n idx i - 1)) % n := if_pos hmoved
    have h₂ : shiftedIdx n idx (t + 1) i = (idx + (distMod n idx i - 1)) % n := if_pos (by omega)
    rw [h₁, h₂]
    refine if_neg fun heq => ?_
    have h₃ := distMod_eq hidx (show distMod n idx i - 1 < n by omega) heq
    omega
  · have h₁ : shiftedIdx n idx t i = i := if_neg hmoved
    have h₂ : shiftedIdx n idx (t + 1) i = i := if_neg (by omega)
    rw [h₁, h₂]
    refine if_neg fun heq => hlast ?_
    rw [heq]
    exact hsrc

/-- A bucket before the stop bucket is in use. -/
theorem Stored.mem_of_not_stop (hs : Stored h l disp) {i : Nat} (hi : i < h.nBuckets)
    (hstop : ¬h.IsStop i) : i ∈ l := by
  cases hd : disp i with
  | none => exact absurd (.inr (hs.stops i hi hd).1) hstop
  | some d => exact (hs.table.home i d hd).2.1

theorem distMod_pred {n i j d : Nat} (hi : i < n) (hj : j < n) (h : distMod n i (succMod n j) = d + 1) :
    distMod n i j = d := by
  by_cases heq : succMod n j = i
  · rw [heq, distMod_self] at h
    omega
  · rw [distMod_succMod hi hj heq] at h
    omega

section Step

variable {h₀ : HashmapBase P HK} {l₀ : List Nat} {disp₀ : Nat → Option Nat} {t k : Nat}

theorem Shifting.nextIdx (hs : Shifting h₀ l₀ disp₀ idx t h disp) (j : Nat) :
    h.nextIdx ((idx + j) % h₀.nBuckets) = (idx + (j + 1)) % h₀.nBuckets := by
  unfold HashmapBase.nextIdx
  rw [hs.frame.nBuckets]
  exact succMod_add ..

/-- The entry behind the hole is not at home. -/
theorem Shifting.exists_disp (hs₀ : Stored h₀ l₀ disp₀) (hidx : idx ∈ l₀)
    (hs : Shifting h₀ l₀ disp₀ idx t h disp) (hk : Stop h₀ idx k) (ht : t + 1 < k) :
    ∃ d, disp ((idx + (t + 1)) % h₀.nBuckets) = some (d + 1) := by
  have hlt : idx < h₀.nBuckets := hs₀.inside idx hidx
  have htk : t + 1 < h₀.nBuckets := Nat.lt_of_lt_of_le ht hk.le
  have hleft : (idx + (t + 1)) % h₀.nBuckets < h₀.nBuckets := Nat.mod_lt _ hs₀.table.pos
  have hdhole : distMod h₀.nBuckets idx ((idx + t) % h₀.nBuckets) = t := distMod_eq hlt (by omega) rfl
  have hdleft : distMod h₀.nBuckets idx ((idx + (t + 1)) % h₀.nBuckets) = t + 1 :=
    distMod_eq hlt htk rfl
  have hne : (idx + (t + 1)) % h₀.nBuckets ≠ (idx + t) % h₀.nBuckets := by
    intro heq
    rw [heq, hdhole] at hdleft
    omega
  have hdib : h.dib ((idx + (t + 1)) % h₀.nBuckets) = h₀.dib ((idx + (t + 1)) % h₀.nBuckets) := by
    have hd := hs.dib _ hleft
    rwa [hdleft, if_neg (by omega)] at hd
  have hnostop := hk.before (t + 1) (Nat.succ_pos t) ht
  cases hd : disp ((idx + (t + 1)) % h₀.nBuckets) with
  | none =>
    have hfree := (hs.stops _ hleft hd hne).1
    rw [hdib] at hfree
    exact absurd (.inr hfree) hnostop
  | some e =>
    cases e with
    | zero =>
      have hraw := (hs.table.home _ 0 hd).2.2.1
      rw [hdib, Nat.zero_min] at hraw
      exact absurd (.inl hraw) hnostop
    | succ d => exact ⟨d, rfl⟩

/-- The first entry that is moved is at home then, if the removed one was. -/
theorem Shifting.first_eq_zero (hs₀ : Stored h₀ l₀ disp₀) (hidx : idx ∈ l₀)
    (hs : Shifting h₀ l₀ disp₀ idx 0 h disp) (hk : Stop h₀ idx k) (ht : 1 < k)
    (hzero : h₀.dib idx = 0) {d : Nat} (hd : disp (succMod h₀.nBuckets idx) = some (d + 1)) : d = 0 := by
  have hlt : idx < h₀.nBuckets := hs₀.inside idx hidx
  have hleft : succMod h₀.nBuckets idx < h₀.nBuckets := succMod_lt hs₀.table.pos idx
  obtain ⟨e₀, he₀⟩ := hs₀.exists_disp (hs₀.mem_of_not_stop hleft (hk.before 1 Nat.one_pos ht))
  have hkey : (h.bucket (succMod h₀.nBuckets idx)).key = (h₀.bucket (succMod h₀.nBuckets idx)).key := by
    have hentry := hs.entry _ hleft
    exact congrArg Prod.fst hentry
  have hsame : e₀ = d + 1 := by
    have h₁ := (hs₀.table.home _ _ he₀).2.2.2
    have h₂ := (hs.table.home _ _ hd).2.2.2
    unfold bucketHash bucketDistance at h₁ h₂
    rw [hkey, hs.frame.hashOps, hs.frame.hashKey, hs.frame.nBuckets] at h₂
    exact h₁.symm.trans h₂
  rw [hsame] at he₀
  obtain ⟨e, hle, he⟩ := hs₀.ordered idx hlt d he₀
  have hraw := (hs₀.table.home idx e he).2.2.1
  unfold dibRawOverflow at hraw
  omega

theorem distMod_ne {n i t : Nat} (hidx : idx < n) (hi : i < n) (hne : i ≠ (idx + t) % n) : distMod n idx i ≠ t := by
  rintro rfl
  exact hne (add_distMod hidx hi).symm

/-- The lowest entry is not behind the hole, since the bucket of the hole was in use. -/
theorem Shifting.lowest_le (hs₀ : Stored h₀ l₀ disp₀) (hidx : idx ∈ l₀)
    (hs : Shifting h₀ l₀ disp₀ idx t h disp) (hk : Stop h₀ idx k) (ht : t + 1 < k)
    (hind : h.hasIndirect = true) : h.idxLowestEntry ≤ (idx + t) % h₀.nBuckets := by
  have hlt : idx < h₀.nBuckets := hs₀.inside idx hidx
  have hhole : (idx + t) % h₀.nBuckets < h₀.nBuckets := Nat.mod_lt _ hs₀.table.pos
  rw [hs.frame.hasIndirect] at hind
  rw [hs.lowest]
  refine hs₀.table.lowest hind _ ?_ hhole
  cases t with
  | zero => rwa [Nat.add_zero, Nat.mod_eq_of_lt hlt]
  | succ t => exact hs₀.mem_of_not_stop hhole (hk.before (t + 1) (Nat.succ_pos t) (by omega))

/-- An entry that is not at home moves into the empty bucket in front of it, and is one bucket closer to home. -/
theorem Table.moveBack (ht : Table h l disp) {hole left d : Nat} (hd : disp left = some (d + 1))
    (hsucc : succMod h.nBuckets hole = left) (hlt : hole < h.nBuckets) (hout : hole ∉ l)
    (hempty : disp hole = none) (hne : left ≠ hole)
    (hlowest : h.hasIndirect = true → h.idxLowestEntry ≤ hole) :
    Table { h.bucketMoveEntry left hole with
        dib := update (h.bucketMoveEntry left hole).dib hole (min d dibRawOverflow) }
      (l.map (Threaded.renamed left hole)) (update (update disp hole (some d)) left none) ∧
    (l.map (Threaded.renamed left hole)).map (h.bucketMoveEntry left hole).entry = l.map h.entry := by
  obtain ⟨-, hmem, -, hdist⟩ := ht.home _ _ hd
  have hleft : update disp left none left = none := update_self ..
  have hhole : update disp left none hole = none := by
    rw [update_of_ne (Ne.symm hne)]
    exact hempty
  obtain ⟨hmoved, hentries⟩ := (ht.unplace left).move hmem hout hleft (.inl hlt) fun hind _ => hlowest hind
  have hkey : ((h.bucketMoveEntry left hole).bucket hole).key = (h.bucket left).key := by
    rw [key_bucketMoveEntry, if_pos rfl]
  have hplaced := (hmoved.setDib hhole (min d dibRawOverflow)).place (i := hole) (d := d) hlt
    ((Threaded.mem_map_renamed hmem).mpr (.inl rfl)) (update_self ..) (by
      show h.bucketDistance hole (h.bucketHash ((h.bucketMoveEntry left hole).bucket hole).key) = d
      rw [hkey, bucketDistance_eq]
      apply distMod_pred (ht.bucketHash_lt _) hlt
      rw [hsucc]
      exact hdist)
  exact ⟨by rwa [update_comm (Ne.symm hne)], hentries⟩

/-- Which entry each bucket has after one more move. -/
theorem Shifting.entry_step (hs : Shifting h₀ l₀ disp₀ idx t h disp) (hlt : idx < h₀.nBuckets)
    (ht : t + 1 < h₀.nBuckets) {i : Nat} (hi : i < h₀.nBuckets) :
    (h.bucketMoveEntry ((idx + (t + 1)) % h₀.nBuckets) ((idx + t) % h₀.nBuckets)).entry i =
      if distMod h₀.nBuckets idx i < t + 1 then h₀.entry (succMod h₀.nBuckets i) else h₀.entry i := by
  rw [entry_bucketMoveEntry]
  by_cases hih : i = (idx + t) % h₀.nBuckets
  · have hat := hs.entry _ (Nat.mod_lt (idx + (t + 1)) (by omega : 0 < h₀.nBuckets))
    rw [distMod_eq hlt ht rfl, if_neg (by omega)] at hat
    rw [if_pos hih, hat, hih, distMod_eq hlt (by omega) rfl, if_pos (Nat.lt_succ_self t), succMod_add]
  · have hdi := distMod_ne hlt hi hih
    rw [if_neg hih, hs.entry i hi]
    by_cases hdt : distMod h₀.nBuckets idx i < t
    · rw [if_pos hdt, if_pos (by omega)]
    · rw [if_neg hdt, if_neg (by omega)]

/-- Which DIBs were written after one more move. -/
theorem Shifting.dib_step (hs : Shifting h₀ l₀ disp₀ idx t h disp) (hlt : idx < h₀.nBuckets)
    (ht : t + 1 < h₀.nBuckets) (d : Nat) {i : Nat} (hi : i < h₀.nBuckets) :
    if distMod h₀.nBuckets idx i < t + 1 then
      update h.dib ((idx + t) % h₀.nBuckets) (min d dibRawOverflow) i < dibRawRehash
    else update h.dib ((idx + t) % h₀.nBuckets) (min d dibRawOverflow) i = h₀.dib i := by
  by_cases hih : i = (idx + t) % h₀.nBuckets
  · rw [hih, distMod_eq hlt (by omega) rfl, if_pos (Nat.lt_succ_self t), update_self]
    unfold dibRawOverflow dibRawRehash
    omega
  · have hdi := distMod_ne hlt hi hih
    have hold := hs.dib i hi
    rw [update_of_ne hih]
    by_cases hdt : distMod h₀.nBuckets idx i < t
    · rw [if_pos hdt] at hold
      rw [if_pos (by omega)]
      exact hold
    · rw [if_neg hdt] at hold
      rw [if_neg (by omega)]
      exact hold

/-- One entry is moved into the hole. -/
theorem Shifting.step (hs₀ : Stored h₀ l₀ disp₀) (hidx : idx ∈ l₀)
    (hs : Shifting h₀ l₀ disp₀ idx t h disp) (hk : Stop h₀ idx k) (ht : t + 1 < k) {d : Nat}
    (hd : disp ((idx + (t + 1)) % h₀.nBuckets) = some (d + 1)) :
    Shifting h₀ l₀ disp₀ idx (t + 1)
      ((h.bucketMoveEntry ((idx + (t + 1)) % h₀.nBuckets) ((idx + t) % h₀.nBuckets)).bucketSetDib
        ((idx + t) % h₀.nBuckets) d)
      (Function.update (Function.update disp ((idx + t) % h₀.nBuckets) (some d))
        ((idx + (t + 1)) % h₀.nBuckets) none) := by
  have hn : h.nBuckets = h₀.nBuckets := hs.frame.nBuckets
  have hlt : idx < h₀.nBuckets := hs₀.inside idx hidx
  have htk : t + 1 < h₀.nBuckets := Nat.lt_of_lt_of_le ht hk.le
  have hsucc : succMod h₀.nBuckets ((idx + t) % h₀.nBuckets) = (idx + (t + 1)) % h₀.nBuckets :=
    succMod_add ..
  have hdhole : distMod h₀.nBuckets idx ((idx + t) % h₀.nBuckets) = t := distMod_eq hlt (by omega) rfl
  have hdleft : distMod h₀.nBuckets idx ((idx + (t + 1)) % h₀.nBuckets) = t + 1 :=
    distMod_eq hlt htk rfl
  have hholelt : (idx + t) % h₀.nBuckets < h₀.nBuckets := Nat.mod_lt _ hs₀.table.pos
  have hlowest := hs.lowest_le hs₀ hidx hk ht
  have hL : (l₀.filter (· ≠ idx)).map (shiftedIdx h₀.nBuckets idx (t + 1)) =
      ((l₀.filter (· ≠ idx)).map (shiftedIdx h₀.nBuckets idx t)).map
        (Threaded.renamed ((idx + (t + 1)) % h₀.nBuckets) ((idx + t) % h₀.nBuckets)) := by
    rw [map_map]
    apply map_congr_left
    intro i hi
    exact (shiftedIdx_succ hlt (hs₀.inside i (mem_filter.mp hi).1) htk).symm
  have hentry := fun i => hs.entry_step hlt htk (i := i)
  have hdib := fun i => hs.dib_step hlt htk d (i := i)
  have hfirst : t = 0 → h₀.dib idx = 0 → d = 0 := by
    rintro rfl hzero
    exact hs.first_eq_zero hs₀ hidx hk ht hzero hd
  have hdlt := hs.table.disp_lt hd
  have hsmall := hs.table.small
  rw [bucketSetDib_eq (by unfold dibFree; omega)]
  have htable := hs.table
  have hentries := hs.entries
  have hout := hs.out
  have hstops := hs.stops
  have hmem := (htable.home _ _ hd).2.1
  have hhole := hs.hole
  rw [hn] at hhole
  have hshift := hhole.shift hholelt (by rw [hsucc]; exact hd)
  rw [hsucc] at hshift
  -- from here on, only the buckets `left` and `hole` and the list of indices matter
  generalize (l₀.filter (· ≠ idx)).map (shiftedIdx h₀.nBuckets idx t) = lt at hL htable hentries hout hstops hmem
  generalize hleft : (idx + (t + 1)) % h₀.nBuckets = left at *
  generalize (idx + t) % h₀.nBuckets = hole at *
  have hne : left ≠ hole := by
    rintro rfl
    omega
  obtain ⟨hplaced, hmoved⟩ := htable.moveBack hd (by rw [hn]; exact hsucc) (by rw [hn]; exact hholelt) hout
    hhole.empty hne hlowest
  have hmem' : ∀ i, i ∈ lt.map (Threaded.renamed left hole) ↔ i = hole ∨ i ∈ lt ∧ i ≠ left :=
    fun i => Threaded.mem_map_renamed hmem
  refine ⟨⟨hs.frame.hashOps, hs.frame.type, hs.frame.sharedHashKey, hs.frame.hashKey,
    hs.frame.hasIndirect, hs.frame.nEntries, hs.frame.nBuckets⟩, hs.lowest, ?_, ?_, ?_, hentry, hdib, ?_, ?_, ?_⟩
  · rw [hL]
    exact hplaced
  · rw [hleft]
    show Hole h.nBuckets _ left
    rw [hn]
    exact hshift
  · rw [hL]
    exact hmoved.trans hentries
  · rw [hL, hleft, hmem']
    rintro (heq | ⟨-, heq⟩)
    · exact hne heq
    · exact heq rfl
  -- the buckets without an entry in place are those from before, less the old hole
  · intro i hi hdi hil
    rw [hleft] at hil
    have hih : i ≠ hole := by
      rintro rfl
      rw [update_of_ne hil, update_self] at hdi
      cases hdi
    rw [update_of_ne hil, update_of_ne hih] at hdi
    obtain ⟨hfree, hnot⟩ := hstops i hi hdi hih
    refine ⟨(update_of_ne hih _ _).trans hfree, ?_⟩
    rw [hL, hmem']
    rintro (heq | ⟨hin, -⟩)
    · exact hih heq
    · exact hnot hin
  -- the bucket of the removed entry is the hole in the first round only
  · intro hzero d' hd'
    have hil : idx ≠ left := by
      intro heq
      rw [← heq, distMod_self] at hdleft
      omega
    rw [update_of_ne hil] at hd'
    by_cases hih : idx = hole
    · rw [← hih, update_self] at hd'
      cases hd'
      rw [← hih, distMod_self] at hdhole
      exact hfirst hdhole.symm hzero
    · rw [update_of_ne hih] at hd'
      exact hs.first hzero d' hd'

end Step

/-! ## Removing an entry -/

/-- The loop moves all entries in front of the stop bucket. -/
theorem shiftBackwards_spec {h₀ : HashmapBase P HK} {l₀ : List Nat} {disp₀ : Nat → Option Nat}
    {n t k : Nat} (hs₀ : Stored h₀ l₀ disp₀) (hidx : idx ∈ l₀)
    (hs : Shifting h₀ l₀ disp₀ idx t h disp) (hk : Stop h₀ idx k) (ht : t < k) (hn : k ≤ t + n) :
    ∃ h' disp', shiftBackwards n h ((idx + t) % h₀.nBuckets) ((idx + (t + 1)) % h₀.nBuckets)
        ((idx + k) % h₀.nBuckets) = some (h', (idx + (k - 1)) % h₀.nBuckets) ∧
      Shifting h₀ l₀ disp₀ idx (k - 1) h' disp' := by
  induction n generalizing h disp t with
  | zero => omega
  | succ n ih =>
    have hlt : idx < h₀.nBuckets := hs₀.inside idx hidx
    rw [shiftBackwards]
    by_cases hlast : t + 1 = k
    · rw [if_pos (by rw [hlast])]
      obtain rfl : t = k - 1 := by omega
      exact ⟨h, disp, rfl, hs⟩
    · have hk' := hk.le
      have htk : t + 1 < h₀.nBuckets := by omega
      have hdleft := distMod_eq hlt htk rfl
      have hdhole := distMod_eq hlt (show t < h₀.nBuckets by omega) rfl
      have hstop : (idx + (t + 1)) % h₀.nBuckets ≠ (idx + k) % h₀.nBuckets := by
        intro heq
        by_cases hkn : k = h₀.nBuckets
        · rw [hkn, Nat.add_mod_right, Nat.mod_eq_of_lt hlt] at heq
          exact mod_ne_self hlt (Nat.succ_pos t) htk heq
        · have hdk := distMod_eq hlt (show k < h₀.nBuckets by omega) heq.symm
          omega
      rw [if_neg hstop]
      obtain ⟨d, hd⟩ := hs.exists_disp hs₀ hidx hk (by omega)
      rw [hs.table.bucketCalculateDib_eq hd, if_neg, hs.nextIdx, Nat.add_sub_cancel]
      · exact ih (hs.step hs₀ hidx hk (by omega) hd) (by omega) (by omega)
      · rintro (hzero | heq)
        · omega
        · rw [heq, hdhole] at hdleft
          omega

/-- The entry behind the hole is at home when the loop is over. -/
theorem Shifting.stop_eq_zero {h₀ : HashmapBase P HK} {l₀ : List Nat} {disp₀ : Nat → Option Nat}
    {k : Nat} (hs₀ : Stored h₀ l₀ disp₀) (hidx : idx ∈ l₀) (hk : Stop h₀ idx k)
    (hs : Shifting h₀ l₀ disp₀ idx (k - 1) h disp) {d : Nat}
    (hd : disp ((idx + k) % h₀.nBuckets) = some d) : d = 0 := by
  have hlt : idx < h₀.nBuckets := hs₀.inside idx hidx
  have hraw := (hs.table.home _ _ hd).2.2.1
  have hkle := hk.le
  by_cases hround : k = h₀.nBuckets
  · -- the removed entry itself was the stop
    have hat : (idx + k) % h₀.nBuckets = idx := by
      rw [hround, Nat.add_mod_right, Nat.mod_eq_of_lt hlt]
    have hstop := hk.stop
    rw [hat] at hstop hd
    refine hs.first ?_ d hd
    rcases hstop with hzero | hfree
    · exact hzero
    · obtain ⟨e, he⟩ := hs₀.exists_disp hidx
      exact absurd hfree (hs₀.table.dib_ne_free he)
  · have hsame := hs.dib ((idx + k) % h₀.nBuckets) (Nat.mod_lt _ hs₀.table.pos)
    rw [distMod_eq hlt (by omega) rfl, if_neg (by omega)] at hsame
    rcases hk.stop with hzero | hfree
    · unfold dibRawOverflow at hraw
      omega
    · exact absurd (hsame.trans hfree) (hs.table.dib_ne_free hd)

/-- What `base_remove_entry` does: the `k - 1` entries in front of the stop bucket have
    moved one bucket back. -/
structure Removed [Inhabited P] (h : HashmapBase P HK) (l : List Nat) (idx k : Nat)
    (h' : HashmapBase P HK) (disp' : Nat → Option Nat) : Prop where
  stop : Stop h idx k
  stored : Stored h' ((l.filter (· ≠ idx)).map (shiftedIdx h.nBuckets idx (k - 1))) disp'
  entries : ((l.filter (· ≠ idx)).map (shiftedIdx h.nBuckets idx (k - 1))).map h'.entry =
    (l.filter (· ≠ idx)).map h.entry
  entry : ∀ i < h.nBuckets, h'.entry i =
    if distMod h.nBuckets idx i < k - 1 then h.entry (succMod h.nBuckets i)
    else if distMod h.nBuckets idx i = k - 1 then (default, default) else h.entry i
  hashOps : h'.hashOps = h.hashOps
  type : h'.type = h.type
  sharedHashKey : h'.sharedHashKey = h.sharedHashKey
  hashKey : h'.hashKey = h.hashKey
  hasIndirect : h'.hasIndirect = h.hasIndirect
  nEntries : h'.nEntries + 1 = h.nEntries
  nBuckets : h'.nBuckets = h.nBuckets

section Remove

variable [Inhabited P]

/-- The hole is marked free. -/
theorem Shifting.removed {h₀ : HashmapBase P HK} {l₀ : List Nat} {disp₀ : Nat → Option Nat} {k : Nat}
    (hs₀ : Stored h₀ l₀ disp₀) (hidx : idx ∈ l₀) (hk : Stop h₀ idx k)
    (hs : Shifting h₀ l₀ disp₀ idx (k - 1) h disp) :
    Removed h₀ l₀ idx k
      { h.bucketMarkFree ((idx + (k - 1)) % h₀.nBuckets) with nEntries := h.nEntries - 1 } disp := by
  have hn : h.nBuckets = h₀.nBuckets := hs.frame.nBuckets
  have hlt : idx < h₀.nBuckets := hs₀.inside idx hidx
  have hkpos := hk.pos
  have hkle := hk.le
  have hsucc : succMod h₀.nBuckets ((idx + (k - 1)) % h₀.nBuckets) = (idx + k) % h₀.nBuckets := by
    rw [succMod_add, Nat.sub_add_cancel hkpos]
  have hordered : Ordered h₀.nBuckets disp := by
    have hhole := hs.hole
    rw [hn] at hhole
    refine hhole.ordered_of_stop fun d hd => ?_
    rw [hsucc] at hd
    exact hs.stop_eq_zero hs₀ hidx hk hd
  have hholelt : (idx + (k - 1)) % h₀.nBuckets < h₀.nBuckets := Nat.mod_lt _ hs₀.table.pos
  have hdhole : distMod h₀.nBuckets idx ((idx + (k - 1)) % h₀.nBuckets) = k - 1 :=
    distMod_eq hlt (by omega) rfl
  obtain ⟨hbucket, hsame⟩ := hs.table.setBucket hs.out zeroEntry
  have htable := hbucket.setDib hs.hole.empty dibRawFree
  -- one entry less
  have hlen : (l₀.filter (· ≠ idx)).length + 1 = l₀.length := by
    obtain ⟨a, b, rfl⟩ := append_of_mem hidx
    rw [filter_ne_eq_append hs₀.table.nodup]
    simp only [length_append, length_cons]
    omega
  have hsize : h.nEntries = l₀.length := hs.frame.nEntries.trans hs₀.size
  have hinside : ∀ i ∈ (l₀.filter (· ≠ idx)).map (shiftedIdx h₀.nBuckets idx (k - 1)),
      i < h₀.nBuckets := by
    intro i hi
    obtain ⟨j, hj, rfl⟩ := mem_map.mp hi
    unfold shiftedIdx
    split
    · exact Nat.mod_lt _ hs₀.table.pos
    · exact hs₀.inside j (mem_filter.mp hj).1
  refine ⟨hk, ⟨?_, ?_, ?_, ?_, ?_, ?_, ?_⟩, hsame.trans hs.entries, ?_, hs.frame.hashOps, hs.frame.type,
    hs.frame.sharedHashKey, hs.frame.hashKey, hs.frame.hasIndirect, ?_, hs.frame.nBuckets⟩
  · exact { htable with }
  · show Ordered h.nBuckets disp
    rw [hn]
    exact hordered
  · show ∀ i ∈ _, i < h.nBuckets
    rw [hn]
    exact hinside
  · intro i hi hd
    replace hi : i < h₀.nBuckets := hn ▸ hi
    show update h.dib ((idx + (k - 1)) % h₀.nBuckets) dibRawFree i = dibRawFree ∧ _
    by_cases hih : i = (idx + (k - 1)) % h₀.nBuckets
    · rw [hih, update_self]
      exact ⟨rfl, hs.out⟩
    · rw [update_of_ne hih]
      exact hs.stops i hi hd hih
  · show h.nEntries - 1 = _
    rw [length_map, hsize]
    omega
  · have hsized := hs₀.sized
    have hentries := hs.frame.nEntries
    cases hsized with
    | direct hind hbuckets hle =>
      refine .direct (hs.frame.hasIndirect.trans hind) ?_ ?_
      · show h.nBuckets = h.type.nDirectBuckets
        rw [hn, hs.frame.type]
        exact hbuckets
      · show h.nEntries - 1 ≤ h.nBuckets
        omega
    | indirect hind hshift hbuckets hle =>
      refine .indirect (hs.frame.hasIndirect.trans hind) hshift ?_ ?_
      · show h.nBuckets = _ / h.type.bucketSize
        rw [hn, hs.frame.type]
        exact hbuckets
      · show h.nEntries - 1 + (h.nEntries - 1) / 4 ≤ h.nBuckets
        omega
  · refine ⟨(idx + (k - 1)) % h₀.nBuckets, by show _ < h.nBuckets; rw [hn]; exact hholelt, ?_⟩
    intro d hd
    rw [hs.hole.empty] at hd
    cases hd
  · intro i hi
    by_cases hih : i = (idx + (k - 1)) % h₀.nBuckets
    · rw [hih, hdhole, if_neg (Nat.lt_irrefl _), if_pos rfl]
      have hself : update h.bucket ((idx + (k - 1)) % h₀.nBuckets) zeroEntry
          ((idx + (k - 1)) % h₀.nBuckets) = zeroEntry := update_self ..
      exact congrArg (fun e : HashmapEntry P => (e.key, e.value)) hself
    · have hdi : distMod h₀.nBuckets idx i ≠ k - 1 := by
        intro heq
        apply hih
        rw [← heq, add_distMod hlt hi]
      have hother : update h.bucket ((idx + (k - 1)) % h₀.nBuckets) zeroEntry i = h.bucket i :=
        update_of_ne hih _ _
      rw [if_neg hdi, ← hs.entry i hi]
      exact congrArg (fun e : HashmapEntry P => (e.key, e.value)) hother
  · show h.nEntries - 1 + 1 = h₀.nEntries
    have hentries := hs.frame.nEntries
    omega

/-- `base_remove_entry` returns, without the entry. -/
theorem baseRemoveEntry_spec (hs : Stored h l disp) (hidx : idx ∈ l) :
    ∃ h' k disp', h.baseRemoveEntry idx = some h' ∧ Removed h l idx k h' disp' := by
  have hlt : idx < h.nBuckets := hs.inside idx hidx
  obtain ⟨d, hd⟩ := hs.exists_disp hidx
  obtain ⟨k, hk, hfind⟩ := hs.exists_stop hlt
  have hkpos := hk.pos
  have hkle := hk.le
  have hshifting := hs.shifting hidx
  have hzero : (idx + 0) % h.nBuckets = idx := Nat.mod_eq_of_lt hlt
  have hunlinked : (if h.type = .ordered then h.unlink idx else h).nBuckets = h.nBuckets :=
    hshifting.frame.nBuckets
  obtain ⟨h', disp', hloop, hend⟩ := shiftBackwards_spec (n := h.nBuckets) hs hidx hshifting hk hkpos
    (by omega)
  rw [hzero] at hloop
  refine ⟨_, k, disp', ?_, hend.removed hs hidx hk⟩
  unfold baseRemoveEntry
  have hnext : ∀ g : HashmapBase P HK, g.nBuckets = h.nBuckets →
      g.nextIdx idx = (idx + (0 + 1)) % h.nBuckets := by
    intro g hg
    unfold nextIdx
    rw [hg]
  rw [if_neg (hs.table.dib_ne_free hd), hfind]
  dsimp only
  rw [hunlinked, hnext _ hunlinked, hloop]
  rfl

end Remove

end HashmapBase

end Elogind
