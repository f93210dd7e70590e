/-
  Elogind.Basic.HashmapPut

  Robin Hood insertion (hashmap_put_robin_hood).  The entry to put is in a swap slot;
  on its way it may change places with entries that are closer to their home.
-/

import Elogind.Basic.HashmapTable

namespace Elogind

open Lib Lib.RobinHood Function

namespace HashmapBase

variable {P HK : Type} {h h' : HashmapBase P HK} {l l' : List Nat} {disp : Nat → Option Nat}
  {idx distance : Nat}

/-- What the entries of a table are put into stays the same. -/
structure SameFrame (h h' : HashmapBase P HK) : Prop where
  hashOps : h'.hashOps = h.hashOps
  type : h'.type = h.type
  sharedHashKey : h'.sharedHashKey = h.sharedHashKey
  hashKey : h'.hashKey = h.hashKey
  hasIndirect : h'.hasIndirect = h.hasIndirect
  nEntries : h'.nEntries = h.nEntries
  nBuckets : h'.nBuckets = h.nBuckets

theorem SameFrame.refl (h : HashmapBase P HK) : SameFrame h h := ⟨rfl, rfl, rfl, rfl, rfl, rfl, rfl⟩

theorem SameFrame.trans {h'' : HashmapBase P HK} (h₁ : SameFrame h h') (h₂ : SameFrame h' h'') :
    SameFrame h h'' :=
  ⟨h₂.hashOps.trans h₁.hashOps, h₂.type.trans h₁.type, h₂.sharedHashKey.trans h₁.sharedHashKey,
    h₂.hashKey.trans h₁.hashKey, h₂.hasIndirect.trans h₁.hasIndirect,
    h₂.nEntries.trans h₁.nEntries, h₂.nBuckets.trans h₁.nBuckets⟩

/-- What holds at the head of the loop: the entry in the swap slot is tried at `idx`,
    which is `distance` from its home. -/
structure Carrying (h : HashmapBase P HK) (l : List Nat) (disp : Nat → Option Nat)
    (idx distance : Nat) : Prop where
  table : Table h l disp
  ordered : Ordered h.nBuckets disp
  put : idxPut ∈ l
  tmp : idxTmp ∉ l
  /-- A bucket without an entry in place is free, or has an entry to be rehashed. -/
  stops : ∀ i < h.nBuckets, disp i = none →
    (h.dib i = dibRawFree ∧ i ∉ l) ∨ (h.dib i = dibRawRehash ∧ i ∈ l)
  lt : idx < h.nBuckets
  dist : h.bucketDistance idx (h.bucketHash (h.bucket idxPut).key) = distance
  follows : Follows h.nBuckets disp idx distance

theorem bucketSetDib_eq {d : Nat} (hd : d < dibFree) (h : HashmapBase P HK) (i : Nat) :
    h.bucketSetDib i d = { h with dib := Function.update h.dib i (min d dibRawOverflow) } := by
  unfold bucketSetDib
  rw [if_pos (Nat.ne_of_lt hd)]

namespace Carrying

theorem distance_lt (hc : Carrying h l disp idx distance) : distance < h.nBuckets := by
  rw [← hc.dist, bucketDistance_eq]
  exact distMod_lt (Nat.mod_lt _ hc.table.pos) hc.lt

theorem setDib_eq (hc : Carrying h l disp idx distance) (h' : HashmapBase P HK) (i : Nat) :
    h'.bucketSetDib i distance =
      { h' with dib := Function.update h'.dib i (min distance dibRawOverflow) } := by
  apply bucketSetDib_eq
  have hlt := hc.distance_lt
  have hsmall := hc.table.small
  unfold dibFree
  omega

theorem ne_put (hc : Carrying h l disp idx distance) : idx ≠ idxPut :=
  Nat.ne_of_lt (hc.table.lt_idxPut hc.lt)

theorem ne_tmp (hc : Carrying h l disp idx distance) : idx ≠ idxTmp := by
  have hlt := hc.table.lt_idxPut hc.lt
  unfold idxPut at hlt
  unfold idxTmp
  omega

/-- The distance in the next bucket is one more. -/
theorem distance_next (hc : Carrying h l disp idx distance) {home d : Nat}
    (hhome : home < h.nBuckets) (hd : distMod h.nBuckets home idx = d) (hlt : d + 1 < h.nBuckets) :
    distMod h.nBuckets home (succMod h.nBuckets idx) = d + 1 := by
  have hat := add_distMod hhome hc.lt
  rw [hd] at hat
  apply distMod_eq hhome hlt
  rw [← succMod_add, hat]

theorem distance_put (hc : Carrying h l disp idx distance) (hlt : distance + 1 < h.nBuckets) :
    h.bucketDistance (succMod h.nBuckets idx) (h.bucketHash (h.bucket idxPut).key) = distance + 1 :=
  hc.distance_next (hc.table.bucketHash_lt _) hc.dist hlt

/-- The entry in the bucket stays, and the next bucket is tried. -/
theorem pass (hc : Carrying h l disp idx distance) {e : Nat} (he : disp idx = some e)
    (hle : distance ≤ e) {stop : Nat} (hstop : stop < h.nBuckets) (hnone : disp stop = none) :
    Carrying h l disp (succMod h.nBuckets idx) (distance + 1) := by
  obtain ⟨-, -, -, hdist⟩ := hc.table.home idx e he
  have helt := hc.table.disp_lt he
  -- an entry that has gone all the way round would leave no empty bucket
  have hlt : distance + 1 < h.nBuckets := by
    by_contra hfar
    have hhome := hc.table.bucketHash_lt (h.bucket idx).key
    have hat := add_distMod hhome hc.lt
    rw [← bucketDistance_eq, hdist] at hat
    exact hc.ordered.full (d := e) hhome (by omega) (by rw [hat]; exact he) hstop hnone
  exact ⟨hc.table, hc.ordered, hc.put, hc.tmp, hc.stops, succMod_lt hc.table.pos idx,
    hc.distance_put hlt, Follows.next hc.lt he hle⟩

end Carrying

/-- The entry in a bucket and the entry in the swap slot change places. -/
def swapEntries (h : HashmapBase P HK) (idx : Nat) : HashmapBase P HK :=
  ((h.bucketMoveEntry idx idxTmp).bucketMoveEntry idxPut idx).bucketMoveEntry idxTmp idxPut

theorem entry_swapEntries (h : HashmapBase P HK) (htmp : idx ≠ idxTmp) (i : Nat) :
    (h.swapEntries idx).entry i =
      if i = idxPut then h.entry idx else if i = idx then h.entry idxPut
      else if i = idxTmp then h.entry idx else h.entry i := by
  have hpt : idxTmp ≠ idxPut := by decide
  unfold swapEntries
  simp only [entry_bucketMoveEntry]
  by_cases h₁ : i = idxPut
  · rw [if_pos h₁, if_pos h₁, if_neg (Ne.symm htmp), if_pos trivial]
  rw [if_neg h₁, if_neg h₁]
  by_cases h₂ : i = idx
  · rw [if_pos h₂, if_pos h₂, if_neg (Ne.symm hpt)]
  rw [if_neg h₂, if_neg h₂]

/-- Two entries change places, while neither is regarded as being in its bucket. -/
theorem Table.swap (ht : Table h l disp) (hlt : idx < h.nBuckets) (hidx : idx ∈ l) (hput : idxPut ∈ l)
    (htmp : idxTmp ∉ l) (hnone : disp idx = none) :
    ∃ l', Table (h.swapEntries idx) l' disp ∧ l'.map (h.swapEntries idx).entry = l.map h.entry ∧
      ∀ i, i ∈ l' ↔ i ∈ l := by
  have hiput : idx ≠ idxPut := Nat.ne_of_lt (ht.lt_idxPut hlt)
  have hitmp : idx ≠ idxTmp := fun heq => htmp (heq ▸ hidx)
  have hpt : idxPut ≠ idxTmp := by decide
  have hbig : ∀ i, i = idxPut ∨ i = idxTmp → h.nBuckets ≤ i := by
    have hsmall := ht.small
    unfold idxPut idxTmp
    omega
  have hout : ∀ i, i = idxPut ∨ i = idxTmp → ¬i < h.nBuckets := fun i hi => Nat.not_lt.mpr (hbig i hi)
  have hdput : disp idxPut = none := ht.disp_eq_none (hbig _ (.inl rfl))
  have hdtmp : disp idxTmp = none := ht.disp_eq_none (hbig _ (.inr rfl))
  obtain ⟨h₁, e₁⟩ := ht.move hidx htmp hnone (.inr (.inr rfl))
    fun _ hlt => absurd hlt (hout _ (.inr rfl))
  have m₁ : ∀ i, i ∈ l.map (Threaded.renamed idx idxTmp) ↔ i = idxTmp ∨ i ∈ l ∧ i ≠ idx :=
    fun i => Threaded.mem_map_renamed hidx
  generalize l.map (Threaded.renamed idx idxTmp) = l₁ at h₁ e₁ m₁
  have hput₁ : idxPut ∈ l₁ := (m₁ _).mpr (.inr ⟨hput, Ne.symm hiput⟩)
  have hidx₁ : idx ∉ l₁ := fun hmem => ((m₁ _).mp hmem).elim hitmp fun h => h.2 rfl
  obtain ⟨h₂, e₂⟩ := h₁.move hput₁ hidx₁ hdput (.inl hlt) fun hind _ => ht.lowest hind idx hidx hlt
  have m₂ : ∀ i, i ∈ l₁.map (Threaded.renamed idxPut idx) ↔ i = idx ∨ i ∈ l₁ ∧ i ≠ idxPut :=
    fun i => Threaded.mem_map_renamed hput₁
  generalize l₁.map (Threaded.renamed idxPut idx) = l₂ at h₂ e₂ m₂
  have htmp₂ : idxTmp ∈ l₂ := (m₂ _).mpr (.inr ⟨(m₁ _).mpr (.inl rfl), Ne.symm hpt⟩)
  have hput₂ : idxPut ∉ l₂ := fun hmem => ((m₂ _).mp hmem).elim (Ne.symm hiput) fun h => h.2 rfl
  obtain ⟨h₃, e₃⟩ := h₂.move htmp₂ hput₂ hdtmp (.inr (.inl rfl))
    fun _ hlt => absurd hlt (hout _ (.inl rfl))
  have m₃ : ∀ i, i ∈ l₂.map (Threaded.renamed idxTmp idxPut) ↔ i = idxPut ∨ i ∈ l₂ ∧ i ≠ idxTmp :=
    fun i => Threaded.mem_map_renamed htmp₂
  refine ⟨_, h₃, e₃.trans (e₂.trans e₁), fun i => ?_⟩
  rw [m₃, m₂, m₁]
  constructor
  · rintro (rfl | ⟨rfl | ⟨rfl | ⟨hi, -⟩, -⟩, hne⟩)
    · exact hput
    · exact hidx
    · exact absurd rfl hne
    · exact hi
  · intro hi
    by_cases hp : i = idxPut
    · exact .inl hp
    refine .inr ⟨?_, fun heq => htmp (heq ▸ hi)⟩
    by_cases hx : i = idx
    · exact .inl hx
    · exact .inr ⟨.inr ⟨hi, hx⟩, hp⟩

/-- The entry in the swap slot has been exchanged for the one in bucket `idx`. -/
structure Exchanged (h : HashmapBase P HK) (l : List Nat) (disp : Nat → Option Nat)
    (idx distance : Nat) (k : HashmapBase P HK) (l' : List Nat) : Prop where
  frame : SameFrame h k
  table : Table k l' (Function.update disp idx (some distance))
  ordered : (∀ e, disp idx = some e → e ≤ distance) →
    Ordered k.nBuckets (Function.update disp idx (some distance))
  entries : l'.map k.entry = l.map h.entry
  mem : ∀ i, i ∈ l' ↔ i ∈ l
  stops : ∀ i < k.nBuckets, Function.update disp idx (some distance) i = none →
    (k.dib i = dibRawFree ∧ i ∉ l') ∨ (k.dib i = dibRawRehash ∧ i ∈ l')
  rehash : ∀ i, k.dib i = dibRawRehash → h.dib i = dibRawRehash
  key : (k.bucket idxPut).key = (h.bucket idx).key
  hash : ∀ p, k.bucketHash p = h.bucketHash p

theorem Carrying.exchange (hc : Carrying h l disp idx distance) (hidx : idx ∈ l) :
    ∃ l', Exchanged h l disp idx distance ((h.bucketSetDib idx distance).swapEntries idx) l' := by
  rw [hc.setDib_eq]
  have hnone : update disp idx none idx = none := update_self ..
  have htable : Table { h with dib := update h.dib idx (min distance dibRawOverflow) } l
      (update disp idx none) := (hc.table.unplace idx).setDib hnone _
  obtain ⟨l', ht, hentries, hmem⟩ := htable.swap hc.lt hidx hc.put hc.tmp hnone
  have hkeys := entry_swapEntries
    { h with dib := update h.dib idx (min distance dibRawOverflow) } hc.ne_tmp
  generalize hk : swapEntries { h with dib := update h.dib idx (min distance dibRawOverflow) }
    idx = k at ht hentries hkeys
  have hframe : SameFrame h k := by
    rw [← hk]
    exact ⟨rfl, rfl, rfl, rfl, rfl, rfl, rfl⟩
  have hkdib : k.dib = update h.dib idx (min distance dibRawOverflow) := by
    rw [← hk]
    rfl
  have hat : (k.bucket idx).key = (h.bucket idxPut).key := by
    have hp := congrArg Prod.fst (hkeys idx)
    rw [if_neg hc.ne_put, if_pos rfl] at hp
    exact hp
  have hhash : ∀ p, k.bucketHash p = h.bucketHash p := by
    intro p
    unfold bucketHash
    rw [hframe.hashOps, hframe.hashKey, hframe.nBuckets]
  refine ⟨l', hframe, ?_, ?_, hentries, hmem, ?_, ?_, ?_, hhash⟩
  · have hp := ht.place (d := distance) (by rw [hframe.nBuckets]; exact hc.lt) ((hmem idx).mpr hidx)
      (by rw [hkdib, update_self])
      (by rw [hhash, hat, bucketDistance_eq, hframe.nBuckets]; exact hc.dist)
    rwa [update_idem] at hp
  · intro hweak
    rw [hframe.nBuckets]
    exact hc.ordered.put hc.follows hweak
  · intro i hi hd
    rw [hframe.nBuckets] at hi
    have hne : i ≠ idx := by
      rintro rfl
      rw [update_self] at hd
      cases hd
    rw [update_of_ne hne] at hd
    rw [hkdib, update_of_ne hne, hmem]
    exact hc.stops i hi hd
  · intro i hi
    rw [hkdib] at hi
    by_cases hne : i = idx
    · subst hne
      rw [update_self] at hi
      unfold dibRawRehash dibRawOverflow at hi
      omega
    · rwa [update_of_ne hne] at hi
  · have hp := congrArg Prod.fst (hkeys idxPut)
    exact hp

/-- The entry in the swap slot takes the bucket of a wealthier one. -/
theorem Carrying.rob (hc : Carrying h l disp idx distance) {e : Nat} (he : disp idx = some e)
    (hlt : e < distance) {k : HashmapBase P HK} {l' : List Nat}
    (hx : Exchanged h l disp idx distance k l') :
    Carrying k l' (Function.update disp idx (some distance)) (succMod h.nBuckets idx) (e + 1) := by
  obtain ⟨-, -, -, hdist⟩ := hc.table.home idx e he
  have hdlt := hc.distance_lt
  refine ⟨hx.table, hx.ordered ?_, (hx.mem _).mpr hc.put, fun h => hc.tmp ((hx.mem _).mp h),
    hx.stops, ?_, ?_, ?_⟩
  · intro e' he'
    rw [he] at he'
    cases he'
    exact Nat.le_of_lt hlt
  · rw [hx.frame.nBuckets]
    exact succMod_lt hc.table.pos idx
  · rw [hx.hash, hx.key, bucketDistance_eq, hx.frame.nBuckets]
    exact hc.distance_next (hc.table.bucketHash_lt _) hdist (by omega)
  · rw [hx.frame.nBuckets]
    exact Follows.next hc.lt (update_self ..) (Nat.le_of_lt hlt)

/-! ## The end of the loop -/

/-- The entry in the swap slot has found its bucket; `r` says that another entry has
    come into the slot, which was still to be rehashed. -/
structure Settled (h : HashmapBase P HK) (l : List Nat) (disp : Nat → Option Nat)
    (h' : HashmapBase P HK) (l' : List Nat) (disp' : Nat → Option Nat) (r : Bool) : Prop where
  frame : SameFrame h h'
  table : Table h' l' disp'
  ordered : Ordered h'.nBuckets disp'
  entries : l'.map h'.entry = l.map h.entry
  tmp : idxTmp ∉ l'
  put : idxPut ∈ l' ↔ r = true
  stops : ∀ i < h'.nBuckets, disp' i = none →
    (h'.dib i = dibRawFree ∧ i ∉ l') ∨ (h'.dib i = dibRawRehash ∧ i ∈ l')
  card : (placed h.nBuckets disp').card = (placed h.nBuckets disp).card + 1
  rehash : ∀ i, h'.dib i = dibRawRehash → h.dib i = dibRawRehash
  /-- Some bucket is empty, or has an entry that is at home. -/
  anchor : ∃ i < h'.nBuckets, ∀ d, disp' i = some d → d = 0

/-- The lowest entry is known to be at `idx` or below. -/
def lowerEntry (h : HashmapBase P HK) (idx : Nat) : HashmapBase P HK :=
  { h with
    idxLowestEntry := if h.hasIndirect ∧ idx < h.idxLowestEntry then idx else h.idxLowestEntry }

theorem Table.lowerEntry (ht : Table h l disp) (idx : Nat) :
    Table (h.lowerEntry idx) l disp :=
  { ht with
    lowest := by
      intro hind i hi hlt
      have hle := ht.lowest hind i hi hlt
      show (if h.hasIndirect ∧ idx < h.idxLowestEntry then idx else h.idxLowestEntry) ≤ i
      split <;> omega }

theorem lowerEntry_le (h : HashmapBase P HK) (idx : Nat) (hind : h.hasIndirect = true) :
    (h.lowerEntry idx).idxLowestEntry ≤ idx := by
  show (if h.hasIndirect ∧ idx < h.idxLowestEntry then idx else h.idxLowestEntry) ≤ idx
  split
  · exact Nat.le_refl idx
  · next hnot =>
    by_contra hlt
    exact hnot ⟨hind, by omega⟩

/-- A table in which the entry has come into an empty bucket. -/
theorem Carrying.anchor (hc : Carrying h l disp idx distance) (hnone : disp idx = none) :
    ∃ i < h.nBuckets, ∀ d, Function.update disp idx (some distance) i = some d → d = 0 := by
  refine ⟨succMod h.nBuckets idx, succMod_lt hc.table.pos idx, ?_⟩
  intro d hd
  by_cases hself : succMod h.nBuckets idx = idx
  · -- there is only one bucket
    rw [hself, update_self] at hd
    cases hd
    have hone : ¬1 < h.nBuckets := fun hlt => succMod_ne_self hlt hc.lt hself
    have hlt := hc.distance_lt
    omega
  · rw [update_of_ne hself] at hd
    exact hc.ordered.eq_zero hc.lt hnone hd

/-- The entry in the swap slot is put into a free bucket. -/
theorem Carrying.settle_free (hc : Carrying h l disp idx distance) (hnone : disp idx = none)
    (hfree : h.dib idx = dibRawFree) :
    ∃ l', Settled h l disp (((h.lowerEntry idx).bucketSetDib idx distance).bucketMoveEntry idxPut idx)
      l' (Function.update disp idx (some distance)) false := by
  -- the free bucket is not in use, and the swap slot becomes unused
  have hidx : idx ∉ l := by
    rcases hc.stops idx hc.lt hnone with h | h
    · exact h.2
    · rw [hfree] at h
      cases h.1
  have hput : disp idxPut = none :=
    hc.table.disp_eq_none (Nat.le_of_not_lt fun hlt => absurd (hc.table.lt_idxPut hlt) (Nat.lt_irrefl _))
  rw [hc.setDib_eq]
  obtain ⟨ht, hentries⟩ := ((hc.table.lowerEntry idx).setDib hnone (min distance dibRawOverflow)).move
    hc.put hidx hput (.inl hc.lt) fun hind _ => lowerEntry_le h idx hind
  have hmem : ∀ i, i ∈ l.map (Threaded.renamed idxPut idx) ↔ i = idx ∨ i ∈ l ∧ i ≠ idxPut :=
    fun i => Threaded.mem_map_renamed hc.put
  have hat := key_bucketMoveEntry { h.lowerEntry idx with
    dib := update (h.lowerEntry idx).dib idx (min distance dibRawOverflow) } idxPut idx idx
  rw [if_pos rfl] at hat
  generalize l.map (Threaded.renamed idxPut idx) = l' at ht hentries hmem
  generalize hk : bucketMoveEntry { h.lowerEntry idx with
    dib := update (h.lowerEntry idx).dib idx (min distance dibRawOverflow) } idxPut idx = k
    at ht hentries hat
  have hframe : SameFrame h k := by
    rw [← hk]
    exact ⟨rfl, rfl, rfl, rfl, rfl, rfl, rfl⟩
  have hkdib : k.dib = update h.dib idx (min distance dibRawOverflow) := by
    rw [← hk]
    rfl
  have hhash : ∀ p, k.bucketHash p = h.bucketHash p := by
    intro p
    unfold bucketHash
    rw [hframe.hashOps, hframe.hashKey, hframe.nBuckets]
  refine ⟨l', hframe, ?_, ?_, hentries, ?_, ?_, ?_, ?_, ?_, ?_⟩
  · apply ht.place (by rw [hframe.nBuckets]; exact hc.lt) ((hmem idx).mpr (.inl rfl))
    · rw [hkdib, update_self]
    · rw [hhash, hat, bucketDistance_eq, hframe.nBuckets]
      exact hc.dist
  · rw [hframe.nBuckets]
    apply hc.ordered.put hc.follows
    intro e he
    rw [hnone] at he
    cases he
  · intro htmp
    rcases (hmem _).mp htmp with heq | ⟨htmp, -⟩
    · exact hc.ne_tmp heq.symm
    · exact hc.tmp htmp
  · constructor
    · intro hmem'
      rcases (hmem _).mp hmem' with heq | ⟨-, hne⟩
      · exact absurd heq.symm hc.ne_put
      · exact absurd rfl hne
    · intro hfalse
      cases hfalse
  · -- of the buckets without an entry in place, `idx` is one less
    intro i hi hd
    rw [hframe.nBuckets] at hi
    have hne : i ≠ idx := by
      rintro rfl
      rw [update_self] at hd
      cases hd
    have hnput : i ≠ idxPut := Nat.ne_of_lt (hc.table.lt_idxPut hi)
    rw [update_of_ne hne] at hd
    rw [hkdib, update_of_ne hne, hmem]
    simpa [hne, hnput] using hc.stops i hi hd
  · exact card_placed_put hc.lt hnone distance
  · intro i hi
    rw [hkdib] at hi
    by_cases hne : i = idx
    · subst hne
      rw [update_self] at hi
      unfold dibRawRehash dibRawOverflow at hi
      omega
    · rwa [update_of_ne hne] at hi
  · rw [hframe.nBuckets]
    exact hc.anchor hnone

/-- The entry in the swap slot is put into a bucket whose entry is still to be rehashed. -/
theorem Carrying.settle_rehash (hc : Carrying h l disp idx distance) (hnone : disp idx = none)
    (hrehash : h.dib idx = dibRawRehash) :
    ∃ l', Settled h l disp (((h.lowerEntry idx).bucketSetDib idx distance).swapEntries idx)
      l' (Function.update disp idx (some distance)) true := by
  have hidx : idx ∈ l := by
    rcases hc.stops idx hc.lt hnone with h | h
    · rw [hrehash] at h
      cases h.1
    · exact h.2
  have hlower : Carrying (h.lowerEntry idx) l disp idx distance :=
    ⟨hc.table.lowerEntry idx, hc.ordered, hc.put, hc.tmp, hc.stops, hc.lt, hc.dist, hc.follows⟩
  obtain ⟨l', hx⟩ := hlower.exchange hidx
  refine ⟨l', ⟨hx.frame.hashOps, hx.frame.type, hx.frame.sharedHashKey, hx.frame.hashKey,
    hx.frame.hasIndirect, hx.frame.nEntries, hx.frame.nBuckets⟩, hx.table, hx.ordered ?_, hx.entries,
    fun h => hc.tmp ((hx.mem _).mp h), ?_, hx.stops, card_placed_put hc.lt hnone distance, hx.rehash,
    hc.anchor hnone⟩
  · intro e he
    rw [hnone] at he
    cases he
  · exact ⟨fun _ => rfl, fun _ => (hx.mem _).mpr hc.put⟩

/-! ## The loop -/

theorem Settled.of_exchanged {k h' : HashmapBase P HK} {l₁ l' : List Nat} {disp' : Nat → Option Nat}
    {e : Nat} {r : Bool} (he : disp idx = some e) (hx : Exchanged h l disp idx distance k l₁)
    (hs : Settled k l₁ (Function.update disp idx (some distance)) h' l' disp' r) :
    Settled h l disp h' l' disp' r where
  frame := hx.frame.trans hs.frame
  table := hs.table
  ordered := hs.ordered
  entries := hs.entries.trans hx.entries
  tmp := hs.tmp
  put := hs.put
  stops := hs.stops
  card := by
    have hcard := hs.card
    rw [placed_swap he, hx.frame.nBuckets] at hcard
    exact hcard
  rehash i hi := hx.rehash i (hs.rehash i hi)
  anchor := hs.anchor

/-- The entry finds its bucket in fewer steps than there are to an empty one. -/
theorem putRobinHoodLoop_spec {n : Nat} (hc : Carrying h l disp idx distance)
    (hstop : ∃ k < n, disp ((idx + k) % h.nBuckets) = none) :
    ∃ h' l' disp' r, putRobinHoodLoop n h idx distance = some (h', r) ∧
      Settled h l disp h' l' disp' r := by
  induction n generalizing h l disp idx distance with
  | zero =>
    obtain ⟨k, hk, -⟩ := hstop
    omega
  | succ n ih =>
    obtain ⟨k, hk, hnone⟩ := hstop
    rw [putRobinHoodLoop]
    cases hd : disp idx with
    | none =>
      rcases hc.stops idx hc.lt hd with ⟨hfree, -⟩ | ⟨hrehash, -⟩
      · obtain ⟨l', hs⟩ := hc.settle_free hd hfree
        refine ⟨_, l', _, false, ?_, hs⟩
        rw [hfree, if_pos (.inl rfl), if_neg (by decide), if_neg (by decide)]
        rfl
      · obtain ⟨l', hs⟩ := hc.settle_rehash hd hrehash
        refine ⟨_, l', _, true, ?_, hs⟩
        rw [hrehash, if_pos (.inr rfl), if_pos rfl, if_pos rfl]
        rfl
    | some e =>
      have hdib := hc.table.dib_lt hd
      have hpos : k ≠ 0 := by
        rintro rfl
        rw [Nat.add_zero, Nat.mod_eq_of_lt hc.lt, hd] at hnone
        cases hnone
      obtain ⟨k, rfl⟩ : ∃ j, k = j + 1 := ⟨k - 1, by omega⟩
      have hback : (succMod h.nBuckets idx + k) % h.nBuckets = (idx + (k + 1)) % h.nBuckets := by
        unfold succMod
        rw [Nat.mod_add_mod, Nat.add_assoc, Nat.add_comm 1 k]
      rw [if_neg (by unfold dibRawRehash at hdib; unfold dibRawFree dibRawRehash; omega),
        hc.table.bucketCalculateDib_eq hd]
      by_cases hlt : e < distance
      · rw [if_pos hlt]
        obtain ⟨_, hidx, -, -⟩ := hc.table.home idx e hd
        obtain ⟨l₁, hx⟩ := hc.exchange hidx
        have hnext := hc.rob hd hlt hx
        obtain ⟨h', l', disp', r, heq, hs⟩ := ih hnext (by
          refine ⟨k, by omega, ?_⟩
          rw [hx.frame.nBuckets, hback, update_of_ne]
          · exact hnone
          · intro hself
            rw [hself, hd] at hnone
            cases hnone)
        exact ⟨h', l', disp', r, heq, .of_exchanged hd hx hs⟩
      · rw [if_neg hlt]
        have hnext := hc.pass hd (Nat.le_of_not_lt hlt) (Nat.mod_lt _ hc.table.pos) hnone
        exact ih hnext ⟨k, by omega, (congrArg disp hback).trans hnone⟩

/-- What holds when an entry is in the swap slot and is to be put. -/
structure Loaded (h : HashmapBase P HK) (l : List Nat) (disp : Nat → Option Nat) : Prop where
  table : Table h l disp
  ordered : Ordered h.nBuckets disp
  put : idxPut ∈ l
  tmp : idxTmp ∉ l
  stops : ∀ i < h.nBuckets, disp i = none →
    (h.dib i = dibRawFree ∧ i ∉ l) ∨ (h.dib i = dibRawRehash ∧ i ∈ l)
  room : l.length ≤ h.nBuckets

/-- If an entry is in the swap slot, some bucket has none. -/
theorem Loaded.exists_free (hl : Loaded h l disp) : ∃ i < h.nBuckets, disp i = none := by
  by_contra hfull
  have hsub : idxPut :: List.range h.nBuckets ⊆ l := by
    intro i hi
    rcases List.mem_cons.mp hi with rfl | hi
    · exact hl.put
    · have hlt := List.mem_range.mp hi
      cases hd : disp i with
      | none => exact absurd ⟨i, hlt, hd⟩ hfull
      | some d => exact (hl.table.home i d hd).2.1
  have hnodup : (idxPut :: List.range h.nBuckets).Nodup := by
    refine List.nodup_cons.mpr ⟨fun hmem => ?_, List.nodup_range⟩
    exact absurd (hl.table.lt_idxPut (List.mem_range.mp hmem)) (Nat.lt_irrefl _)
  have hle := (hnodup.subperm hsub).length_le
  rw [List.length_cons, List.length_range] at hle
  have hroom := hl.room
  omega

theorem hashmapPutRobinHood_spec (hl : Loaded h l disp) :
    ∃ h' l' disp' r, h.hashmapPutRobinHood (h.bucketHash (h.bucket idxPut).key) = some (h', r) ∧
      Settled h l disp h' l' disp' r := by
  have hlt := hl.table.bucketHash_lt (h.bucket idxPut).key
  have hc : Carrying h l disp (h.bucketHash (h.bucket idxPut).key) 0 :=
    ⟨hl.table, hl.ordered, hl.put, hl.tmp, hl.stops, hlt, by rw [bucketDistance_eq, distMod_self],
      .inl rfl⟩
  obtain ⟨i, hi, hnone⟩ := hl.exists_free
  apply putRobinHoodLoop_spec hc
  exact ⟨_, distMod_lt hlt hi, by rw [add_distMod hlt hi]; exact hnone⟩

end HashmapBase

end Elogind
