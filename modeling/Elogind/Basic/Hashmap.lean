/-
  Elogind.Basic.Hashmap

  Hashmaps, ordered hashmaps and sets (hashmap.c): open addressing with linear
  probing, Robin Hood insertion and backward shift deletion.

  Keys and values are pointers `P`, of which `default` is NULL.  Of `HashmapBase`
  and its storage the model has what `n_buckets()`, `n_entries()` and `hash_key()`
  give for the storage in use; the caches of iterated entries, for which `dirty` is
  kept, are not compiled.  The swap slots of a call are further buckets, at the
  indices that the source gives them; what an earlier call has left there is of no
  use to anyone.

  A function that does not return, or in which an assertion fails, is `none`.  The
  loops over buckets are given as many rounds as there are buckets.
-/

import Elogind.Basic.Errno

namespace Elogind

/-! ## Data -/

/-- `struct hash_ops`: how keys are hashed with a hash key, and whether they compare
    equal.  Keys that are equal have the same hash. -/
structure HashOps (P HK : Type) where
  hash : HK → P → Nat
  equal : P → P → Bool
  equal_refl : ∀ a, equal a a = true
  equal_symm : ∀ a b, equal a b = true → equal b a = true
  equal_trans : ∀ a b c, equal a b = true → equal b c = true → equal a c = true
  hash_eq : ∀ a b, equal a b = true → ∀ key, hash key a = hash key b

inductive HashmapType where
  | plain
  | ordered
  | set
  deriving DecidableEq, Repr

namespace HashmapType

/-- `entry_size` -/
def entrySize : HashmapType → Nat
  | plain => 16
  | ordered => 24
  | set => 8

/-- The size of an entry and its DIB. -/
def bucketSize (type : HashmapType) : Nat := type.entrySize + 1

/-- `n_direct_buckets` -/
def nDirectBuckets (type : HashmapType) : Nat := 39 / type.bucketSize

end HashmapType

def idxPut : Nat := 2 ^ 32 - 4
def idxTmp : Nat := 2 ^ 32 - 3
def idxFirst : Nat := 2 ^ 32 - 2
def idxNil : Nat := 2 ^ 32 - 1

def dibRawOverflow : Nat := 0xfd
def dibRawRehash : Nat := 0xfe
def dibRawFree : Nat := 0xff

/-- `DIB_FREE` -/
def dibFree : Nat := 2 ^ 32 - 1

/-- `struct ordered_hashmap_entry`; the links are only used by ordered hashmaps, the
    value not by sets. -/
structure HashmapEntry (P : Type) where
  key : P
  value : P
  iterateNext : Nat := 0
  iteratePrevious : Nat := 0

/-- `HashmapBase` -/
structure HashmapBase (P HK : Type) where
  hashOps : HashOps P HK
  type : HashmapType
  sharedHashKey : HK
  hashKey : HK
  hasIndirect : Bool
  nEntries : Nat
  nBuckets : Nat
  idxLowestEntry : Nat
  bucket : Nat → HashmapEntry P
  dib : Nat → Nat
  iterateListHead : Nat
  iterateListTail : Nat

/-- What `resize_buckets` finds: whether `realloc` succeeds, and the new hash key. -/
structure ResizeEnv (HK : Type) where
  allocated : Bool
  hashKey : HK

/-- `Iterator` -/
structure Iterator (P : Type) where
  idx : Nat
  nextKey : P

namespace HashmapBase

variable {P HK : Type}

/-! ## Buckets -/

/-- `base_bucket_hash` -/
def bucketHash (h : HashmapBase P HK) (p : P) : Nat := h.hashOps.hash h.hashKey p % h.nBuckets

/-- `bucket_distance` -/
def bucketDistance (h : HashmapBase P HK) (idx start : Nat) : Nat :=
  if start ≤ idx then idx - start else h.nBuckets + idx - start

/-- `bucket_calculate_dib` -/
def bucketCalculateDib (h : HashmapBase P HK) (idx rawDib : Nat) : Nat :=
  if rawDib = dibRawFree then dibFree
  else if rawDib < dibRawOverflow then rawDib
  else h.bucketDistance idx (h.bucketHash (h.bucket idx).key)

/-- `bucket_set_dib` -/
def bucketSetDib (h : HashmapBase P HK) (idx dib : Nat) : HashmapBase P HK :=
  { h with
    dib := Function.update h.dib idx (if dib ≠ dibFree then min dib dibRawOverflow else dibRawFree) }

/-- `next_idx` -/
def nextIdx (h : HashmapBase P HK) (idx : Nat) : Nat := (idx + 1) % h.nBuckets

/-- `prev_idx` -/
def prevIdx (h : HashmapBase P HK) (idx : Nat) : Nat := (h.nBuckets + idx - 1) % h.nBuckets

/-- The loop of `skip_free_buckets`, over `n` buckets. -/
def skipFreeLoop (h : HashmapBase P HK) : Nat → Nat → Nat
  | 0, _ => idxNil
  | n + 1, idx => if h.dib idx ≠ dibRawFree then idx else h.skipFreeLoop n (idx + 1)

/-- `skip_free_buckets` -/
def skipFreeBuckets (h : HashmapBase P HK) (idx : Nat) : Nat := h.skipFreeLoop (h.nBuckets - idx) idx

def setNext (bucket : Nat → HashmapEntry P) (idx next : Nat) : Nat → HashmapEntry P :=
  Function.update bucket idx { bucket idx with iterateNext := next }

def setPrevious (bucket : Nat → HashmapEntry P) (idx previous : Nat) : Nat → HashmapEntry P :=
  Function.update bucket idx { bucket idx with iteratePrevious := previous }

/-- What `bucket_move_entry` does to the links of an ordered hashmap, after it has copied
    the entry to `dst`. -/
def relink (bucket : Nat → HashmapEntry P) (dst : Nat) : Nat → HashmapEntry P :=
  let bucket :=
    if (bucket dst).iterateNext ≠ idxNil then setPrevious bucket (bucket dst).iterateNext dst
    else bucket
  if (bucket dst).iteratePrevious ≠ idxNil then setNext bucket (bucket dst).iteratePrevious dst
  else bucket

/-- `bucket_move_entry` -/
def bucketMoveEntry (h : HashmapBase P HK) (src dst : Nat) : HashmapBase P HK :=
  let bucket := Function.update h.bucket dst (h.bucket src)
  { h with
    bucket := if h.type = .ordered then relink bucket dst else bucket
    iterateListHead :=
      if h.type = .ordered ∧ h.iterateListHead = src then dst else h.iterateListHead
    iterateListTail :=
      if h.type = .ordered ∧ h.iterateListTail = src then dst else h.iterateListTail }

/-- `entry_value` -/
def entryValue (h : HashmapBase P HK) (idx : Nat) : P :=
  match h.type with
  | .plain | .ordered => (h.bucket idx).value
  | .set => (h.bucket idx).key

section Null

variable [Inhabited P]

/-- An entry that was zeroed. -/
def zeroEntry : HashmapEntry P := { key := default, value := default }

/-- `bucket_mark_free` -/
def bucketMarkFree (h : HashmapBase P HK) (idx : Nat) : HashmapBase P HK :=
  { h with bucket := Function.update h.bucket idx zeroEntry }.bucketSetDib idx dibFree

/-! ## Removing an entry -/

/-- A bucket that is free or whose entry is at home. -/
def IsStop (h : HashmapBase P HK) (idx : Nat) : Prop := h.dib idx = 0 ∨ h.dib idx = dibRawFree

instance (h : HashmapBase P HK) (idx : Nat) : Decidable (h.IsStop idx) :=
  inferInstanceAs (Decidable (_ ∨ _))

/-- The loop of `base_remove_entry` that finds the stop bucket. -/
def findStop (h : HashmapBase P HK) (left : Nat) : Nat → Nat → Option Nat
  | 0, _ => none
  | n + 1, right =>
    if h.IsStop right then some right
    else if left = right then none
    else h.findStop left n (h.nextIdx right)

/-- The entry leaves the list of an ordered hashmap. -/
def unlink (h : HashmapBase P HK) (idx : Nat) : HashmapBase P HK :=
  let next := (h.bucket idx).iterateNext
  let previous := (h.bucket idx).iteratePrevious
  let bucket := if next ≠ idxNil then setPrevious h.bucket next previous else h.bucket
  { h with
    bucket := if previous ≠ idxNil then setNext bucket previous next else bucket
    iterateListTail := if next ≠ idxNil then h.iterateListTail else previous
    iterateListHead := if previous ≠ idxNil then h.iterateListHead else next }

/-- The loop of `base_remove_entry` that shifts buckets one step backwards.  It gives
    the bucket that is free in the end. -/
def shiftBackwards : Nat → HashmapBase P HK → (prev left right : Nat) → Option (HashmapBase P HK × Nat)
  | 0, _, _, _, _ => none
  | n + 1, h, prev, left, right =>
    if left = right then some (h, prev)
    else
      let dib := h.bucketCalculateDib left (h.dib left)
      if dib = 0 ∨ left = prev then none
      else
        shiftBackwards n ((h.bucketMoveEntry left prev).bucketSetDib prev (dib - 1)) left (h.nextIdx left)
          right

/-- `base_remove_entry` -/
def baseRemoveEntry (h : HashmapBase P HK) (idx : Nat) : Option (HashmapBase P HK) :=
  if h.dib idx = dibRawFree then none
  else
    match h.findStop idx h.nBuckets (h.nextIdx idx) with
    | none => none
    | some right =>
      let h := if h.type = .ordered then h.unlink idx else h
      match shiftBackwards h.nBuckets h idx (h.nextIdx idx) right with
      | none => none
      | some (h, prev) =>
        let h := h.bucketMarkFree prev
        some { h with nEntries := h.nEntries - 1 }

/-! ## Iterating -/

/-- `ITERATOR_FIRST` -/
def iteratorFirst : Iterator P := { idx := idxFirst, nextKey := default }

end Null

/-- The last part of `hashmap_iterate_in_insertion_order`, at the entry in bucket `idx`. -/
def stepInInsertionOrder (h : HashmapBase P HK) (i : Iterator P) (idx : Nat) : Iterator P × Nat :=
  if (h.bucket idx).iterateNext ≠ idxNil then
    ({ idx := (h.bucket idx).iterateNext, nextKey := (h.bucket (h.bucket idx).iterateNext).key }, idx)
  else ({ i with idx := idxNil }, idx)

/-- The last part of `hashmap_iterate_in_internal_order`, at the entry in bucket `idx`. -/
def stepInInternalOrder (h : HashmapBase P HK) (i : Iterator P) (idx : Nat) : Iterator P × Nat :=
  let next := h.skipFreeBuckets (idx + 1)
  if next ≠ idxNil then ({ idx := next, nextKey := (h.bucket next).key }, idx)
  else ({ i with idx := idxNil }, idx)

section Equality

variable [DecidableEq P]

/-- `hashmap_iterate_in_insertion_order` -/
def hashmapIterateInInsertionOrder (h : HashmapBase P HK) (i : Iterator P) : Option (Iterator P × Nat) :=
  if i.idx = idxNil ∨ (i.idx = idxFirst ∧ h.iterateListHead = idxNil) then
    some ({ i with idx := idxNil }, idxNil)
  else if i.idx = idxFirst then some (h.stepInInsertionOrder i h.iterateListHead)
  else
    let idx := if (h.bucket i.idx).key ≠ i.nextKey then h.prevIdx i.idx else i.idx
    if (h.bucket idx).key = i.nextKey then some (h.stepInInsertionOrder i idx) else none

/-- `hashmap_iterate_in_internal_order` -/
def hashmapIterateInInternalOrder (h : HashmapBase P HK) (i : Iterator P) :
    Option (HashmapBase P HK × Iterator P × Nat) :=
  if i.idx = idxNil then some (h, { i with idx := idxNil }, idxNil)
  else if i.idx = idxFirst then
    -- fast forward to the first occupied bucket
    let idx := h.skipFreeBuckets (if h.hasIndirect then h.idxLowestEntry else 0)
    let h := if h.hasIndirect then { h with idxLowestEntry := idx } else h
    if idx = idxNil then some (h, { i with idx := idxNil }, idxNil)
    else some (h, h.stepInInternalOrder i idx)
  else if i.idx = 0 then none
  else
    let idx := if (h.bucket i.idx).key ≠ i.nextKey then i.idx - 1 else i.idx
    if (h.bucket idx).key = i.nextKey then some (h, h.stepInInternalOrder i idx) else none

/-- `hashmap_iterate_entry` -/
def hashmapIterateEntry (h : HashmapBase P HK) (i : Iterator P) :
    Option (HashmapBase P HK × Iterator P × Nat) :=
  if h.type = .ordered then (h.hashmapIterateInInsertionOrder i).map fun s => (h, s)
  else h.hashmapIterateInInternalOrder i

end Equality

/-! ## Putting an entry -/

/-- The loop of `hashmap_put_robin_hood`. -/
def putRobinHoodLoop : Nat → HashmapBase P HK → (idx distance : Nat) → Option (HashmapBase P HK × Bool)
  | 0, _, _, _ => none
  | n + 1, h, idx, distance =>
    let rawDib := h.dib idx
    if rawDib = dibRawFree ∨ rawDib = dibRawRehash then
      let h := if rawDib = dibRawRehash then h.bucketMoveEntry idx idxTmp else h
      let h :=
        { h with
          idxLowestEntry :=
            if h.hasIndirect ∧ idx < h.idxLowestEntry then idx else h.idxLowestEntry }
      let h := (h.bucketSetDib idx distance).bucketMoveEntry idxPut idx
      if rawDib = dibRawRehash then some (h.bucketMoveEntry idxTmp idxPut, true)
      else some (h, false)
    else
      let dib := h.bucketCalculateDib idx rawDib
      if dib < distance then
        -- a wealthier entry: swap the two
        let h := (h.bucketSetDib idx distance).bucketMoveEntry idx idxTmp
        let h := (h.bucketMoveEntry idxPut idx).bucketMoveEntry idxTmp idxPut
        putRobinHoodLoop n h (h.nextIdx idx) (dib + 1)
      else putRobinHoodLoop n h (h.nextIdx idx) (distance + 1)

/-- `hashmap_put_robin_hood` -/
def hashmapPutRobinHood (h : HashmapBase P HK) (idx : Nat) : Option (HashmapBase P HK × Bool) :=
  putRobinHoodLoop h.nBuckets h idx 0

section Resize

variable [Inhabited P]

/-- The inner loop of `resize_buckets`: an entry finds its new bucket, and may make
    another one homeless. -/
def rehashEntry : Nat → HashmapBase P HK → (optimalIdx nRehashed : Nat) → Option (HashmapBase P HK × Nat)
  | 0, _, _, _ => none
  | n + 1, h, optimalIdx, nRehashed =>
    match h.hashmapPutRobinHood optimalIdx with
    | none => none
    | some (h, false) => some (h, nRehashed + 1)
    | some (h, true) => rehashEntry n h (h.bucketHash (h.bucket idxPut).key) (nRehashed + 1)

/-- The entry of a bucket is taken into the swap slot. -/
def takeOut (h : HashmapBase P HK) (idx : Nat) : HashmapBase P HK :=
  let h := { h with dib := Function.update h.dib idx dibRawFree }.bucketMoveEntry idx idxPut
  { h with bucket := Function.update h.bucket idx zeroEntry }

/-- The outer loop of `resize_buckets`, from bucket `idx` on. -/
def rehashBuckets (h : HashmapBase P HK) (idx nRehashed : Nat) : Nat → Option (HashmapBase P HK × Nat)
  | 0 => some (h, nRehashed)
  | n + 1 =>
    if h.dib idx ≠ dibRawRehash then h.rehashBuckets (idx + 1) nRehashed n
    else
      let optimalIdx := h.bucketHash (h.bucket idx).key
      if optimalIdx = idx then
        { h with dib := Function.update h.dib idx 0 }.rehashBuckets (idx + 1) (nRehashed + 1) n
      else
        match rehashEntry h.nBuckets (h.takeOut idx) optimalIdx nRehashed with
        | none => none
        | some (h, nRehashed) => h.rehashBuckets (idx + 1) nRehashed n

/-- `log2u_round_up` -/
def log2uRoundUp (x : Nat) : Nat := if x ≤ 1 then 0 else Nat.log2 (x - 1) + 1

/-- The storage after it was reallocated, with every entry yet to be rehashed. -/
def reallocated (h : HashmapBase P HK) (hashKey : HK) (newShift : Nat) : HashmapBase P HK :=
  { h with
    hashKey := hashKey
    idxLowestEntry := if h.hasIndirect then h.idxLowestEntry else 0
    hasIndirect := true
    nBuckets := 2 ^ newShift / h.type.bucketSize
    bucket := fun idx =>
      if h.nBuckets ≤ idx ∧ idx < 2 ^ newShift / h.type.bucketSize then zeroEntry else h.bucket idx
    dib := fun idx =>
      if idx < h.nBuckets ∧ h.dib idx ≠ dibRawFree then dibRawRehash else dibRawFree }

/-- `resize_buckets`.  A shift by 32 or more is not defined. -/
def resizeBuckets (h : HashmapBase P HK) (entriesAdd : Nat) (env : ResizeEnv HK) :
    Option (HashmapBase P HK × Int) :=
  let newNEntries := (h.nEntries + entriesAdd) % 2 ^ 32
  if newNEntries < entriesAdd then some (h, Errno.ENOMEM.neg)
  -- For direct storage we allow 100% load, because it's tiny.
  else if !h.hasIndirect ∧ newNEntries ≤ h.type.nDirectBuckets then some (h, 0)
  else
    let newNBuckets := (newNEntries + newNEntries / (5 - 1)) % 2 ^ 32
    if newNBuckets < newNEntries then some (h, Errno.ENOMEM.neg)
    else if (2 ^ 32 - 1) / h.type.bucketSize < newNBuckets then some (h, Errno.ENOMEM.neg)
    else if newNBuckets ≤ h.nBuckets then some (h, 0)
    else
      let newShift := log2uRoundUp (max (newNBuckets * h.type.bucketSize) (2 * 39))
      if 32 ≤ newShift then none
      else if !env.allocated then some (h, Errno.ENOMEM.neg)
      else if ∃ idx < h.nBuckets, h.dib idx = dibRawRehash then none
      else
        match (h.reallocated env.hashKey newShift).rehashBuckets 0 0 h.nBuckets with
        | none => none
        | some (h, nRehashed) => if nRehashed = h.nEntries then some (h, 1) else none

/-- The entry in `IDX_PUT` is put at the end of the list of an ordered hashmap. -/
def linkLast (h : HashmapBase P HK) : Option (HashmapBase P HK) :=
  let tail := h.iterateListTail
  let bucket := setPrevious (setNext h.bucket idxPut idxNil) idxPut tail
  if tail ≠ idxNil ∧ (bucket tail).iterateNext ≠ idxNil then none
  else
    some { h with
      bucket := if tail ≠ idxNil then setNext bucket tail idxPut else bucket
      iterateListTail := idxPut
      iterateListHead := if h.iterateListHead = idxNil then idxPut else h.iterateListHead }

/-- The last part of `hashmap_base_put_boldly`, after the hashmap was resized.  The new
    entry is in the swap slot of the caller. -/
def putEntry (h : HashmapBase P HK) (idx : Nat) (key value : P) : Option (HashmapBase P HK × Int) :=
  if h.nBuckets ≤ h.nEntries then none
  else
    let h := { h with bucket := Function.update h.bucket idxPut { key := key, value := value } }
    match (if h.type = .ordered then h.linkLast else some h) with
    | none => none
    | some h =>
      match h.hashmapPutRobinHood idx with
      | some (h, false) => some ({ h with nEntries := h.nEntries + 1 }, 1)
      | _ => none

/-- `hashmap_base_put_boldly`; without `env`, the hashmap may not be resized. -/
def hashmapBasePutBoldly (h : HashmapBase P HK) (idx : Nat) (key value : P)
    (env : Option (ResizeEnv HK)) : Option (HashmapBase P HK × Int) :=
  if h.nBuckets ≤ idx then none
  else
    match env with
    | none => h.putEntry idx key value
    | some env =>
      match h.resizeBuckets 1 env with
      | none => none
      | some (h, r) =>
        if r < 0 then some (h, r)
        else h.putEntry (if 0 < r then h.bucketHash key else idx) key value

end Resize

/-! ## Looking for an entry -/

/-- The loop of `base_bucket_scan`. -/
def bucketScanLoop (h : HashmapBase P HK) (key : P) : Nat → (idx distance : Nat) → Option Nat
  | 0, _, _ => none
  | n + 1, idx, distance =>
    if h.dib idx = dibRawFree then some idxNil
    else
      let dib := h.bucketCalculateDib idx (h.dib idx)
      if dib < distance then some idxNil
      else if dib = distance ∧ h.hashOps.equal (h.bucket idx).key key then some idx
      else h.bucketScanLoop key n (h.nextIdx idx) (distance + 1)

/-- `base_bucket_scan` -/
def baseBucketScan (h : HashmapBase P HK) (idx : Nat) (key : P) : Option Nat :=
  if h.nBuckets ≤ idx then none else h.bucketScanLoop key (h.nBuckets + 1) idx 0

/-- The bucket of a key, or `IDX_NIL`. -/
def lookup (h : HashmapBase P HK) (key : P) : Option Nat := h.baseBucketScan (h.bucketHash key) key

end HashmapBase

end Elogind
