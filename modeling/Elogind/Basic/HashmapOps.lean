/-
  Elogind.Basic.HashmapOps

  The operations on hashmaps and sets (hashmap.h), and a program that calls them.

  A pointer to a hashmap is an address in `Maps`; where there is no hashmap at the
  address, the pointer is NULL.  A destructor does not touch the hashmaps.
-/

import Elogind.Basic.Hashmap

namespace Elogind

namespace HashmapBase

variable {P HK : Type} [Inhabited P]

/-! ## A new hashmap -/

/-- `reset_direct_storage`, and the list without an entry. -/
def resetDirectStorage (h : HashmapBase P HK) : HashmapBase P HK :=
  { h with
    hashKey := h.sharedHashKey
    hasIndirect := false
    nEntries := 0
    nBuckets := h.type.nDirectBuckets
    bucket := fun _ => zeroEntry
    dib := fun _ => dibRawFree
    iterateListHead := idxNil
    iterateListTail := idxNil }

/-- `hashmap_base_new`, once memory was allocated. -/
def hashmapBaseNew (hashOps : HashOps P HK) (type : HashmapType) (sharedHashKey : HK) :
    HashmapBase P HK :=
  resetDirectStorage
    { hashOps := hashOps
      type := type
      sharedHashKey := sharedHashKey
      hashKey := sharedHashKey
      hasIndirect := false
      nEntries := 0
      nBuckets := 0
      idxLowestEntry := 0
      bucket := fun _ => zeroEntry
      dib := fun _ => dibRawFree
      iterateListHead := idxNil
      iterateListTail := idxNil }

/-! ## Single keys -/

/-- The value of the entry at `idx` is written. -/
def setValue (h : HashmapBase P HK) (idx : Nat) (value : P) : HashmapBase P HK :=
  { h with bucket := Function.update h.bucket idx { h.bucket idx with value := value } }

/-- The key and the value of the entry at `idx` are written. -/
def setEntry (h : HashmapBase P HK) (idx : Nat) (key value : P) : HashmapBase P HK :=
  { h with bucket := Function.update h.bucket idx { h.bucket idx with key := key, value := value } }

section Equality

variable [DecidableEq P]

/-- `hashmap_put` -/
def hashmapPut (h : HashmapBase P HK) (key value : P) (env : ResizeEnv HK) :
    Option (HashmapBase P HK × Int) :=
  match h.lookup key with
  | none => none
  | some idx =>
    if idx ≠ idxNil then
      if (h.bucket idx).value = value then some (h, 0) else some (h, Errno.EEXIST.neg)
    else h.hashmapBasePutBoldly (h.bucketHash key) key value (some env)

end Equality

/-- `set_put` -/
def setPut (h : HashmapBase P HK) (key : P) (env : ResizeEnv HK) : Option (HashmapBase P HK × Int) :=
  match h.lookup key with
  | none => none
  | some idx =>
    if idx ≠ idxNil then some (h, 0)
    else h.hashmapBasePutBoldly (h.bucketHash key) key default (some env)

/-- `hashmap_replace` -/
def hashmapReplace (h : HashmapBase P HK) (key value : P) (env : ResizeEnv HK) :
    Option (HashmapBase P HK × Int) :=
  match h.lookup key with
  | none => none
  | some idx =>
    if idx ≠ idxNil then some (h.setEntry idx key value, 0)
    else h.hashmapBasePutBoldly (h.bucketHash key) key value (some env)

/-- `hashmap_update` -/
def hashmapUpdate (h : HashmapBase P HK) (key value : P) : Option (HashmapBase P HK × Int) :=
  match h.lookup key with
  | none => none
  | some idx => if idx = idxNil then some (h, Errno.ENOENT.neg) else some (h.setValue idx value, 0)

/-- `_hashmap_get` -/
def hashmapGet (h : HashmapBase P HK) (key : P) : Option P :=
  match h.lookup key with
  | none => none
  | some idx => if idx = idxNil then some default else some (h.entryValue idx)

/-- `_hashmap_contains` -/
def hashmapContains (h : HashmapBase P HK) (key : P) : Option Bool :=
  match h.lookup key with
  | none => none
  | some idx => some (decide (idx ≠ idxNil))

/-- `_hashmap_remove` -/
def hashmapRemove (h : HashmapBase P HK) (key : P) : Option (HashmapBase P HK × P) :=
  match h.lookup key with
  | none => none
  | some idx =>
    if idx = idxNil then some (h, default)
    else (h.baseRemoveEntry idx).map fun h' => (h', h.entryValue idx)

/-- `_hashmap_remove_value` -/
def hashmapRemoveValue [DecidableEq P] (h : HashmapBase P HK) (key value : P) :
    Option (HashmapBase P HK × P) :=
  match h.lookup key with
  | none => none
  | some idx =>
    if idx = idxNil then some (h, default)
    else if h.entryValue idx ≠ value then some (h, default)
    else (h.baseRemoveEntry idx).map fun h' => (h', value)

/-- `hashmap_remove_and_put`; for `set_remove_and_put` the value is not used. -/
def hashmapRemoveAndPut (h : HashmapBase P HK) (oldKey newKey value : P) :
    Option (HashmapBase P HK × Int) :=
  match h.lookup oldKey with
  | none => none
  | some idx =>
    if idx = idxNil then some (h, Errno.ENOENT.neg)
    else
      match h.lookup newKey with
      | none => none
      | some idxNew =>
        if idxNew ≠ idxNil then some (h, Errno.EEXIST.neg)
        else
          match h.baseRemoveEntry idx with
          | none => none
          | some h' =>
            match h'.hashmapBasePutBoldly (h.bucketHash newKey) newKey value none with
            | some (h'', 1) => some (h'', 0)
            | _ => none

/-! ## The first entry -/

section Iterate

variable [DecidableEq P]

/-- `find_first_entry` -/
def findFirstEntry (h : HashmapBase P HK) : Option (HashmapBase P HK × Nat) :=
  if h.nEntries = 0 then some (h, idxNil)
  else (h.hashmapIterateEntry iteratorFirst).map fun s => (s.1, s.2.2)

/-- `_hashmap_first_key_and_value`; it gives the key and the value. -/
def hashmapFirstKeyAndValue (h : HashmapBase P HK) (remove : Bool) : Option (HashmapBase P HK × P × P) :=
  match h.findFirstEntry with
  | none => none
  | some (h, idx) =>
    if idx = idxNil then some (h, default, default)
    else if remove then
      (h.baseRemoveEntry idx).map fun h' => (h', (h.bucket idx).key, h.entryValue idx)
    else some (h, (h.bucket idx).key, h.entryValue idx)

/-- The loop of `_hashmap_clear` that takes out every entry, with the keys and values that
    the destructors are called for. -/
def clearLoop : Nat → HashmapBase P HK → List (P × P) → Option (HashmapBase P HK × List (P × P))
  | 0, _, _ => none
  | n + 1, h, freed =>
    if 0 < h.nEntries then
      match h.hashmapFirstKeyAndValue true with
      | none => none
      | some (h, entry) => clearLoop n h (freed ++ [entry])
    else some (h, freed)

/-- `_hashmap_clear` -/
def hashmapClear (h : HashmapBase P HK) (destructors : Bool) :
    Option (HashmapBase P HK × List (P × P)) :=
  if destructors then
    (clearLoop (h.nEntries + 1) h []).map fun s => (s.1.resetDirectStorage, s.2)
  else some (h.resetDirectStorage, [])

end Iterate

end HashmapBase

/-! ## Several hashmaps -/

/-- The hashmaps of a program, by their addresses. -/
abbrev Maps (P HK : Type) : Type := Nat → Option (HashmapBase P HK)

namespace Maps

open HashmapBase

variable {P HK : Type} [Inhabited P] [DecidableEq P]

/-- What is called for an entry of the other hashmap. -/
def mergePut (h : HashmapBase P HK) (key value : P) (env : ResizeEnv HK) :
    Option (HashmapBase P HK × Int) :=
  match h.type with
  | .plain | .ordered => h.hashmapPut key value env
  | .set => h.setPut key env

/-- The loop of `_hashmap_merge` and of `set_merge`. -/
def mergeLoop (h other : Nat) : Nat → Maps P HK → Iterator P → (Nat → ResizeEnv HK) → Option (Maps P HK × Int)
  | 0, _, _, _ => none
  | n + 1, maps, i, env =>
    match maps other with
    | none => some (maps, 0)
    | some source =>
      match source.hashmapIterateEntry i with
      | none => none
      | some (source, i, idx) =>
        let maps := Function.update maps other (some source)
        if idx = idxNil then some (maps, 0)
        else
          match maps h with
          | none => none
          | some target =>
            match mergePut target (source.bucket idx).key (source.bucket idx).value (env n) with
            | none => none
            | some (target, r) =>
              let maps := Function.update maps h (some target)
              if r < 0 ∧ r ≠ Errno.EEXIST.neg then some (maps, r)
              else mergeLoop h other n maps i env

/-- `_hashmap_merge` and `set_merge` -/
def hashmapMerge (maps : Maps P HK) (h other : Nat) (env : Nat → ResizeEnv HK) :
    Option (Maps P HK × Int) :=
  if (maps h).isNone then none
  else mergeLoop h other (((maps other).elim 0 HashmapBase.nBuckets) + 1) maps iteratorFirst env

/-- `_hashmap_copy`: the copy of the hashmap at `h` is at `copy`, unless there is no memory
    for it. -/
def hashmapCopy (maps : Maps P HK) (h copy : Nat) (allocated : Bool) (env : Nat → ResizeEnv HK) :
    Option (Maps P HK) :=
  match maps h with
  | none => none
  | some source =>
    if !allocated then some maps
    else
      let empty := hashmapBaseNew source.hashOps source.type source.sharedHashKey
      match hashmapMerge (Function.update maps copy (some empty)) copy h env with
      | none => none
      | some (maps, r) => if r < 0 then some (Function.update maps copy none) else some maps

end Maps

/-! ## A program -/

/-- What a call returns. -/
inductive Ret (P : Type) where
  | code (r : Int)
  | pointer (p : P)
  | bool (b : Bool)
  | number (n : Nat)
  | item (e : P × P)
  /-- Nothing; these are the keys and values the destructors were called for. -/
  | freed (items : List (P × P))
  deriving DecidableEq

/-- The calls with one hashmap or set. -/
inductive MapOp (P HK : Type) where
  | put (key value : P) (env : ResizeEnv HK)
  | setPut (key : P) (env : ResizeEnv HK)
  | replace (key value : P) (env : ResizeEnv HK)
  | update (key value : P)
  | get (key : P)
  | contains (key : P)
  | size
  | remove (key : P)
  | removeValue (key value : P)
  | removeAndPut (oldKey newKey value : P)
  | setRemoveAndPut (oldKey newKey : P)
  | first (steal : Bool)
  | clear (destructors : Bool)

namespace MapOp

variable {P HK : Type} [Inhabited P]

/-- A call for a hashmap. -/
def call [DecidableEq P] (h : HashmapBase P HK) : MapOp P HK → Option (HashmapBase P HK × Ret P)
  | put key value env => (h.hashmapPut key value env).map fun s => (s.1, .code s.2)
  | setPut key env => (h.setPut key env).map fun s => (s.1, .code s.2)
  | replace key value env => (h.hashmapReplace key value env).map fun s => (s.1, .code s.2)
  | update key value => (h.hashmapUpdate key value).map fun s => (s.1, .code s.2)
  | get key => (h.hashmapGet key).map fun p => (h, .pointer p)
  | contains key => (h.hashmapContains key).map fun b => (h, .bool b)
  | size => some (h, .number h.nEntries)
  | remove key => (h.hashmapRemove key).map fun s => (s.1, .pointer s.2)
  | removeValue key value => (h.hashmapRemoveValue key value).map fun s => (s.1, .pointer s.2)
  | removeAndPut oldKey newKey value =>
    (h.hashmapRemoveAndPut oldKey newKey value).map fun s => (s.1, .code s.2)
  | setRemoveAndPut oldKey newKey =>
    (h.hashmapRemoveAndPut oldKey newKey default).map fun s => (s.1, .code s.2)
  | first steal => (h.hashmapFirstKeyAndValue steal).map fun s => (s.1, .item s.2)
  | clear destructors => (h.hashmapClear destructors).map fun s => (s.1, .freed s.2)

/-- A call with NULL for the hashmap, where this is allowed. -/
def callNull : MapOp P HK → Option (Ret P)
  | put .. | setPut .. | replace .. | update .. => none
  | get _ | remove _ | removeValue .. => some (.pointer default)
  | contains _ => some (.bool false)
  | size => some (.number 0)
  | removeAndPut .. | setRemoveAndPut .. => some (.code Errno.ENOENT.neg)
  | first _ => some (.item (default, default))
  | clear _ => some (.freed [])

end MapOp

/-- The calls of a program. -/
inductive MapsOp (P HK : Type) where
  | new (h : Nat) (type : HashmapType) (allocated : Bool)
  | on (h : Nat) (op : MapOp P HK)
  | merge (h other : Nat) (env : Nat → ResizeEnv HK)
  | copy (h copy : Nat) (allocated : Bool) (env : Nat → ResizeEnv HK)

namespace Maps

variable {P HK : Type} [Inhabited P] [DecidableEq P]

/-- One call. -/
def step (hashOps : HashOps P HK) (sharedHashKey : HK) (maps : Maps P HK) :
    MapsOp P HK → Option (Maps P HK × Ret P)
  | .new h type allocated =>
    if allocated then
      some (Function.update maps h (some (HashmapBase.hashmapBaseNew hashOps type sharedHashKey)), .bool true)
    else some (maps, .bool false)
  | .on h op =>
    match maps h with
    | none => op.callNull.map fun ret => (maps, ret)
    | some map => (op.call map).map fun s => (Function.update maps h (some s.1), s.2)
  | .merge h other env => (hashmapMerge maps h other env).map fun s => (s.1, .code s.2)
  | .copy h copy allocated env =>
    (hashmapCopy maps h copy allocated env).map fun maps' => (maps', .bool (maps' copy).isSome)

/-- Several calls, one after the other, with what they return. -/
def run (hashOps : HashOps P HK) (sharedHashKey : HK) :
    Maps P HK → List (MapsOp P HK) → Option (Maps P HK × List (Ret P))
  | maps, [] => some (maps, [])
  | maps, op :: ops =>
    match step hashOps sharedHashKey maps op with
    | none => none
    | some (maps, ret) => (run hashOps sharedHashKey maps ops).map fun s => (s.1, ret :: s.2)

/-- A program starts without a hashmap. -/
def initial : Maps P HK := fun _ => none

/-- The calls that the types of the hashmaps and sets allow, with pointers that may not be
    NULL where the callee asserts this. -/
def Allowed (maps : Maps P HK) : MapsOp P HK → Prop
  | .new h _ _ => maps h = none
  | .on h (.put ..) | .on h (.replace ..) | .on h (.update ..) => ∃ map, maps h = some map ∧ map.type ≠ .set
  | .on h (.setPut ..) => ∃ map, maps h = some map ∧ map.type = .set
  | .on h (.removeAndPut ..) => ∀ map, maps h = some map → map.type ≠ .set
  | .on h (.setRemoveAndPut ..) => ∀ map, maps h = some map → map.type = .set
  | .on _ _ => True
  | .merge h other _ => ∃ map, maps h = some map ∧
      ∀ map', maps other = some map' → (map'.type = .set ↔ map.type = .set)
  | .copy h copy _ _ => maps h ≠ none ∧ maps copy = none

end Maps

end Elogind
