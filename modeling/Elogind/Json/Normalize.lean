/-
  Elogind.Json.Normalize

  Sorting the fields of all objects in a variant (sd-json.c).  `sd_json_variant_normalize` sorts what it takes
  for pairs of a key and a value, in arrays as well, and where the first elements are not strings it
  compares their addresses.
-/

import Elogind.Basic.StringUtil
import Elogind.Json.Equal
import Elogind.Lib.Sorting

namespace Elogind

open Lib

/-- `EMEDIUMTYPE` -/
def Errno.EMEDIUMTYPE : Errno := ⟨124, by decide⟩

/-- Where things are in memory: strings of the program, and the container that is made for the one at a
    place, which is given by the indices on the way to it. -/
structure JsonMemory where
  constString : Bytes → Nat
  container : List Nat → Nat

/-- The constant pointers: `JSON_VARIANT_MAGIC_TRUE` and so on. -/
def JsonScalar.magic {R : Type} : JsonScalar R → Nat
  | boolean true => 1
  | boolean false => 2
  | null => 3
  | integer _ => 4
  | unsigned _ => 5
  | real _ => 6
  | string _ => 7

namespace JsonVariant

variable {R : Type} [Double R]

/-- The pointer as a number. -/
def address (mem : JsonMemory) : JsonVariant R → Nat
  | scalar .magic x => x.magic
  | scalar .constString (.string s) => mem.constString s
  | scalar .constString _ => 0
  | scalar (.regular a _ _) _ => a
  | array (.regular a _ _) _ _ => a
  | array _ _ _ => 8
  | object (.regular a _ _) _ _ => a
  | object _ _ _ => 9

/-- `json_cmp_strings` -/
def jsonCmpStrings (mem : JsonMemory) : JsonVariant R → JsonVariant R → Ordering
  | scalar _ (.string s), scalar _ (.string t) => strcmp s t
  | v, w => compare (v.address mem) (w.address mem)

/-- The first `m/2*2` elements in pairs, and the rest. -/
def pairs : List (JsonVariant R) → List (JsonVariant R × JsonVariant R) × List (JsonVariant R)
  | x :: y :: es => ((x, y) :: (pairs es).1, (pairs es).2)
  | es => ([], es)

/-- `qsort(a, m/2, sizeof(sd_json_variant*)*2, json_cmp_strings)` -/
def sortPairs (q : Sorter) (mem : JsonMemory) (a : List (JsonVariant R)) : List (JsonVariant R) :=
  (q.sort (fun x y => jsonCmpStrings mem x.1 y.1) (pairs a).1).flatMap (fun p => [p.1, p.2]) ++ (pairs a).2

/-- The flag `normalized` of a new container, which must be set. -/
def checkNormalized : JsonVariant R → Result (JsonVariant R)
  | scalar p x => .ok (scalar p x)
  | array p c es => if c.normalized then .ok (array p c es) else .error Errno.ENOTUNIQ
  | object p c fs => if c.normalized then .ok (object p c fs) else .error Errno.ENOTUNIQ

mutual

/-- `sd_json_variant_normalize`, of the variant at this place. -/
def normalize (q : Sorter) (mem : JsonMemory) : List Nat → JsonVariant R → Result (JsonVariant R)
  | _, scalar p x => if (scalar p x).isNormalized then .ok (scalar p x) else .error Errno.EMEDIUMTYPE
  | place, array p c es =>
    if (array p c es).isNormalized then .ok (array p c es)
    else
      match normalizeElements q mem place 0 es with
      | .error er => .error er
      | .ok a =>
        match newArray (mem.container place) (sortPairs q mem a) with
        | .error er => .error er
        | .ok n => n.checkNormalized
  | place, object p c fs =>
    if (object p c fs).isNormalized then .ok (object p c fs)
    else
      match normalizeFields q mem place 0 fs with
      | .error er => .error er
      | .ok a =>
        match newObject (mem.container place) (sortPairs q mem a) with
        | .error er => .error er
        | .ok n => n.checkNormalized

/-- The loop over the elements, from this index on. -/
def normalizeElements (q : Sorter) (mem : JsonMemory) (place : List Nat) :
    Nat → List (JsonVariant R) → Result (List (JsonVariant R))
  | _, [] => .ok []
  | i, e :: es =>
    match normalize q mem (place ++ [i]) e with
    | .error er => .error er
    | .ok e =>
      match normalizeElements q mem place (i + 1) es with
      | .error er => .error er
      | .ok es => .ok (e :: es)

/-- The same loop over keys and values, where the keys stay as they are. -/
def normalizeFields (q : Sorter) (mem : JsonMemory) (place : List Nat) :
    Nat → List ((JsonPointer × Bytes) × JsonVariant R) → Result (List (JsonVariant R))
  | _, [] => .ok []
  | i, (k, v) :: fs =>
    match normalize q mem (place ++ [i + 1]) v with
    | .error er => .error er
    | .ok v =>
      match normalizeFields q mem place (i + 2) fs with
      | .error er => .error er
      | .ok a => .ok (scalar k.1 (.string k.2) :: v :: a)

end

end JsonVariant

end Elogind
