/-
  Elogind.Json.Object

  Looking up, setting, removing and merging the fields of objects (sd-json.c).  What is at the address of an object
  is not shown by a surrogate for it, and is given apart.  The arrays into which elements are copied have a
  size, and there is no result where an element is written behind the end of one.
-/

import Elogind.Json.Normalize
import Elogind.Lib.Bisect

namespace Elogind

open Lib Errno

/-- What is at the address of a container besides its members. -/
structure JsonHeader where
  line : Nat
  column : Nat
  normalized : Bool
  sorted : Bool

namespace JsonVariant

variable {R : Type}

/-! ## Looking up -/

/-- The variant is a surrogate for a container in another place. -/
def isReference : JsonVariant R → Bool
  | scalar _ _ => false
  | array p c _ | object p c _ =>
    match p.cell with
    | none => false
    | some a => a ≠ c.address

/-- The flag `sorted` of an object, or of the one that this is a surrogate for. -/
def sortedFlag (headers : Nat → JsonHeader) : JsonVariant R → Bool
  | object p c fs => if (object p c fs).isReference then (headers c.address).sorted else c.sorted
  | _ => false

/-- The fields of an object. -/
def fields : JsonVariant R → List ((JsonPointer × Bytes) × JsonVariant R)
  | object _ _ fs => fs
  | _ => []

/-- The part of `sd_json_variant_by_key_full` for an object that is no surrogate: bisection or a linear scan. -/
def findKey (sorted : Bool) (fs : List ((JsonPointer × Bytes) × JsonVariant R)) (key : Bytes) :
    Option ((JsonPointer × Bytes) × JsonVariant R) :=
  if sorted then bisect (fun f => strcmp key f.1.2) fs 0 fs.length else fs.find? fun f => f.1.2 = key

/-- `sd_json_variant_by_key_full`: the value, and what is in `ret_key` then, where this was in it before.  The
    variant that a surrogate refers to is asked for the value only. -/
def byKeyFull (headers : Nat → JsonHeader) (v : JsonVariant R) (key : Bytes) (retKey : Option (JsonPointer × Bytes)) :
    Option (JsonVariant R) × Option (JsonPointer × Bytes) :=
  match v with
  | object p c fs =>
    if (object p c fs).isReference then ((findKey (headers c.address).sorted fs key).map Prod.snd, retKey)
    else ((findKey c.sorted fs key).map Prod.snd, (findKey c.sorted fs key).map Prod.fst)
  | _ => (none, none)

/-- `sd_json_variant_by_key` -/
def variantByKey (headers : Nat → JsonHeader) (v : JsonVariant R) (key : Bytes) : Option (JsonVariant R) :=
  (v.byKeyFull headers key none).1

/-! ## Changing fields -/

/-- `sd_json_variant_is_object` -/
def isObject : Option (JsonVariant R) → Bool
  | some (object ..) => true
  | _ => false

end JsonVariant

end Elogind
