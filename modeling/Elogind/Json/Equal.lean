/-
  Elogind.Json.Equal

  Comparing JSON variants (sd-json.c).  While it compares two objects, `sd_json_variant_equal` marks the
  keys of the second one that it has found, in the variants that `sd_json_variant_by_index` returns for
  them.  A key in the program text or the constant pointer for the empty string cannot be marked.
-/

import Elogind.Json.Variant

namespace Elogind

/-- Which variants are marked, by their addresses. -/
abbrev JsonMarks := Nat → Bool

/-- The address of the variant a pointer points to. -/
def JsonPointer.cell : JsonPointer → Option Nat
  | magic | constString => none
  | regular address _ _ => some address

namespace JsonVariant

variable {R : Type} [Double R]

/-- `json_variant_formalize` -/
def formalize : JsonVariant R → JsonVariant R
  | scalar p x =>
    if x.isMagic then
      scalar .magic
        (match x with
         | .real _ => .real (Double.ofInt 0)
         | x => x)
    else scalar p x
  | array _ c es => if es.isEmpty then array .magic c [] else array (.regular c.address 0 0) c es
  | object _ c fs => if fs.isEmpty then object .magic c [] else object (.regular c.address 0 0) c fs

/-- The same pointer; a constant one tells the value. -/
def samePointer : JsonVariant R → JsonVariant R → Bool
  | scalar .magic (.boolean a), scalar .magic (.boolean b) => a = b
  | scalar .magic x, scalar .magic y => x.type = y.type
  | array .magic _ _, array .magic _ _ | object .magic _ _, object .magic _ _ => true
  | v, w =>
    match v.pointer.cell, w.pointer.cell with
    | some a, some b => a = b
    | _, _ => false

/-- `sd_json_variant_equal` where the first variant, in its formal shape, has no members. -/
def equalScalar (x : JsonScalar R) (a b : JsonVariant R) : Bool :=
  if a.samePointer b then true
  else if !b.hasType x.type then false
  else
    match x, b with
    | .string s, scalar _ (.string s') => s = s'
    | .integer _, _ => a.integer = b.integer
    | .unsigned _, _ => a.unsigned = b.unsigned
    | .real _, _ => fpEqual a.real b.real
    | .boolean x, scalar _ (.boolean y) => x = y
    | .null, _ => true
    | _, _ => false

/-- The inner loop over the keys of the second object, for one key of the first one and the comparison with
    its value.  There is no result where a mark is read or written that there is no place for. -/
def findField (first : Bool) (key : Bytes) (equal : JsonVariant R → JsonMarks → Option (JsonMarks × Bool)) :
    List ((JsonPointer × Bytes) × JsonVariant R) → Bool → JsonMarks → Option (JsonMarks × Bool)
  | [], found, m => some (m, found)
  | ((p, k), v) :: fs, found, m =>
    match p.cell with
    | none => none
    | some a =>
      let m := if first then Function.update m a false else m
      if !first && m a then findField first key equal fs found m
      else if found then findField first key equal fs found m
      else if key = k then
        match equal v m with
        | none => none
        | some (m, false) => findField first key equal fs false m
        | some (m, true) =>
          let m := Function.update m a true
          if first then findField first key equal fs true m else some (m, true)
      else findField first key equal fs false m

mutual

/-- `sd_json_variant_equal` -/
def equal : JsonVariant R → JsonVariant R → JsonMarks → Option (JsonMarks × Bool)
  | scalar p x, b, m => some (m, equalScalar x (scalar p x).formalize b.formalize)
  | array p c es, b, m =>
    if (array p c es).formalize.samePointer b.formalize then some (m, true)
    else
      match b with
      | array _ _ es' => if es.length ≠ es'.length then some (m, false) else equalElements es es' m
      | _ => some (m, false)
  | object p c fs, b, m =>
    if (object p c fs).formalize.samePointer b.formalize then some (m, true)
    else
      match b with
      | object _ _ fs' => if fs.length ≠ fs'.length then some (m, false) else equalFields true fs fs' m
      | _ => some (m, false)

def equalElements : List (JsonVariant R) → List (JsonVariant R) → JsonMarks → Option (JsonMarks × Bool)
  | e :: es, e' :: es', m =>
    match equal e e' m with
    | none => none
    | some (m, false) => some (m, false)
    | some (m, true) => equalElements es es' m
  | _, _, m => some (m, true)

/-- The outer loop over the keys of the first object. -/
def equalFields (first : Bool) : List ((JsonPointer × Bytes) × JsonVariant R) →
    List ((JsonPointer × Bytes) × JsonVariant R) → JsonMarks → Option (JsonMarks × Bool)
  | [], _, m => some (m, true)
  | ((_, k), v) :: fs, fs', m =>
    match findField first k (equal v) fs' false m with
    | none => none
    | some (m, false) => some (m, false)
    | some (m, true) => equalFields false fs fs' m

end

end JsonVariant

end Elogind
