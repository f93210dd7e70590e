/-
  Elogind.Json.Variant

  JSON variants (sd-json.c): their values, and what a pointer to one shows besides its value, which is
  where it is in memory, the line and the column it was read from, and for an array or an object its
  depth and the flags `normalized` and `sorted`.

  The elements of a container are kept as `sd_json_variant_by_index` returns them.  Memory can always be
  had, and is counted in units of the size of a variant.  Sensitive variants and the names of source
  files are left out.
-/

import Elogind.Basic.Utf8
import Elogind.Basic.Errno

namespace Elogind

open List

/-! ## Values -/

/-- What `fpclassify` tells of a number. -/
inductive FpClass where
  | nan
  | infinite
  | zero
  | subnormal
  | normal
  deriving DecidableEq, Repr

/-- The C type `double`. -/
class Double (R : Type) where
  ofInt : Int → R
  add : R → R → R
  sub : R → R → R
  mul : R → R → R
  div : R → R → R
  exp10 : R → R
  fpclassify : R → FpClass
  /-- The conversions to `int64_t` and to `uint64_t`. -/
  toInt64 : R → Int64
  toUint64 : R → UInt64
  /-- What `printf` writes for `%.*e` and `DECIMAL_DIG` in the C locale. -/
  format : R → Bytes

/-- Numbers of which nothing is known, for texts without numbers. -/
instance : Double Unit where
  ofInt _ := ()
  add _ _ := ()
  sub _ _ := ()
  mul _ _ := ()
  div _ _ := ()
  exp10 _ := ()
  fpclassify _ := .nan
  toInt64 _ := 0
  toUint64 _ := 0
  format _ := []

/-- `iszero_safe` -/
def isZeroSafe {R : Type} [Double R] (d : R) : Bool := Double.fpclassify d = .zero

/-- `fp_equal` -/
def fpEqual {R : Type} [Double R] (x y : R) : Bool := isZeroSafe (Double.sub x y)

/-- The values without members. -/
inductive JsonScalar (R : Type) where
  | null
  | boolean (b : Bool)
  | integer (i : Int64)
  | unsigned (u : UInt64)
  | real (d : R)
  | string (s : Bytes)
  deriving DecidableEq, Repr

/-- A JSON value. -/
inductive Json (R : Type) where
  | scalar (x : JsonScalar R)
  | array (elements : List (Json R))
  | object (fields : List (Bytes × Json R))

/-- `sd_json_variant_type_t` -/
inductive JsonType where
  | string
  | integer
  | unsigned
  | real
  | number
  | boolean
  | array
  | object
  | null
  deriving DecidableEq, Repr

namespace Json

variable {R : Type}

/-- Induction over the members. -/
@[elab_as_elim]
theorem induct {P : Json R → Prop} (scalar : ∀ x, P (.scalar x)) (array : ∀ es, (∀ e ∈ es, P e) → P (.array es))
    (object : ∀ fs, (∀ f ∈ fs, P f.2) → P (.object fs)) (v : Json R) : P v := by
  refine @Json.rec R P (fun es => ∀ e ∈ es, P e) (fun fs => ∀ f ∈ fs, P f.2) (fun f => P f.2) scalar array object
    ?_ ?_ ?_ ?_ ?_ v
  · intro e he
    exact absurd he not_mem_nil
  · intro e es he hes d hd
    obtain rfl | hd := mem_cons.mp hd
    · exact he
    · exact hes d hd
  · intro f hf
    exact absurd hf not_mem_nil
  · intro f fs hf hfs d hd
    obtain rfl | hd := mem_cons.mp hd
    · exact hf
    · exact hfs d hd
  · intro k v hv
    exact hv

mutual

/-- How many levels of members a value has. -/
def depth : Json R → Nat
  | scalar _ => 0
  | array es => depthElements es
  | object fs => depthFields fs

/-- One more than the greatest depth of these. -/
def depthElements : List (Json R) → Nat
  | [] => 0
  | e :: es => max (e.depth + 1) (depthElements es)

def depthFields : List (Bytes × Json R) → Nat
  | [] => 0
  | (_, v) :: fs => max (v.depth + 1) (depthFields fs)

end

/-- A bound for the depths of all elements. -/
theorem depthElements_le {n : Nat} {es : List (Json R)} : depthElements es ≤ n ↔ ∀ e ∈ es, e.depth < n := by
  induction es with
  | nil => simp [depthElements]
  | cons e es ih =>
    rw [depthElements, max_le_iff, ih, forall_mem_cons]
    rfl

theorem depthFields_le {n : Nat} {fs : List (Bytes × Json R)} : depthFields fs ≤ n ↔ ∀ f ∈ fs, f.2.depth < n := by
  induction fs with
  | nil => simp [depthFields]
  | cons f fs ih =>
    rw [depthFields, max_le_iff, ih, forall_mem_cons]
    rfl

end Json

namespace JsonScalar

variable {R : Type}

def type : JsonScalar R → JsonType
  | null => .null
  | boolean _ => .boolean
  | integer _ => .integer
  | unsigned _ => .unsigned
  | real _ => .real
  | string _ => .string

/-- There is a constant pointer for the value. -/
def isMagic [Double R] : JsonScalar R → Bool
  | null | boolean _ => true
  | integer i => i = 0
  | unsigned u => u = 0
  | real d => isZeroSafe d
  | string s => s.isEmpty

end JsonScalar

/-! ## Variants -/

/-- The kinds of pointers to variants.  Which constant one is tells the value. -/
inductive JsonPointer where
  | magic
  | constString
  | regular (address line column : Nat)
  deriving DecidableEq, Repr

namespace JsonPointer

/-- The variant has a line or a column. -/
def isLocated : JsonPointer → Bool
  | magic | constString => false
  | regular _ line column => line > 0 || column > 0

end JsonPointer

/-- What is kept for an array or an object: its own address, `depth`, and the flags where the pointer
    points to, which is a surrogate if the container has a line and a column in another one. -/
structure JsonContainer where
  address : Nat
  depth : Nat
  normalized : Bool
  sorted : Bool
  deriving DecidableEq, Repr

/-- What a `sd_json_variant*` shows. -/
inductive JsonVariant (R : Type) where
  | scalar (p : JsonPointer) (x : JsonScalar R)
  | array (p : JsonPointer) (c : JsonContainer) (elements : List (JsonVariant R))
  | object (p : JsonPointer) (c : JsonContainer) (fields : List ((JsonPointer × Bytes) × JsonVariant R))

/-- A field: the string that is its key, and the value. -/
abbrev JsonField (R : Type) : Type := (JsonPointer × Bytes) × JsonVariant R

/-- `DEPTH_MAX` -/
def depthMax : Nat := 2 * 1024

/-- `INLINE_STRING_MAX` -/
def inlineStringMax : Nat := 7

/-- `ELNRNG` -/
def Errno.ELNRNG : Errno := ⟨48, by decide⟩

namespace JsonVariant

variable {R : Type}

/-- Induction over the members. -/
@[elab_as_elim]
theorem induct {P : JsonVariant R → Prop} (scalar : ∀ p x, P (.scalar p x))
    (array : ∀ p c es, (∀ e ∈ es, P e) → P (.array p c es))
    (object : ∀ p c fs, (∀ f ∈ fs, P f.2) → P (.object p c fs)) (v : JsonVariant R) : P v := by
  refine @JsonVariant.rec R P (fun es => ∀ e ∈ es, P e) (fun fs => ∀ f ∈ fs, P f.2) (fun f => P f.2) scalar array
    object ?_ ?_ ?_ ?_ ?_ v
  · intro e he
    exact absurd he not_mem_nil
  · intro e es he hes d hd
    obtain rfl | hd := mem_cons.mp hd
    · exact he
    · exact hes d hd
  · intro f hf
    exact absurd hf not_mem_nil
  · intro f fs hf hfs d hd
    obtain rfl | hd := mem_cons.mp hd
    · exact hf
    · exact hfs d hd
  · intro k v hv
    exact hv

mutual

/-- The value of a variant. -/
def value : JsonVariant R → Json R
  | scalar _ x => .scalar x
  | array _ _ es => .array (values es)
  | object _ _ fs => .object (fieldValues fs)

def values : List (JsonVariant R) → List (Json R)
  | [] => []
  | e :: es => e.value :: values es

def fieldValues : List ((JsonPointer × Bytes) × JsonVariant R) → List (Bytes × Json R)
  | [] => []
  | (k, v) :: fs => (k.2, v.value) :: fieldValues fs

end

theorem values_eq_map (es : List (JsonVariant R)) : values es = es.map value := by
  induction es with
  | nil => rfl
  | cons e es ih => rw [values, ih, map_cons]

theorem fieldValues_eq_map (fs : List (JsonField R)) :
    fieldValues fs = fs.map fun f => (f.1.2, f.2.value) := by
  induction fs with
  | nil => rfl
  | cons f fs ih => rw [fieldValues, ih, map_cons]

@[simp] theorem value_scalar (p : JsonPointer) (x : JsonScalar R) : (scalar p x).value = .scalar x := by rw [value]

@[simp] theorem value_array (p : JsonPointer) (c : JsonContainer) (es : List (JsonVariant R)) :
    (array p c es).value = .array (es.map value) := by rw [value, values_eq_map]

@[simp] theorem value_object (p : JsonPointer) (c : JsonContainer)
    (fs : List ((JsonPointer × Bytes) × JsonVariant R)) :
    (object p c fs).value = .object (fs.map fun f => (f.1.2, f.2.value)) := by rw [value, fieldValues_eq_map]

/-- The pointer itself. -/
def pointer : JsonVariant R → JsonPointer
  | scalar p _ | array p _ _ | object p _ _ => p

/-- `json_variant_depth` -/
def variantDepth : JsonVariant R → Nat
  | scalar _ _ => 0
  | array _ c _ | object _ c _ => c.depth

/-- `sd_json_variant_has_type` -/
def hasType [Double R] : JsonVariant R → JsonType → Bool
  | array .., t => t = .array
  | object .., t => t = .object
  | scalar p x, t =>
    if x.type = t then true
    else if p = .constString then false
    else if p = .magic then
      (x.type = .integer || x.type = .unsigned || x.type = .real) &&
        (t = .integer || t = .unsigned || t = .real || t = .number)
    else
      match x, t with
      | .integer _, .number | .unsigned _, .number | .real _, .number => true
      | .integer i, .unsigned => 0 ≤ i
      | .unsigned u, .integer => u.toNat < 2 ^ 63
      | .integer i, .real => Double.toInt64 (Double.ofInt i.toInt : R) = i
      | .unsigned u, .real => Double.toUint64 (Double.ofInt u.toNat : R) = u
      | .real d, .integer => fpEqual (Double.ofInt (Double.toInt64 d).toInt) d
      | .real d, .unsigned => fpEqual (Double.ofInt (Double.toUint64 d).toNat) d
      | _, _ => false

/-- `sd_json_variant_integer`; a constant pointer to a number is one to a zero. -/
def integer [Double R] : JsonVariant R → Int64
  | scalar p x =>
    if p = .magic then 0
    else
      match x with
      | .integer i => i
      | .unsigned u => if u.toNat < 2 ^ 63 then Int64.ofInt u.toNat else 0
      | .real d => if fpEqual (Double.ofInt (Double.toInt64 d).toInt) d then Double.toInt64 d else 0
      | _ => 0
  | _ => 0

/-- `sd_json_variant_unsigned` -/
def unsigned [Double R] : JsonVariant R → UInt64
  | scalar p x =>
    if p = .magic then 0
    else
      match x with
      | .integer i => if 0 ≤ i then UInt64.ofNat i.toInt.toNat else 0
      | .unsigned u => u
      | .real d => if fpEqual (Double.ofInt (Double.toUint64 d).toNat) d then Double.toUint64 d else 0
      | _ => 0
  | _ => 0

/-- `sd_json_variant_real` -/
def real [Double R] : JsonVariant R → R
  | scalar p x =>
    if p = .magic then Double.ofInt 0
    else
      match x with
      | .integer i =>
        let converted : R := Double.ofInt i.toInt
        if Double.toInt64 converted = i then converted else Double.ofInt 0
      | .unsigned u =>
        let converted : R := Double.ofInt u.toNat
        if Double.toUint64 converted = u then converted else Double.ofInt 0
      | .real d => d
      | _ => Double.ofInt 0
  | _ => Double.ofInt 0

/-- `sd_json_variant_is_normalized` -/
def isNormalized [Double R] (v : JsonVariant R) : Bool :=
  if v.hasType .real && !v.hasType .integer && !v.hasType .unsigned then false
  else
    match v with
    | scalar .. => true
    | array _ c es => es.isEmpty || c.normalized
    | object _ c fs => fs.isEmpty || c.normalized

/-! ## New variants -/

/-- A variant without members in new memory, or the constant pointer for its value. -/
def newScalar [Double R] (address : Nat) (x : JsonScalar R) : JsonVariant R :=
  scalar (if x.isMagic then .magic else .regular address 0 0) x

/-- `sd_json_variant_new_integer` -/
def newInteger [Double R] (address : Nat) (i : Int64) : JsonVariant R := newScalar address (.integer i)

/-- `sd_json_variant_new_unsigned` -/
def newUnsigned [Double R] (address : Nat) (u : UInt64) : JsonVariant R := newScalar address (.unsigned u)

/-- `sd_json_variant_new_boolean` -/
def newBoolean (b : Bool) : JsonVariant R := scalar .magic (.boolean b)

/-- `sd_json_variant_new_null` -/
def newNull : JsonVariant R := scalar .magic .null

/-- `sd_json_variant_new_real` -/
def newReal [Double R] (address : Nat) (d : R) : JsonVariant R :=
  match Double.fpclassify d with
  | .nan | .infinite => newNull
  | .zero => scalar .magic (.real (Double.ofInt 0))
  | .subnormal | .normal => scalar (.regular address 0 0) (.real d)

/-- `sd_json_variant_new_string` -/
def newString [Double R] (address : Nat) (s : Bytes) : Result (JsonVariant R) :=
  if s.isEmpty then .ok (newScalar address (.string s))
  else if !utf8IsValid s then .error Errno.EUCLEAN
  else .ok (newScalar address (.string s))

/-- The pointer to an element at this address of a container, for a variant that is no container itself:
    `json_variant_set` and `json_variant_copy_source`, and then `json_variant_conservative_formalize`. -/
def putScalar [Double R] (address : Nat) (p : JsonPointer) (x : JsonScalar R) : JsonPointer :=
  match p with
  | .regular a line column =>
    if p.isLocated then .regular address line column
    else if x.isMagic then .magic
    else
      match x with
      | .string s => if s.length ≤ inlineStringMax then .regular address 0 0 else .regular a 0 0
      | _ => .regular address 0 0
  | .constString =>
    if x.isMagic then .magic
    else
      match x with
      | .string s => if s.length ≤ inlineStringMax then .regular address 0 0 else .constString
      | _ => .constString
  | .magic => .magic

/-- The same for an array or an object, which the element refers to. -/
def putContainer (address : Nat) (p : JsonPointer) (c : JsonContainer) (empty : Bool) : JsonPointer × JsonContainer :=
  match p with
  | .regular _ line column =>
    if p.isLocated then (.regular address line column, { c with normalized := false, sorted := false })
    else if empty then (.magic, c)
    else (.regular c.address 0 0, c)
  | .constString | .magic => (.magic, c)

/-- An element of a container, at this address. -/
def put [Double R] (address : Nat) : JsonVariant R → JsonVariant R
  | scalar p x => scalar (putScalar address p x) x
  | array p c es => array (putContainer address p c es.isEmpty).1 (putContainer address p c es.isEmpty).2 es
  | object p c fs => object (putContainer address p c fs.isEmpty).1 (putContainer address p c fs.isEmpty).2 fs

def emptyContainer : JsonContainer := ⟨0, 0, false, false⟩

/-- The loop of `sd_json_variant_new_array`: the elements from this address on, and the depth of the array,
    which is so great so far. -/
def putElements [Double R] : Nat → Nat → List (JsonVariant R) → Result (Nat × List (JsonVariant R))
  | _, depth, [] => .ok (depth, [])
  | address, depth, e :: es =>
    if e.variantDepth ≥ depthMax then .error Errno.ELNRNG
    else
      match putElements (address + 1) (max depth (e.variantDepth + 1)) es with
      | .error er => .error er
      | .ok (depth, elements) => .ok (depth, e.put address :: elements)

/-- `sd_json_variant_new_array` -/
def newArray [Double R] (address : Nat) (elements : List (JsonVariant R)) : Result (JsonVariant R) :=
  if elements.isEmpty then .ok (array .magic emptyContainer [])
  else
    match putElements (address + 1) 0 elements with
    | .error er => .error er
    | .ok (depth, es) =>
      .ok (array (.regular address 0 0) ⟨address, depth, elements.all isNormalized, false⟩ es)

/-- The loop of `sd_json_variant_new_object`: the elements as keys and values from this address on, and the
    depth of the object, which is so great so far. -/
def putFields [Double R] : Nat → Nat → List (JsonVariant R) →
    Result (Nat × List ((JsonPointer × Bytes) × JsonVariant R))
  | _, depth, [] => .ok (depth, [])
  | address, depth, scalar p (.string k) :: v :: es =>
    if v.variantDepth ≥ depthMax then .error Errno.ELNRNG
    else
      match putFields (address + 2) (max (max depth 1) (v.variantDepth + 1)) es with
      | .error er => .error er
      | .ok (depth, fields) =>
        .ok (depth, ((putScalar address p (.string k : JsonScalar R), k), v.put (address + 1)) :: fields)
  | _, _, _ => .error Errno.EINVAL

/-- `strcmp(k, prev) <= 0` for no key after the first. -/
def strictlySorted : List Bytes → Bool
  | k :: k' :: ks => k < k' && strictlySorted (k' :: ks)
  | [] | [_] => true

/-- `sd_json_variant_new_object` -/
def newObject [Double R] (address : Nat) (elements : List (JsonVariant R)) : Result (JsonVariant R) :=
  if elements.isEmpty then .ok (object .magic emptyContainer [])
  else if elements.length % 2 ≠ 0 then .error Errno.EINVAL
  else
    match putFields (address + 1) 0 elements with
    | .error er => .error er
    | .ok (depth, fields) =>
      let sorted := strictlySorted (fields.map fun f => f.1.2)
      .ok (object (.regular address 0 0) ⟨address, depth, sorted && elements.all isNormalized, sorted⟩ fields)

/-- `json_variant_set_source`, of a variant that nobody else refers to; the address is that of a copy. -/
def setSource (address line column : Nat) (v : JsonVariant R) : JsonVariant R :=
  let place : JsonPointer → JsonPointer
    | .regular a _ _ => .regular a line column
    | .magic => if line = 0 ∧ column = 0 then .magic else .regular address line column
    | .constString => if line = 0 ∧ column = 0 then .constString else .regular address line column
  match v with
  | scalar p x => scalar (place p) x
  | array p c es => array (place p) c es
  | object p c fs => object (place p) c fs

end JsonVariant

end Elogind
