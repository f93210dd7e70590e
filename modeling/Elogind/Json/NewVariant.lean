/-
  Elogind.Json.NewVariant

  What the functions that make JSON variants make of their arguments: values are kept, and the depth of an
  array or an object is that of its value.  A variant that was read from a text has a place in it, so each
  key of an object is in a cell of its own, and none is in another object below.
-/

import Elogind.Json.Equal
import Mathlib.Data.List.Nodup

namespace Elogind

open Byte Errno List

section

variable {R : Type} [Double R]

/-- A constant pointer stands for such a value. -/
structure JsonPointer.Fits (p : JsonPointer) (x : JsonScalar R) : Prop where
  magic : p = .magic → x.isMagic = true ∨ x.type = .real
  constString : p = .constString → x.type = .string

/-- A pointer to memory can be one to any value. -/
theorem JsonPointer.fits_regular (address line column : Nat) (x : JsonScalar R) :
    (JsonPointer.regular address line column).Fits x where
  magic h := by cases h
  constString h := by cases h

theorem JsonPointer.fits_magic {x : JsonScalar R} (hx : x.isMagic = true ∨ x.type = .real) :
    JsonPointer.magic.Fits x where
  magic _ := hx
  constString h := by cases h

/-- A pointer that was a fitting one fits where the variant is put. -/
theorem JsonVariant.fits_putScalar (address : Nat) {p : JsonPointer} {x : JsonScalar R} (h : p.Fits x) :
    (putScalar address p x).Fits x := by
  unfold putScalar
  cases p with
  | magic => exact h
  | constString =>
    simp only
    split
    · exact JsonPointer.fits_magic (.inl ‹_›)
    split
    · split
      · exact JsonPointer.fits_regular _ _ _ _
      · exact h
    · exact h
  | regular a line column =>
    simp only
    split
    · exact JsonPointer.fits_regular _ _ _ _
    split
    · exact JsonPointer.fits_magic (.inl ‹_›)
    split
    · split <;> exact JsonPointer.fits_regular _ _ _ _
    · exact JsonPointer.fits_regular _ _ _ _

end

namespace JsonVariant

variable {R : Type}

/-! ## Cells of keys -/

mutual

/-- Where the keys of a variant are, those of its members included. -/
def keyCells : JsonVariant R → List Nat
  | scalar _ _ => []
  | array _ _ es => keyCellsElements es
  | object _ _ fs => keyCellsFields fs

def keyCellsElements : List (JsonVariant R) → List Nat
  | [] => []
  | e :: es => e.keyCells ++ keyCellsElements es

def keyCellsFields : List ((JsonPointer × Bytes) × JsonVariant R) → List Nat
  | [] => []
  | (k, v) :: fs => k.1.cell.toList ++ v.keyCells ++ keyCellsFields fs

end

theorem keyCells_scalar (p : JsonPointer) (x : JsonScalar R) : (scalar p x).keyCells = [] := by rw [keyCells]

theorem mem_keyCells_array {p : JsonPointer} {c : JsonContainer} {es : List (JsonVariant R)} {a : Nat} :
    a ∈ (array p c es).keyCells ↔ ∃ e ∈ es, a ∈ e.keyCells := by
  rw [keyCells]
  induction es with
  | nil => simp [keyCellsElements]
  | cons e es ih => simp [keyCellsElements, ih]

theorem mem_keyCells_object {p : JsonPointer} {c : JsonContainer} {fs : List (JsonField R)}
    {a : Nat} : a ∈ (object p c fs).keyCells ↔ ∃ f ∈ fs, f.1.1.cell = some a ∨ a ∈ f.2.keyCells := by
  rw [keyCells]
  induction fs with
  | nil => simp [keyCellsFields]
  | cons f fs ih => simp [keyCellsFields, ih, or_assoc]

/-! ## Keys and values -/

/-- Keys and values in the order in which they are given to `sd_json_variant_new_object`. -/
def flatten (fs : List ((JsonPointer × Bytes) × JsonVariant R)) : List (JsonVariant R) :=
  fs.flatMap fun f => [scalar f.1.1 (.string f.1.2), f.2]

theorem flatten_append (fs gs : List (JsonField R)) :
    flatten (fs ++ gs) = flatten fs ++ flatten gs := flatMap_append

theorem mem_flatten {f : JsonField R} {fs : List (JsonField R)}
    (h : f ∈ fs) : scalar f.1.1 (.string f.1.2) ∈ flatten fs ∧ f.2 ∈ flatten fs :=
  ⟨mem_flatMap.mpr ⟨f, h, mem_cons_self⟩,
    mem_flatMap.mpr ⟨f, h, mem_cons_of_mem _ mem_cons_self⟩⟩

theorem length_flatten (fs : List (JsonField R)) :
    (flatten fs).length = 2 * fs.length := by
  induction fs with
  | nil => rfl
  | cons f fs ih =>
    show (flatten fs).length + 1 + 1 = 2 * (fs.length + 1)
    omega

/-- The pointers fit, and each key can be marked without marking another one of its object or one below. -/
inductive Markable [Double R] : JsonVariant R → Prop where
  | scalar {p : JsonPointer} {x : JsonScalar R} (h : p.Fits x) : Markable (scalar p x)
  | array (p : JsonPointer) (c : JsonContainer) {es : List (JsonVariant R)} (h : ∀ e ∈ es, Markable e) :
      Markable (array p c es)
  | object (p : JsonPointer) (c : JsonContainer) {fs : List ((JsonPointer × Bytes) × JsonVariant R)}
      (h : ∀ f ∈ fs, Markable f.2) (hcell : ∀ f ∈ fs, f.1.1.cell.isSome = true)
      (hnodup : (fs.map fun f => f.1.1.cell).Nodup)
      (hbelow : ∀ f ∈ fs, ∀ g ∈ fs, ∀ a ∈ f.1.1.cell, a ∉ g.2.keyCells) : Markable (object p c fs)

/-- What is true of a variant that was read from a text, if the memory from `free` on is not in use. -/
structure FromText [Double R] (free : Nat) (v : JsonVariant R) : Prop where
  depth : v.variantDepth = v.value.depth
  located : v.pointer.isLocated = true
  markable : v.Markable
  cells : ∀ a ∈ v.keyCells, a < free

theorem FromText.mono [Double R] {free free' : Nat} {v : JsonVariant R} (h : v.FromText free) (hfree : free ≤ free') :
    v.FromText free' :=
  ⟨h.depth, h.located, h.markable, fun a ha => (h.cells a ha).trans_le hfree⟩

/-! ## Places -/

@[simp] theorem value_setSource (address line column : Nat) (v : JsonVariant R) :
    (v.setSource address line column).value = v.value := by
  cases v <;> simp [setSource]

@[simp] theorem keyCells_setSource (address line column : Nat) (v : JsonVariant R) :
    (v.setSource address line column).keyCells = v.keyCells := by
  cases v <;> simp [setSource, keyCells]

theorem variantDepth_setSource (address line column : Nat) (v : JsonVariant R) :
    (v.setSource address line column).variantDepth = v.variantDepth := by
  cases v <;> rfl

theorem Markable.setSource [Double R] (address line column : Nat) {v : JsonVariant R} (h : v.Markable) :
    (v.setSource address line column).Markable := by
  cases h with
  | @scalar p x h =>
    refine .scalar ?_
    cases p with
    | regular a _ _ => exact JsonPointer.fits_regular _ _ _ _
    | magic | constString =>
      split
      · exact h
      · exact JsonPointer.fits_regular _ _ _ _
  | array p c h => exact .array _ _ h
  | object p c h hcell hnodup hbelow => exact .object _ _ h hcell hnodup hbelow

theorem isLocated_setSource (address : Nat) {line : Nat} (hline : 0 < line) (column : Nat) (v : JsonVariant R) :
    (v.setSource address line column).pointer.isLocated = true := by
  have hnot : ¬ (line = 0 ∧ column = 0) := by omega
  cases v with
  | scalar p x | array p c es | object p c fs =>
    cases p <;> simp [setSource, pointer, hnot, JsonPointer.isLocated, hline]

/-- A variant with its place in the text. -/
theorem fromText_setSource [Double R] {free : Nat} (address : Nat) {line : Nat} (hline : 0 < line) (column : Nat)
    {v : JsonVariant R} (hdepth : v.variantDepth = v.value.depth) (hmark : v.Markable)
    (hcells : ∀ a ∈ v.keyCells, a < free) : (v.setSource address line column).FromText free where
  depth := by rw [variantDepth_setSource, value_setSource, hdepth]
  located := isLocated_setSource address hline column v
  markable := hmark.setSource address line column
  cells := by
    rw [keyCells_setSource]
    exact hcells

/-! ## Elements -/

section

variable [Double R]

@[simp] theorem value_put (address : Nat) (v : JsonVariant R) : (v.put address).value = v.value := by
  cases v with
  | scalar p x | array p c es | object p c fs => simp [put]

@[simp] theorem keyCells_put (address : Nat) (v : JsonVariant R) : (v.put address).keyCells = v.keyCells := by
  cases v with
  | scalar p x | array p c es | object p c fs => simp [put, keyCells]

variable {v : JsonVariant R} {es : List (JsonVariant R)} {address depth depth' free : Nat}
  {fs fs' : List (JsonField R)}

theorem Markable.put (address : Nat) (h : v.Markable) : (v.put address).Markable := by
  cases h with
  | scalar h => exact .scalar (fits_putScalar address h)
  | array p c h => exact .array _ _ h
  | object p c h hcell hnodup hbelow => exact .object _ _ h hcell hnodup hbelow

/-! ## Arrays -/

/-- The elements of a new array, and its depth. -/
theorem putElements_eq_ok (hdepth : ∀ e ∈ es, e.variantDepth = e.value.depth)
    (hmax : Json.depthElements (es.map value) ≤ depthMax) (address depth : Nat) :
    ∃ es', putElements address depth es = .ok (max depth (Json.depthElements (es.map value)), es') ∧
      es'.map value = es.map value ∧ ∀ e' ∈ es', ∃ e ∈ es, ∃ a, e' = e.put a := by
  induction es generalizing address depth with
  | nil => exact ⟨[], by simp [putElements, Json.depthElements], rfl, by simp⟩
  | cons e es ih =>
    have he := hdepth e mem_cons_self
    rw [map_cons, Json.depthElements, max_le_iff] at hmax
    obtain ⟨es', hput, hvalue, hes⟩ := ih (fun d hd => hdepth d (mem_cons_of_mem e hd)) hmax.2
      (address + 1) (max depth (e.variantDepth + 1))
    refine ⟨e.put address :: es', ?_, ?_, ?_⟩
    · rw [putElements, if_neg (by omega), hput]
      simp only [map_cons, Json.depthElements, max_assoc, he]
    · rw [map_cons, map_cons, hvalue, value_put]
    · intro d hd
      obtain rfl | hd := mem_cons.mp hd
      · exact ⟨e, mem_cons_self, address, rfl⟩
      · obtain ⟨e', he', a, rfl⟩ := hes d hd
        exact ⟨e', mem_cons_of_mem e he', a, rfl⟩

/-- Each element is put where its index says. -/
theorem getElem_of_putElements {es' : List (JsonVariant R)}
    (h : putElements address depth es = .ok (depth', es')) :
    es'.length = es.length ∧ ∀ i (hi : i < es.length) (hi' : i < es'.length), es'[i] = es[i].put (address + i) := by
  induction es generalizing address depth depth' es' with
  | nil =>
    cases h
    exact ⟨rfl, fun i hi => absurd hi (Nat.not_lt_zero i)⟩
  | cons e es ih =>
    rw [putElements] at h
    split at h
    · cases h
    split at h
    · cases h
    rename_i hput
    cases h
    obtain ⟨hlength, hget⟩ := ih hput
    refine ⟨congrArg (· + 1) hlength, fun i hi hi' => ?_⟩
    cases i with
    | zero => rfl
    | succ i =>
      have hat := hget i (Nat.lt_of_succ_lt_succ hi) (Nat.lt_of_succ_lt_succ hi')
      rw [getElem_cons_succ, getElem_cons_succ, hat]
      congr 1
      omega

/-- Elements that are too deep make no array. -/
theorem depthElements_le_of_putElements {es' : List (JsonVariant R)}
    (hdepth : ∀ e ∈ es, e.variantDepth = e.value.depth)
    (h : putElements address depth es = .ok (depth', es')) :
    Json.depthElements (es.map value) ≤ depthMax := by
  induction es generalizing address depth depth' es' with
  | nil => exact Nat.zero_le _
  | cons e es ih =>
    have he := hdepth e mem_cons_self
    rw [putElements] at h
    split at h
    · cases h
    rename_i hlow
    split at h
    · cases h
    rename_i hput
    rw [map_cons, Json.depthElements, max_le_iff]
    exact ⟨by omega, ih (fun d hd => hdepth d (mem_cons_of_mem e hd)) hput⟩

/-- A new array of variants that were read. -/
theorem newArray_eq_ok (hes : ∀ e ∈ es, e.FromText free)
    (hmax : (Json.array (es.map value)).depth ≤ depthMax) :
    ∃ v, newArray free es = .ok v ∧ v.value = .array (es.map value) ∧ v.variantDepth = v.value.depth ∧ v.Markable ∧
      ∀ a ∈ v.keyCells, a < free := by
  unfold newArray
  split
  · rename_i hnil
    obtain rfl := isEmpty_iff.mp hnil
    refine ⟨_, rfl, by simp, ?_, .array _ _ (by simp), ?_⟩
    · rfl
    · intro a ha
      obtain ⟨e, he, -⟩ := mem_keyCells_array.mp ha
      exact absurd he not_mem_nil
  · obtain ⟨es', hput, hvalue, hes'⟩ := putElements_eq_ok (fun e he => (hes e he).depth) hmax (free + 1) 0
    refine ⟨_, by rw [hput], ?_, ?_, .array _ _ ?_, ?_⟩
    · rw [value_array, hvalue]
    · rw [value_array, Json.depth, hvalue]
      exact Nat.zero_max _
    · intro d hd
      obtain ⟨e, he, a, rfl⟩ := hes' d hd
      exact (hes e he).markable.put a
    · intro a ha
      obtain ⟨d, hd, ha⟩ := mem_keyCells_array.mp ha
      obtain ⟨e, he, b, rfl⟩ := hes' d hd
      rw [keyCells_put] at ha
      exact (hes e he).cells a ha

theorem depth_le_of_newArray (hes : ∀ e ∈ es, e.FromText free) (h : newArray free es = .ok v) :
    (Json.array (es.map value)).depth ≤ depthMax := by
  unfold newArray at h
  split at h
  · rename_i hnil
    obtain rfl := isEmpty_iff.mp hnil
    exact Nat.zero_le _
  · split at h
    · cases h
    rename_i hput
    exact depthElements_le_of_putElements (fun e he => (hes e he).depth) hput

/-! ## Objects -/

/-- The cell of a key with a place is where the key is put. -/
theorem cell_putScalar {p : JsonPointer} (hp : p.isLocated = true) (address : Nat) (x : JsonScalar R) :
    (putScalar address p x).cell = some address := by
  cases p with
  | magic | constString => cases hp
  | regular a line column =>
    unfold putScalar
    simp only [hp, if_true]
    rfl

/-- The fields of a new object, and its depth. -/
theorem putFields_eq_ok (hdepth : ∀ f ∈ fs, f.2.variantDepth = f.2.value.depth)
    (hmax : Json.depthFields (fs.map fun f => (f.1.2, f.2.value)) ≤ depthMax) (address depth : Nat) :
    ∃ fs', putFields address depth (flatten fs) =
        .ok (max depth (Json.depthFields (fs.map fun f => (f.1.2, f.2.value))), fs') ∧
      (fs'.map fun f => (f.1.2, f.2.value)) = (fs.map fun f => (f.1.2, f.2.value)) ∧
      ∀ f' ∈ fs', ∃ f ∈ fs, ∃ a, f' = ((putScalar a f.1.1 (.string f.1.2 : JsonScalar R), f.1.2), f.2.put (a + 1)) := by
  induction fs generalizing address depth with
  | nil => exact ⟨[], by simp [putFields, flatten, Json.depthFields], rfl, by simp⟩
  | cons f fs ih =>
    have hf := hdepth f mem_cons_self
    rw [map_cons, Json.depthFields, max_le_iff] at hmax
    obtain ⟨fs', hput, hvalue, hfs⟩ := ih (fun d hd => hdepth d (mem_cons_of_mem f hd)) hmax.2 (address + 2)
      (max (max depth 1) (f.2.variantDepth + 1))
    refine ⟨((putScalar address f.1.1 (.string f.1.2 : JsonScalar R), f.1.2), f.2.put (address + 1)) :: fs',
      ?_, ?_, ?_⟩
    · show putFields address depth (scalar f.1.1 (.string f.1.2) :: f.2 :: flatten fs) = _
      rw [putFields, if_neg (by omega), hput]
      simp only [map_cons, Json.depthFields, hf]
      congr 2
      omega
    · rw [map_cons, map_cons, hvalue, value_put]
    · intro d hd
      obtain rfl | hd := mem_cons.mp hd
      · exact ⟨f, mem_cons_self, address, rfl⟩
      · obtain ⟨e, he, ha⟩ := hfs d hd
        exact ⟨e, mem_cons_of_mem f he, ha⟩

/-- Each key and each value is put where its index says. -/
theorem getElem_of_putFields (h : putFields address depth (flatten fs) = .ok (depth', fs')) :
    fs'.length = fs.length ∧ ∀ i (hi : i < fs.length) (hi' : i < fs'.length),
      fs'[i] = ((putScalar (address + 2 * i) fs[i].1.1 (.string fs[i].1.2 : JsonScalar R), fs[i].1.2),
        fs[i].2.put (address + 2 * i + 1)) := by
  induction fs generalizing address depth depth' fs' with
  | nil =>
    cases h
    exact ⟨rfl, fun i hi => absurd hi (Nat.not_lt_zero i)⟩
  | cons f fs ih =>
    have h : putFields address depth (scalar f.1.1 (.string f.1.2) :: f.2 :: flatten fs) = .ok (depth', fs') := h
    rw [putFields] at h
    split at h
    · cases h
    split at h
    · cases h
    rename_i hput
    cases h
    obtain ⟨hlength, hget⟩ := ih hput
    refine ⟨congrArg (· + 1) hlength, fun i hi hi' => ?_⟩
    cases i with
    | zero => rfl
    | succ i =>
      have hat := hget i (Nat.lt_of_succ_lt_succ hi) (Nat.lt_of_succ_lt_succ hi')
      have hplace : address + 2 + 2 * i = address + 2 * (i + 1) := by omega
      rw [getElem_cons_succ, getElem_cons_succ, hat, hplace]

/-- The keys with places are put into every other cell. -/
theorem cells_of_putFields (hkeys : ∀ f ∈ fs, f.1.1.isLocated = true)
    (h : putFields address depth (flatten fs) = .ok (depth', fs')) :
    (fs'.map fun f => f.1.1.cell) = (List.range fs.length).map fun i => some (address + 2 * i) := by
  obtain ⟨hlength, hget⟩ := getElem_of_putFields h
  refine ext_getElem (by simp [hlength]) fun i hi hi' => ?_
  simp only [length_map, length_range] at hi hi'
  rw [getElem_map, getElem_map, getElem_range, hget i hi' hi]
  exact cell_putScalar (hkeys _ (getElem_mem hi')) _ _

theorem depthFields_le_of_putFields (hdepth : ∀ f ∈ fs, f.2.variantDepth = f.2.value.depth)
    (h : putFields address depth (flatten fs) = .ok (depth', fs')) :
    Json.depthFields (fs.map fun f => (f.1.2, f.2.value)) ≤ depthMax := by
  induction fs generalizing address depth depth' fs' with
  | nil => exact Nat.zero_le _
  | cons f fs ih =>
    have hf := hdepth f mem_cons_self
    have h : putFields address depth (scalar f.1.1 (.string f.1.2) :: f.2 :: flatten fs) = .ok (depth', fs') := h
    rw [putFields] at h
    split at h
    · cases h
    rename_i hlow
    split at h
    · cases h
    rename_i hput
    rw [map_cons, Json.depthFields, max_le_iff]
    exact ⟨by omega, ih (fun d hd => hdepth d (mem_cons_of_mem f hd)) hput⟩

/-- A new object of variants that were read. -/
theorem newObject_eq_ok (hfs : ∀ e ∈ flatten fs, e.FromText free)
    (hmax : (Json.object (fs.map fun f => (f.1.2, f.2.value))).depth ≤ depthMax) :
    ∃ v, newObject free (flatten fs) = .ok v ∧ v.value = .object (fs.map fun f => (f.1.2, f.2.value)) ∧
      v.variantDepth = v.value.depth ∧ v.Markable ∧ ∀ a ∈ v.keyCells, a < free + (flatten fs).length + 1 := by
  have hvalues : ∀ f ∈ fs, f.2.FromText free := fun f hf => hfs f.2 (mem_flatten hf).2
  unfold newObject
  split
  · rename_i hnil
    have hlength := length_flatten fs
    rw [isEmpty_iff.mp hnil] at hlength
    obtain rfl : fs = [] := length_eq_zero_iff.mp (by rw [length_nil] at hlength; omega)
    refine ⟨_, rfl, by simp, ?_, .object _ _ (by simp) (by simp) (by simp) (by simp), ?_⟩
    · rfl
    · intro a ha
      obtain ⟨f, hf, -⟩ := mem_keyCells_object.mp ha
      exact absurd hf not_mem_nil
  · have heven : ¬ (flatten fs).length % 2 ≠ 0 := by
      rw [length_flatten]
      omega
    obtain ⟨fs', hput, hvalue, hfs'⟩ := putFields_eq_ok (fun f hf => (hvalues f hf).depth) hmax (free + 1) 0
    have hcells := cells_of_putFields (fun f hf => (hfs _ (mem_flatten hf).1).located) hput
    -- the cells of the keys are in the new object
    have hcell : ∀ f ∈ fs', ∃ i < fs.length, f.1.1.cell = some (free + 1 + 2 * i) := by
      intro f hf
      have hmem : f.1.1.cell ∈ fs'.map fun f => f.1.1.cell := mem_map_of_mem hf
      rw [hcells] at hmem
      obtain ⟨i, hi, heq⟩ := mem_map.mp hmem
      exact ⟨i, mem_range.mp hi, heq.symm⟩
    have hbelow : ∀ f ∈ fs', ∀ a ∈ f.2.keyCells, a < free := by
      intro f hf a ha
      obtain ⟨g, hg, b, rfl⟩ := hfs' f hf
      rw [keyCells_put] at ha
      exact (hvalues g hg).cells a ha
    rw [if_neg heven, hput]
    refine ⟨_, rfl, ?_, ?_, .object _ _ ?_ ?_ ?_ ?_, ?_⟩
    · rw [value_object, hvalue]
    · rw [value_object, Json.depth, hvalue]
      exact Nat.zero_max _
    · intro f hf
      obtain ⟨g, hg, b, rfl⟩ := hfs' f hf
      exact (hvalues g hg).markable.put (b + 1)
    · intro f hf
      obtain ⟨i, -, hi⟩ := hcell f hf
      rw [hi]
      rfl
    · rw [hcells]
      refine Nodup.map ?_ nodup_range
      intro i j hij
      have hij := Option.some.inj hij
      omega
    · intro f hf g hg a ha hmem
      obtain ⟨i, -, hi⟩ := hcell f hf
      have hlow := hbelow g hg a hmem
      have heq := Option.some.inj (ha.symm.trans hi)
      omega
    · intro a ha
      rw [length_flatten]
      obtain ⟨f, hf, hkey | hvalue⟩ := mem_keyCells_object.mp ha
      · obtain ⟨i, hi, hcell⟩ := hcell f hf
        have heq := Option.some.inj (hkey.symm.trans hcell)
        omega
      · have hlow := hbelow f hf a hvalue
        omega

theorem depth_le_of_newObject (hfs : ∀ e ∈ flatten fs, e.FromText free)
    (h : newObject free (flatten fs) = .ok v) :
    (Json.object (fs.map fun f => (f.1.2, f.2.value))).depth ≤ depthMax := by
  unfold newObject at h
  split at h
  · rename_i hnil
    have hlength := length_flatten fs
    rw [isEmpty_iff.mp hnil] at hlength
    obtain rfl : fs = [] := length_eq_zero_iff.mp (by rw [length_nil] at hlength; omega)
    exact Nat.zero_le _
  split at h
  · cases h
  split at h
  · cases h
  rename_i hput
  exact depthFields_le_of_putFields (fun f hf => (hfs f.2 (mem_flatten hf).2).depth) hput

end

end JsonVariant

end Elogind
