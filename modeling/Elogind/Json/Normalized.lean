/-
  Elogind.Json.Normalized

  What `sd_json_variant_normalize` makes of a variant without reals and without a key that an object has
  twice.  The fields of all objects are in the order of their keys, and what was an array keeps its
  elements in their order as long as the first elements of its pairs are in the order in which
  `json_cmp_strings` puts them.
-/

import Elogind.Json.Comparing
import Elogind.Json.SortPairs

namespace Elogind

open Lib List JsonVariant

/-! ## Normalized values -/

namespace Json

variable {R : Type}

/-- A value for which there is a normalized variant: no reals, and each key once. -/
inductive Normalizable : Json R → Prop where
  | scalar {x : JsonScalar R} (h : x.type ≠ .real) : Normalizable (.scalar x)
  | array {es : List (Json R)} (h : ∀ e ∈ es, Normalizable e) : Normalizable (.array es)
  | object {fs : List (Bytes × Json R)} (h : ∀ f ∈ fs, Normalizable f.2) (hkeys : (fs.map Prod.fst).Nodup) :
      Normalizable (.object fs)

/-- All objects are in the order of their keys. -/
inductive Sorted : Json R → Prop where
  | scalar (x : JsonScalar R) : Sorted (.scalar x)
  | array {es : List (Json R)} (h : ∀ e ∈ es, Sorted e) : Sorted (.array es)
  | object {fs : List (Bytes × Json R)} (h : ∀ f ∈ fs, Sorted f.2) (hkeys : (fs.map Prod.fst).Pairwise (· < ·)) :
      Sorted (.object fs)

/-- The same value with the fields of objects in another order: elements are where they were. -/
inductive Reordered : Json R → Json R → Prop where
  | scalar (x : JsonScalar R) : Reordered (.scalar x) (.scalar x)
  | array {es ds : List (Json R)} (hlength : es.length = ds.length)
      (h : ∀ i (hi : i < es.length) (hd : i < ds.length), Reordered es[i] ds[i]) : Reordered (.array es) (.array ds)
  | object {fs ds gs : List (Bytes × Json R)} (hkeys : fs.map Prod.fst = ds.map Prod.fst)
      (h : ∀ i (hi : i < fs.length) (hd : i < ds.length), Reordered fs[i].2 ds[i].2) (hperm : gs.Perm ds) :
      Reordered (.object fs) (.object gs)

theorem Reordered.refl (v : Json R) : v.Reordered v := by
  induction v using Json.induct with
  | scalar x => exact .scalar x
  | array es ih => exact .array rfl fun i hi _ => ih _ (getElem_mem hi)
  | object fs ih => exact .object rfl (fun i hi _ => ih _ (getElem_mem hi)) (Perm.refl _)

/-- The depth of an array depends on the depths of its elements. -/
theorem depthElements_congr {es ds : List (Json R)} (h : es.map depth = ds.map depth) :
    depthElements es = depthElements ds := by
  induction es generalizing ds with
  | nil =>
    cases ds with
    | nil => rfl
    | cons d ds => cases h
  | cons e es ih =>
    cases ds with
    | nil => cases h
    | cons d ds =>
      obtain ⟨hhead, htail⟩ := cons.inj h
      rw [depthElements, depthElements, hhead, ih htail]

theorem depthFields_congr {fs gs : List (Bytes × Json R)} (h : (fs.map fun f => f.2.depth) = gs.map fun g => g.2.depth) :
    depthFields fs = depthFields gs := by
  induction fs generalizing gs with
  | nil =>
    cases gs with
    | nil => rfl
    | cons g gs => cases h
  | cons f fs ih =>
    cases gs with
    | nil => cases h
    | cons g gs =>
      obtain ⟨hhead, htail⟩ := cons.inj h
      rw [depthFields, depthFields, ih htail, show f.2.depth = g.2.depth from hhead]

/-- The depth of an object does not depend on the order of its fields. -/
theorem depthFields_perm {fs gs : List (Bytes × Json R)} (h : fs.Perm gs) : depthFields fs = depthFields gs := by
  apply Nat.le_antisymm
  · exact depthFields_le.mpr fun f hf => depthFields_le.mp (Nat.le_refl _) f (h.mem_iff.mp hf)
  · exact depthFields_le.mpr fun f hf => depthFields_le.mp (Nat.le_refl _) f (h.mem_iff.mpr hf)

end Json

namespace JsonVariant

variable {R : Type}

/-! ## Variants as they are made -/

/-- A variant as the functions that make variants leave it: an empty key without a place is the constant
    pointer, the depth is that of the value, and what is marked as normalized is so. -/
inductive WellMade [Double R] : JsonVariant R → Prop where
  | scalar {p : JsonPointer} {x : JsonScalar R} (h : p.Fits x) : WellMade (scalar p x)
  | array {p : JsonPointer} {c : JsonContainer} {es : List (JsonVariant R)} (h : ∀ e ∈ es, WellMade e)
      (hdepth : c.depth = Json.depthElements (es.map value)) (hmax : c.depth ≤ depthMax)
      (hnormalized : c.normalized = true → ∀ e ∈ es, e.value.Sorted) : WellMade (array p c es)
  | object {p : JsonPointer} {c : JsonContainer} {fs : List ((JsonPointer × Bytes) × JsonVariant R)}
      (h : ∀ f ∈ fs, WellMade f.2) (hkey : ∀ f ∈ fs, f.1.1.isLocated = true ∨ f.1.2 ≠ [] ∨ f.1.1 = .magic)
      (hdepth : c.depth = Json.depthFields (fs.map fun f => (f.1.2, f.2.value))) (hmax : c.depth ≤ depthMax)
      (hnormalized : c.normalized = true →
        (fs.map fun f => f.1.2).Pairwise (· < ·) ∧ ∀ f ∈ fs, f.2.value.Sorted) : WellMade (object p c fs)

section

variable [Double R]

variable {v w : JsonVariant R} {x : JsonScalar R} {p : JsonPointer} {es : List (JsonVariant R)}
  {fs : List (JsonField R)} {i : Nat} {mem : JsonMemory} {place : List Nat} {c : JsonContainer}
  {q : Sorter}

theorem WellMade.depth (h : v.WellMade) : v.variantDepth = v.value.depth := by
  cases h with
  | scalar h => rw [value_scalar, Json.depth, variantDepth]
  | array h hdepth hmax hnormalized => rw [value_array, Json.depth, variantDepth, hdepth]
  | object h hkey hdepth hmax hnormalized => rw [value_object, Json.depth, variantDepth, hdepth]

theorem WellMade.depth_le (h : v.WellMade) : v.value.depth ≤ depthMax := by
  rw [← h.depth]
  cases h with
  | scalar h => exact Nat.zero_le _
  | array h hdepth hmax hnormalized | object h hkey hdepth hmax hnormalized => exact hmax

/-- What is marked as normalized is in order. -/
theorem WellMade.sorted (h : v.WellMade) (hn : v.isNormalized = true) : v.value.Sorted := by
  cases h with
  | @scalar p x h =>
    exact .scalar x
  | @array p c es h hdepth hmax hnormalized =>
    rw [value_array]
    refine .array fun e he => ?_
    obtain ⟨d, hd, rfl⟩ := mem_map.mp he
    have hflag : c.normalized = true := by
      have hempty : es.isEmpty = false := isEmpty_eq_false_iff.mpr (ne_nil_of_mem hd)
      simpa [isNormalized, hasType, hempty] using hn
    exact hnormalized hflag d hd
  | @object p c fs h hkey hdepth hmax hnormalized =>
    rw [value_object]
    cases hfs : fs with
    | nil => exact .object (by simp) Pairwise.nil
    | cons f gs =>
      have hflag : c.normalized = true := by
        simpa [isNormalized, hasType, hfs] using hn
      obtain ⟨hkeys, hvalues⟩ := hnormalized hflag
      rw [← hfs]
      refine .object ?_ ?_
      · intro d hd
        obtain ⟨g, hg, rfl⟩ := mem_map.mp hd
        exact hvalues g hg
      · rw [map_map]
        exact hkeys

/-- Numbers that are no reals, strings and constants are always normalized. -/
theorem isNormalized_scalar (p : JsonPointer) (hreal : x.type ≠ .real) :
    (scalar p x).isNormalized = true := by
  unfold isNormalized
  cases x with
  | real d => exact absurd rfl hreal
  | integer i | unsigned u => simp [hasType, JsonScalar.type]
  | null | boolean b | string s => cases p <;> simp [hasType, JsonScalar.type]

@[simp] theorem isNormalized_array (p : JsonPointer) (c : JsonContainer) (es : List (JsonVariant R)) :
    (array p c es).isNormalized = (es.isEmpty || c.normalized) := by
  simp [isNormalized, hasType]

@[simp] theorem isNormalized_object (p : JsonPointer) (c : JsonContainer)
    (fs : List ((JsonPointer × Bytes) × JsonVariant R)) :
    (object p c fs).isNormalized = (fs.isEmpty || c.normalized) := by
  simp [isNormalized, hasType]

/-! ## What the functions make -/

/-- Where an array or an object is put, it is kept, but may not be marked as normalized. -/
theorem putContainer_kept (address : Nat) (p : JsonPointer) (c : JsonContainer) (empty : Bool) :
    (putContainer address p c empty).2.address = c.address ∧ (putContainer address p c empty).2.depth = c.depth ∧
      ((putContainer address p c empty).2.normalized = true → c.normalized = true) := by
  unfold putContainer
  split
  · split
    · exact ⟨rfl, rfl, fun h => by cases h⟩
    · split <;> exact ⟨rfl, rfl, id⟩
  · exact ⟨rfl, rfl, id⟩
  · exact ⟨rfl, rfl, id⟩

theorem WellMade.put (address : Nat) (h : v.WellMade) : (v.put address).WellMade := by
  cases h with
  | scalar h => exact .scalar (fits_putScalar address h)
  | @array p c es h hdepth hmax hnormalized =>
    obtain ⟨-, hkept, hflag⟩ := putContainer_kept address p c es.isEmpty
    refine .array h ?_ ?_ fun hn => hnormalized (hflag hn)
    · rw [hkept, hdepth]
    · rw [hkept]
      exact hmax
  | @object p c fs h hkey hdepth hmax hnormalized =>
    obtain ⟨-, hkept, hflag⟩ := putContainer_kept address p c fs.isEmpty
    refine .object h hkey ?_ ?_ fun hn => hnormalized (hflag hn)
    · rw [hkept, hdepth]
    · rw [hkept]
      exact hmax

/-- A key that was put. -/
theorem key_putScalar (address : Nat) {k : Bytes} (h : p.isLocated = true ∨ k ≠ [] ∨ p = .magic) :
    (putScalar address p (.string k : JsonScalar R)).isLocated = true ∨ k ≠ [] ∨
      putScalar address p (.string k : JsonScalar R) = .magic := by
  obtain h | h | rfl := h
  · cases p with
    | magic | constString => cases h
    | regular a line column =>
      unfold putScalar
      simp only [h, if_true]
      exact .inl h
  · exact .inr (.inl h)
  · exact .inr (.inr rfl)

/-- A new array. -/
theorem newArray_wellMade (address : Nat) (hes : ∀ e ∈ es, e.WellMade)
    (hmax : Json.depthElements (es.map value) ≤ depthMax) (hne : es ≠ []) :
    ∃ es', newArray address es =
        .ok (array (.regular address 0 0) ⟨address, Json.depthElements (es.map value), es.all isNormalized, false⟩ es') ∧
      es'.map value = es.map value ∧ es'.length = es.length ∧
      (∀ i (hi : i < es.length) (hi' : i < es'.length), es'[i] = es[i].put (address + 1 + i)) ∧
      (array (.regular address 0 0) ⟨address, Json.depthElements (es.map value), es.all isNormalized, false⟩
        es').WellMade := by
  obtain ⟨es', hput, hvalue, hes'⟩ := putElements_eq_ok (fun e he => (hes e he).depth) hmax (address + 1) 0
  obtain ⟨hlength, hget⟩ := getElem_of_putElements hput
  rw [Nat.zero_max] at hput
  refine ⟨es', ?_, hvalue, hlength, hget, .array ?_ ?_ hmax ?_⟩
  · rw [newArray, if_neg (by simpa using hne), hput]
  · intro d hd
    obtain ⟨e, he, a, rfl⟩ := hes' d hd
    exact (hes e he).put a
  · rw [hvalue]
  · intro hflag d hd
    obtain ⟨e, he, a, rfl⟩ := hes' d hd
    rw [value_put]
    exact (hes e he).sorted (all_eq_true.mp hflag e he)

/-- A new object. -/
theorem newObject_wellMade (address : Nat) (hfs : ∀ f ∈ fs, f.2.WellMade)
    (hkey : ∀ f ∈ fs, f.1.1.isLocated = true ∨ f.1.2 ≠ [] ∨ f.1.1 = .magic)
    (hmax : Json.depthFields (fs.map fun f => (f.1.2, f.2.value)) ≤ depthMax) (hne : fs ≠ []) :
    ∃ fs' sorted, newObject address (flatten fs) = .ok (object (.regular address 0 0)
        ⟨address, Json.depthFields (fs.map fun f => (f.1.2, f.2.value)), sorted && (flatten fs).all isNormalized,
          sorted⟩ fs') ∧
      (sorted = true ↔ (fs.map fun f => f.1.2).Pairwise (· < ·)) ∧
      (fs'.map fun f => (f.1.2, f.2.value)) = (fs.map fun f => (f.1.2, f.2.value)) ∧
      (∃ depth, putFields (address + 1) 0 (flatten fs) = .ok (depth, fs')) ∧
      (object (.regular address 0 0)
        ⟨address, Json.depthFields (fs.map fun f => (f.1.2, f.2.value)), sorted && (flatten fs).all isNormalized,
          sorted⟩ fs').WellMade := by
  obtain ⟨fs', hput, hvalue, hfs'⟩ := putFields_eq_ok (fun f hf => (hfs f hf).depth) hmax (address + 1) 0
  rw [Nat.zero_max] at hput
  have hkeys : (fs'.map fun f => f.1.2) = fs.map fun f => f.1.2 := by
    have hfst := congrArg (map Prod.fst) hvalue
    rw [map_map, map_map] at hfst
    exact hfst
  have hempty : ¬ (flatten fs).isEmpty = true := by
    intro h
    have hlength := length_flatten fs
    rw [isEmpty_iff.mp h] at hlength
    exact hne (length_eq_zero_iff.mp (by rw [length_nil] at hlength; omega))
  refine ⟨fs', strictlySorted (fs'.map fun f => f.1.2), ?_, ?_, hvalue, ⟨_, hput⟩, .object ?_ ?_ ?_ hmax ?_⟩
  · rw [newObject, if_neg hempty, if_neg (by rw [length_flatten]; omega), hput]
  · rw [strictlySorted_iff, hkeys]
  · intro d hd
    obtain ⟨f, hf, a, rfl⟩ := hfs' d hd
    exact (hfs f hf).put _
  · intro d hd
    obtain ⟨f, hf, a, rfl⟩ := hfs' d hd
    exact key_putScalar a (hkey f hf)
  · rw [hvalue]
  · intro hflag
    obtain ⟨hsorted, hall⟩ := Bool.and_eq_true_iff.mp hflag
    refine ⟨strictlySorted_iff.mp hsorted, fun d hd => ?_⟩
    obtain ⟨f, hf, a, rfl⟩ := hfs' d hd
    rw [value_put]
    exact (hfs f hf).sorted (all_eq_true.mp hall _ (mem_flatten hf).2)

/-! ## Memory -/

mutual

/-- Where the containers are that are made for a variant at this place, and their elements. -/
def allocated (mem : JsonMemory) : List Nat → JsonVariant R → List Nat
  | _, scalar _ _ => []
  | place, array p c es =>
    if (array p c es).isNormalized then []
    else (List.range (es.length + 1)).map (mem.container place + ·) ++ allocatedElements mem place 0 es
  | place, object p c fs =>
    if (object p c fs).isNormalized then []
    else (List.range (2 * fs.length + 1)).map (mem.container place + ·) ++ allocatedFields mem place 0 fs

def allocatedElements (mem : JsonMemory) (place : List Nat) : Nat → List (JsonVariant R) → List Nat
  | _, [] => []
  | i, e :: es => allocated mem (place ++ [i]) e ++ allocatedElements mem place (i + 1) es

def allocatedFields (mem : JsonMemory) (place : List Nat) :
    Nat → List ((JsonPointer × Bytes) × JsonVariant R) → List Nat
  | _, [] => []
  | i, (_, v) :: fs => allocated mem (place ++ [i + 1]) v ++ allocatedFields mem place (i + 2) fs

end

theorem allocatedElements_sublist (mem : JsonMemory) (place : List Nat) (hi : i < es.length) (k : Nat) :
    (allocated mem (place ++ [k + i]) es[i]).Sublist (allocatedElements mem place k es) := by
  induction es generalizing i k with
  | nil => exact absurd hi (Nat.not_lt_zero i)
  | cons e es ih =>
    cases i with
    | zero => exact sublist_append_left _ _
    | succ i =>
      have hplace : k + (i + 1) = k + 1 + i := by omega
      rw [hplace]
      exact (ih (Nat.lt_of_succ_lt_succ hi) (k + 1)).trans (sublist_append_right _ _)

theorem allocatedFields_sublist (mem : JsonMemory) (place : List Nat) (hi : i < fs.length) (k : Nat) :
    (allocated mem (place ++ [k + 2 * i + 1]) fs[i].2).Sublist (allocatedFields mem place k fs) := by
  induction fs generalizing i k with
  | nil => exact absurd hi (Nat.not_lt_zero i)
  | cons f fs ih =>
    obtain ⟨key, v⟩ := f
    cases i with
    | zero => exact sublist_append_left _ _
    | succ i =>
      have hplace : k + 2 * (i + 1) + 1 = k + 2 + 2 * i + 1 := by omega
      rw [hplace]
      exact (ih (Nat.lt_of_succ_lt_succ hi) (k + 2)).trans (sublist_append_right _ _)

/-- What `malloc` returns for the new containers was not in use, and is not returned twice. -/
structure Fresh (mem : JsonMemory) (place : List Nat) (v : JsonVariant R) : Prop where
  nodup : (v.allocated mem place).Nodup
  unused : ∀ a ∈ v.allocated mem place, a ∉ v.keyCells

/-- An element is made before the array. -/
theorem allocated_element (hn : (array p c es).isNormalized = false) (hi : i < es.length) :
    (es[i].allocated mem (place ++ [i])).Sublist ((array p c es).allocated mem place) := by
  have helements := allocatedElements_sublist mem place hi 0
  rw [Nat.zero_add] at helements
  rw [allocated, hn]
  exact helements.trans (sublist_append_right _ _)

theorem Fresh.element (h : Fresh mem place (array p c es)) (hn : (array p c es).isNormalized = false)
    (hi : i < es.length) : Fresh mem (place ++ [i]) es[i] := by
  have hsub : (es[i].allocated mem (place ++ [i])).Sublist _ := allocated_element hn hi
  refine ⟨h.nodup.sublist hsub, fun a ha hkey => ?_⟩
  exact h.unused a (hsub.subset ha) (mem_keyCells_array.mpr ⟨_, getElem_mem hi, hkey⟩)

/-- The values of an object are made before it, and elsewhere. -/
theorem Fresh.field (h : Fresh mem place (object p c fs)) (hn : (object p c fs).isNormalized = false)
    (hi : i < fs.length) :
    Fresh mem (place ++ [2 * i + 1]) fs[i].2 ∧
      ∀ a ∈ fs[i].2.allocated mem (place ++ [2 * i + 1]), a ∈ (object p c fs).allocated mem place ∧
        ∀ j < 2 * fs.length + 1, a ≠ mem.container place + j := by
  have hfields := allocatedFields_sublist mem place hi 0
  rw [Nat.zero_add] at hfields
  have heq : (object p c fs).allocated mem place =
      (range (2 * fs.length + 1)).map (mem.container place + ·) ++ allocatedFields mem place 0 fs := by
    rw [allocated, hn]
    rfl
  have hsub : (fs[i].2.allocated mem (place ++ [2 * i + 1])).Sublist ((object p c fs).allocated mem place) := by
    rw [heq]
    exact hfields.trans (sublist_append_right _ _)
  refine ⟨⟨h.nodup.sublist hsub, fun a ha hkey => ?_⟩, fun a ha => ⟨hsub.subset ha, ?_⟩⟩
  · exact h.unused a (hsub.subset ha) (mem_keyCells_object.mpr ⟨_, getElem_mem hi, .inr hkey⟩)
  · rintro j hj rfl
    have hnodup := h.nodup
    rw [heq] at hnodup
    refine (nodup_append.mp hnodup).2.2 (mem.container place + j) ?_ _ (hfields.subset ha) rfl
    exact mem_map_of_mem (mem_range.mpr hj)

theorem mem_allocated_object (hn : (object p c fs).isNormalized = false) {j : Nat}
    (hj : j < 2 * fs.length + 1) : mem.container place + j ∈ (object p c fs).allocated mem place := by
  rw [allocated, hn]
  exact mem_append_left _ (mem_map_of_mem (mem_range.mpr hj))

/-! ## Marks -/

/-- The cell of a key of an object that is made again. -/
inductive RemadeKey (a : Nat) : JsonVariant R → Prop where
  | element {p : JsonPointer} {c : JsonContainer} {es : List (JsonVariant R)} {e : JsonVariant R}
      (hn : (array p c es).isNormalized = false) (he : e ∈ es) (h : RemadeKey a e) : RemadeKey a (array p c es)
  | key {p : JsonPointer} {c : JsonContainer} {fs : List ((JsonPointer × Bytes) × JsonVariant R)}
      {f : (JsonPointer × Bytes) × JsonVariant R} (hn : (object p c fs).isNormalized = false) (hf : f ∈ fs)
      (ha : f.1.1.cell = some a) : RemadeKey a (object p c fs)
  | value {p : JsonPointer} {c : JsonContainer} {fs : List ((JsonPointer × Bytes) × JsonVariant R)}
      {f : (JsonPointer × Bytes) × JsonVariant R} (hn : (object p c fs).isNormalized = false) (hf : f ∈ fs)
      (h : RemadeKey a f.2) : RemadeKey a (object p c fs)

theorem RemadeKey.mem_keyCells {a : Nat} (h : RemadeKey a v) : a ∈ v.keyCells := by
  induction h with
  | element _ he _ ih => exact mem_keyCells_array.mpr ⟨_, he, ih⟩
  | key _ hf ha => exact mem_keyCells_object.mpr ⟨_, hf, .inl ha⟩
  | value _ hf _ ih => exact mem_keyCells_object.mpr ⟨_, hf, .inr ih⟩

/-- Each key of an object that is made again can be marked, without a mark for another key of the object or for one
    of an object in its values that is made again too.  What is normalized is compared by its address. -/
inductive RemadeMarkable : JsonVariant R → Prop where
  | normalized {v : JsonVariant R} (h : v.isNormalized = true) : RemadeMarkable v
  | array {p : JsonPointer} {c : JsonContainer} {es : List (JsonVariant R)} (h : ∀ e ∈ es, RemadeMarkable e) :
      RemadeMarkable (array p c es)
  | object {p : JsonPointer} {c : JsonContainer} {fs : List ((JsonPointer × Bytes) × JsonVariant R)}
      (h : ∀ f ∈ fs, RemadeMarkable f.2) (hcells : CellsApart fs fun f => {a | RemadeKey a f.2}) :
      RemadeMarkable (object p c fs)

/-- The cells that may be marked when a variant is compared with the one that takes its place. -/
def marked (mem : JsonMemory) (place : List Nat) (v : JsonVariant R) : Set Nat :=
  {a | RemadeKey a v ∨ a ∈ v.allocated mem place}

/-- The cells that may be marked when the values of this key are compared. -/
def markedAt (mem : JsonMemory) (place : List Nat) (fs : List ((JsonPointer × Bytes) × JsonVariant R)) (key : Bytes) :
    Set Nat :=
  {a | ∃ i, ∃ hi : i < fs.length, fs[i].1.2 = key ∧ a ∈ fs[i].2.marked mem (place ++ [2 * i + 1])}

theorem marked_element (hn : (array p c es).isNormalized = false) (hi : i < es.length) :
    es[i].marked mem (place ++ [i]) ⊆ (array p c es).marked mem place := by
  rintro a (hkey | hnew)
  · exact .inl (.element hn (getElem_mem hi) hkey)
  · exact .inr ((allocated_element hn hi).subset hnew)

theorem markedAt_subset (hfresh : Fresh mem place (object p c fs)) (hn : (object p c fs).isNormalized = false)
    (key : Bytes) : markedAt mem place fs key ⊆ (object p c fs).marked mem place := by
  rintro a ⟨i, hi, -, hkey | hnew⟩
  · exact .inl (.value hn (getElem_mem hi) hkey)
  · exact .inr ((hfresh.field hn hi).2 a hnew).1

/-- What was allocated for the values is no cell of a key. -/
theorem CellsApart.withNew (h : CellsApart fs fun f => {a | RemadeKey a f.2})
    (hfresh : Fresh mem place (object p c fs)) (hn : (object p c fs).isNormalized = false) :
    CellsApart fs fun f => markedAt mem place fs f.1.2 where
  isSome := h.isSome
  nodup := h.nodup
  below := by
    rintro f hf g - a ha ⟨i, hi, -, hkey | hnew⟩
    · exact h.below f hf _ (getElem_mem hi) a ha hkey
    · exact hfresh.unused a ((hfresh.field hn hi).2 a hnew).1 (mem_keyCells_object.mpr ⟨f, hf, .inl ha⟩)

/-- What is allocated for the object itself is no cell of a key, and is not marked when values are compared. -/
theorem Fresh.notMarked (hfresh : Fresh mem place (object p c fs)) (hn : (object p c fs).isNormalized = false)
    {j : Nat} (hj : j < 2 * fs.length + 1) :
    (∀ f ∈ fs, f.1.1.cell ≠ some (mem.container place + j)) ∧
      ∀ key, mem.container place + j ∉ markedAt mem place fs key := by
  have hunused := hfresh.unused _ (mem_allocated_object hn hj)
  constructor
  · exact fun f hf hcell => hunused (mem_keyCells_object.mpr ⟨f, hf, .inl hcell⟩)
  · rintro key ⟨i, hi, -, hkey | hnew⟩
    · exact hunused (mem_keyCells_object.mpr ⟨_, getElem_mem hi, .inr hkey.mem_keyCells⟩)
    · exact ((hfresh.field hn hi).2 _ hnew).2 j hj rfl

/-! ## Comparing with what was put -/

/-- The same value behind another pointer. -/
theorem equalScalar_same {q : JsonPointer} (hp : p.Fits x) (hq : q.Fits x) (hreal : x.type ≠ .real) :
    equalScalar x (scalar p x).formalize (scalar q x).formalize = true := by
  by_cases hmagic : x.isMagic = true
  · rw [formalize_magic hmagic hreal, formalize_magic hmagic hreal]
    unfold equalScalar
    cases x with
    | real d => exact absurd rfl hreal
    | boolean b => simp [samePointer]
    | _ => simp [samePointer, JsonScalar.type]
  · have hmagic := Bool.eq_false_iff.mpr hmagic
    rw [formalize_scalar hmagic, formalize_scalar hmagic]
    have htype : (scalar q x).hasType x.type = true := by simp [hasType]
    unfold equalScalar
    split
    · rfl
    · rw [htype]
      cases x with
      | null | boolean b | string s => simp
      | integer i => simp [integer, ne_magic_of_fits hp hmagic hreal, ne_magic_of_fits hq hmagic hreal]
      | unsigned u => simp [unsigned, ne_magic_of_fits hp hmagic hreal, ne_magic_of_fits hq hmagic hreal]
      | real d => exact absurd rfl hreal

theorem isEqual_scalar {q : JsonPointer} (hp : p.Fits x) (hq : q.Fits x) (hreal : x.type ≠ .real) (s : Set Nat) :
    (scalar p x).IsEqual (scalar q x) s := by
  intro m
  exact ⟨m, by rw [equal, equalScalar_same hp hq hreal], fun _ _ => rfl⟩

/-- What a container is put into is not looked at. -/
theorem samePointer_formalize_put (hv : ∀ p x, v ≠ scalar p x) (hw : ∀ p x, w ≠ scalar p x)
    (address : Nat) : v.samePointer (w.put address).formalize = v.samePointer w.formalize := by
  cases w with
  | scalar p x => exact absurd rfl (hw p x)
  | array p c es =>
    obtain ⟨hkept, -, -⟩ := putContainer_kept address p c es.isEmpty
    simp only [put, formalize, hkept]
    cases v with
    | scalar q x => exact absurd rfl (hv q x)
    | array q d ds | object q d gs => split <;> cases q <;> rfl
  | object p c fs =>
    obtain ⟨hkept, -, -⟩ := putContainer_kept address p c fs.isEmpty
    simp only [put, formalize, hkept]
    cases v with
    | scalar q x => exact absurd rfl (hv q x)
    | array q d ds | object q d gs => split <;> cases q <;> rfl

theorem formalize_ne_scalar (hv : ∀ p x, v ≠ scalar p x) : ∀ p x, v.formalize ≠ scalar p x := by
  intro p x h
  cases v with
  | scalar q y => exact hv q y rfl
  | array q c es | object q c fs =>
    unfold formalize at h
    simp only at h
    split at h <;> cases h

/-- Where a variant is put makes no difference to the comparison. -/
theorem IsEqual.put {s : Set Nat} (h : v.IsEqual w s) (hv : ∀ p x, v ≠ scalar p x) (hw : ∀ p x, w ≠ scalar p x)
    (address : Nat) : v.IsEqual (w.put address) s := by
  have hsame := samePointer_formalize_put (formalize_ne_scalar hv) hw address
  have hequal : ∀ m, v.equal (w.put address) m = v.equal w m := by
    intro m
    cases w with
    | scalar p x => exact absurd rfl (hw p x)
    | array p c es =>
      rw [put] at hsame ⊢
      cases v with
      | scalar q x => exact absurd rfl (hv q x)
      | array q d ds => rw [equal, equal, hsame]
      | object q d gs =>
        rw [equal, equal, hsame]
        all_goals rintro _ _ _ ⟨⟩
    | object p c fs =>
      rw [put] at hsame ⊢
      cases v with
      | scalar q x => exact absurd rfl (hv q x)
      | array q d ds =>
        rw [equal, equal, hsame]
        all_goals rintro _ _ _ ⟨⟩
      | object q d gs => rw [equal, equal, hsame]
  intro m
  rw [hequal]
  exact h m

/-- A variant is equal to itself. -/
theorem isEqual_self (hv : v.WellMade) (hvalue : v.value.Normalizable) (s : Set Nat) : v.IsEqual v s := by
  cases hv with
  | @scalar p x h =>
    cases hvalue with
    | scalar hreal => exact isEqual_scalar h h hreal s
  | @array p c es h hdepth hmax hnormalized | @object p c fs h hkey hdepth hmax hnormalized =>
    intro m
    refine ⟨m, ?_, fun _ _ => rfl⟩
    rw [equal, if_pos]
    unfold formalize
    simp only
    split
    · rfl
    · exact decide_eq_true rfl

/-! ## Order -/

/-- The address that `json_cmp_strings` will see instead of this one. -/
def normalAddress (mem : JsonMemory) (place : List Nat) (v : JsonVariant R) : Nat :=
  if v.isNormalized then v.address mem else mem.container place

/-- What `json_cmp_strings` will say of the elements of an array at these indices. -/
def compareElements (mem : JsonMemory) (place : List Nat) (v : JsonVariant R) (i : Nat) (w : JsonVariant R) (j : Nat) :
    Ordering :=
  match v.string, w.string with
  | some s, some t => strcmp s t
  | _, _ => compare (v.normalAddress mem (place ++ [i])) (w.normalAddress mem (place ++ [j]))

/-- The arrays that are made again have the first elements of their pairs in strictly ascending order. -/
inductive InOrder (mem : JsonMemory) : List Nat → JsonVariant R → Prop where
  | normalized {place : List Nat} {v : JsonVariant R} (h : v.isNormalized = true) : InOrder mem place v
  | array {place : List Nat} {p : JsonPointer} {c : JsonContainer} {es : List (JsonVariant R)}
      (h : ∀ i (hi : i < es.length), InOrder mem (place ++ [i]) es[i])
      (hpairs : ∀ i j (_ : i < j) (hj : 2 * j + 1 < es.length),
        compareElements mem place es[2 * i] (2 * i) es[2 * j] (2 * j) = .lt) :
      InOrder mem place (array p c es)
  | object {place : List Nat} {p : JsonPointer} {c : JsonContainer}
      {fs : List ((JsonPointer × Bytes) × JsonVariant R)}
      (h : ∀ i (hi : i < fs.length), InOrder mem (place ++ [2 * i + 1]) fs[i].2) : InOrder mem place (object p c fs)

/-- What is found of the variant that takes the place of another one. -/
structure IsNormal (q : Sorter) (mem : JsonMemory) (place : List Nat) (v w : JsonVariant R) : Prop where
  result : v.normalize q mem place = .ok w
  normalized : w.isNormalized = true
  wellMade : w.WellMade
  reordered : v.value.Reordered w.value
  depth : w.value.depth = v.value.depth
  equal : v.IsEqual w (v.marked mem place)
  equalPut : ∀ a, v.IsEqual (w.put a) (v.marked mem place)
  string : w.string = v.string
  address : w.address mem = v.normalAddress mem place

theorem normalize_of_isNormalized (q : Sorter) (mem : JsonMemory) (place : List Nat)
    (h : v.isNormalized = true) : v.normalize q mem place = .ok v := by
  cases v with
  | scalar p x | array p c es | object p c fs => rw [normalize, if_pos h]

/-- A normalized variant is left as it is. -/
theorem isNormal_self (q : Sorter) (mem : JsonMemory) (place : List Nat) (hv : v.WellMade)
    (hvalue : v.value.Normalizable) (h : v.isNormalized = true) : IsNormal q mem place v v where
  result := normalize_of_isNormalized q mem place h
  normalized := h
  wellMade := hv
  reordered := .refl _
  depth := rfl
  equal := isEqual_self hv hvalue _
  equalPut a := by
    cases v with
    | scalar p x =>
      cases hv with
      | scalar hp =>
      cases hvalue with
      | scalar hreal => exact isEqual_scalar hp (fits_putScalar a hp) hreal _
    | array p c es | object p c fs =>
      exact (isEqual_self hv hvalue _).put (fun _ _ h => by cases h) (fun _ _ h => by cases h) a
  string := rfl
  address := (if_pos h).symm

/-- The elements that take the place of others are compared as it was said. -/
theorem jsonCmpStrings_of_isNormal {v' w' : JsonVariant R} {j : Nat}
    (h : IsNormal q mem (place ++ [i]) v w) (h' : IsNormal q mem (place ++ [j]) v' w') :
    jsonCmpStrings mem w w' = compareElements mem place v i v' j := by
  unfold compareElements
  split
  · rename_i s t hs ht
    exact jsonCmpStrings_string mem (h.string.trans hs) (h'.string.trans ht)
  · rename_i hnone
    rw [← h.address, ← h'.address]
    refine jsonCmpStrings_address mem ?_
    rw [h.string, h'.string]
    cases hv : v.string with
    | none => exact .inl rfl
    | some s =>
      cases hv' : v'.string with
      | none => exact .inr rfl
      | some t => exact absurd hv' (hnone s t hv)

/-! ## Members -/

/-- The loop over the elements of an array. -/
theorem normalizeElements_eq_ok {k : Nat}
    (h : ∀ i (hi : i < es.length), ∃ w, IsNormal q mem (place ++ [k + i]) es[i] w) :
    ∃ ws, normalizeElements q mem place k es = .ok ws ∧ ws.length = es.length ∧
      ∀ i (hi : i < es.length) (hi' : i < ws.length), IsNormal q mem (place ++ [k + i]) es[i] ws[i] := by
  induction es generalizing k with
  | nil => exact ⟨[], by rw [normalizeElements], rfl, fun i hi => absurd hi (Nat.not_lt_zero i)⟩
  | cons e es ih =>
    obtain ⟨w, hw⟩ := h 0 (Nat.zero_lt_succ _)
    have hrest : ∀ i (hi : i < es.length), ∃ w, IsNormal q mem (place ++ [k + 1 + i]) es[i] w := by
      intro i hi
      have hat := h (i + 1) (Nat.succ_lt_succ hi)
      rw [show k + (i + 1) = k + 1 + i by omega] at hat
      exact hat
    obtain ⟨ws, hws, hlength, hget⟩ := ih hrest
    refine ⟨w :: ws, ?_, congrArg (· + 1) hlength, fun i hi hi' => ?_⟩
    · have hresult : normalize q mem (place ++ [k]) e = .ok w := hw.result
      rw [normalizeElements, hresult]
      simp only [hws]
    · cases i with
      | zero => exact hw
      | succ i =>
        rw [show k + (i + 1) = k + 1 + i by omega]
        exact hget i (Nat.lt_of_succ_lt_succ hi) (Nat.lt_of_succ_lt_succ hi')

/-- The loop over the keys and values of an object. -/
theorem normalizeFields_eq_ok {k : Nat}
    (h : ∀ i (hi : i < fs.length), ∃ w, IsNormal q mem (place ++ [k + 2 * i + 1]) fs[i].2 w) :
    ∃ gs, normalizeFields q mem place k fs = .ok (flatten gs) ∧ gs.map Prod.fst = fs.map Prod.fst ∧
      ∀ i (hi : i < fs.length) (hi' : i < gs.length), IsNormal q mem (place ++ [k + 2 * i + 1]) fs[i].2 gs[i].2 := by
  induction fs generalizing k with
  | nil => exact ⟨[], by rw [normalizeFields]; rfl, rfl, fun i hi => absurd hi (Nat.not_lt_zero i)⟩
  | cons f fs ih =>
    obtain ⟨w, hw⟩ := h 0 (Nat.zero_lt_succ _)
    have hrest : ∀ i (hi : i < fs.length), ∃ w, IsNormal q mem (place ++ [k + 2 + 2 * i + 1]) fs[i].2 w := by
      intro i hi
      have hat := h (i + 1) (Nat.succ_lt_succ hi)
      rw [show k + 2 * (i + 1) + 1 = k + 2 + 2 * i + 1 by omega] at hat
      exact hat
    obtain ⟨gs, hgs, hkeys, hget⟩ := ih hrest
    obtain ⟨key, v⟩ := f
    refine ⟨(key, w) :: gs, ?_, congrArg (key :: ·) hkeys, fun i hi hi' => ?_⟩
    · have hresult : normalize q mem (place ++ [k + 1]) v = .ok w := hw.result
      rw [normalizeFields, hresult]
      simp only [hgs]
      rfl
    · cases i with
      | zero => exact hw
      | succ i =>
        rw [show k + 2 * (i + 1) + 1 = k + 2 + 2 * i + 1 by omega]
        exact hget i (Nat.lt_of_succ_lt_succ hi) (Nat.lt_of_succ_lt_succ hi')

/-! ## Containers -/

/-- An array is made again. -/
theorem isNormal_array (hv : (array p c es).WellMade) (hn : (array p c es).isNormalized = false)
    (h : ∀ i (hi : i < es.length), ∃ w, IsNormal q mem (place ++ [i]) es[i] w)
    (hpairs : ∀ i j (_ : i < j) (hj : 2 * j + 1 < es.length),
      compareElements mem place es[2 * i] (2 * i) es[2 * j] (2 * j) = .lt) :
    ∃ w, IsNormal q mem place (array p c es) w := by
  have hzero : ∀ i (hi : i < es.length), ∃ w, IsNormal q mem (place ++ [0 + i]) es[i] w := by
    intro i hi
    rw [Nat.zero_add]
    exact h i hi
  obtain ⟨ws, hws, hlength, hget⟩ := normalizeElements_eq_ok hzero
  have hat : ∀ i (hi : i < es.length) (hi' : i < ws.length), IsNormal q mem (place ++ [i]) es[i] ws[i] := by
    intro i hi hi'
    have hi₀ := hget i hi hi'
    rw [Nat.zero_add] at hi₀
    exact hi₀
  have hmem : ∀ w ∈ ws, ∃ i, ∃ hi : i < es.length, IsNormal q mem (place ++ [i]) es[i] w := by
    intro w hw
    obtain ⟨i, hi, rfl⟩ := getElem_of_mem hw
    exact ⟨i, hlength ▸ hi, hat i (hlength ▸ hi) hi⟩
  -- the pairs are in order already, and `qsort` leaves them
  have hsort : sortPairs q mem ws = ws := by
    refine sortPairs_eq_self q mem fun i j _ _ hij hj => ?_
    rw [jsonCmpStrings_of_isNormal (hat (2 * i) (by omega) (by omega)) (hat (2 * j) (by omega) (by omega))]
    exact hpairs i j hij (by omega)
  have hdepths : Json.depthElements (ws.map value) = Json.depthElements (es.map value) := by
    refine Json.depthElements_congr (ext_getElem (by simp [hlength]) fun i hi hi' => ?_)
    simp only [length_map] at hi hi'
    simp only [getElem_map]
    exact (hat i hi' hi).depth
  have hwellMade : ∀ w ∈ ws, w.WellMade := by
    intro w hw
    obtain ⟨i, hi, hnormal⟩ := hmem w hw
    exact hnormal.wellMade
  have hmax : Json.depthElements (ws.map value) ≤ depthMax := by
    have hle := hv.depth_le
    rw [value_array, Json.depth] at hle
    rw [hdepths]
    exact hle
  have hne : ws ≠ [] := by
    rintro rfl
    obtain rfl : es = [] := length_eq_zero_iff.mp hlength.symm
    simp at hn
  obtain ⟨es', hnew, hvalue, hlength', hput, hmade⟩ := newArray_wellMade (mem.container place) hwellMade hmax hne
  have hall : ws.all isNormalized = true := by
    rw [all_eq_true]
    intro w hw
    obtain ⟨i, hi, hnormal⟩ := hmem w hw
    exact hnormal.normalized
  -- element by element, equal to what is copied into the new array
  have hequal : Forall₂ (fun e d => e.IsEqual d ((array p c es).marked mem place)) es es' := by
    refine (forall₂_iff_get).mpr ⟨by omega, fun i hi hi' => ?_⟩
    show es[i].IsEqual es'[i] _
    rw [hput i (by omega) hi']
    exact ((hat i hi (by omega)).equalPut _).mono (marked_element hn hi)
  refine ⟨_, ?_, ?_, hmade, ?_, ?_, isEqual_array hequal, ?_, rfl, ?_⟩
  · rw [normalize, hn, hws]
    simp only [Bool.false_eq_true, if_false, hsort, hnew, checkNormalized, hall, if_true]
  · rw [isNormalized_array, hall, Bool.or_true]
  · rw [value_array, value_array, hvalue]
    refine .array (by simp [hlength]) fun i hi hi' => ?_
    simp only [length_map] at hi hi'
    simp only [getElem_map]
    exact (hat i hi hi').reordered
  · rw [value_array, value_array, Json.depth, Json.depth, hvalue, hdepths]
  · exact (isEqual_array hequal).put (fun _ _ h => by cases h) (fun _ _ h => by cases h)
  · rw [normalAddress, hn]
    rfl

/-- A key is put into its new cell, or remains where it was. -/
theorem cell_putScalar_key (address : Nat) {k : Bytes} (hcell : p.cell.isSome = true)
    (hkey : p.isLocated = true ∨ k ≠ []) :
    (putScalar address p (.string k : JsonScalar R)).cell = some address ∨
      (putScalar address p (.string k : JsonScalar R)).cell = p.cell := by
  by_cases hlocated : p.isLocated = true
  · exact .inl (cell_putScalar hlocated address _)
  have hmagic : (JsonScalar.string k : JsonScalar R).isMagic = false :=
    isEmpty_eq_false_iff.mpr (hkey.resolve_left hlocated)
  cases p with
  | magic | constString => cases hcell
  | regular a line column =>
    unfold putScalar
    simp only [hlocated, hmagic, Bool.false_eq_true, if_false]
    split
    · exact .inl rfl
    · exact .inr rfl

/-- The cells of keys in a new object. -/
theorem cell_of_putFields {fs' : List (JsonField R)} (hcell : ∀ f ∈ fs, f.1.1.cell.isSome = true)
    (hkey : ∀ f ∈ fs, f.1.1.isLocated = true ∨ f.1.2 ≠ []) {address depth depth' : Nat}
    (hput : putFields address depth (flatten fs) = .ok (depth', fs')) (hi : i < fs'.length) :
    ∃ hi' : i < fs.length, (fs'[i].1.1.cell = some (address + 2 * i) ∨ fs'[i].1.1.cell = fs[i].1.1.cell) ∧
      fs'[i].1.2 = fs[i].1.2 := by
  obtain ⟨hlength, hget⟩ := getElem_of_putFields hput
  have hi' : i < fs.length := by omega
  refine ⟨hi', ?_, ?_⟩
  · rw [hget i hi' hi]
    exact cell_putScalar_key _ (hcell _ (getElem_mem hi')) (hkey _ (getElem_mem hi'))
  · rw [hget i hi' hi]

/-- Keys that can be marked can be so in a new object. -/
theorem CellsApart.putFields {fs' : List (JsonField R)} {marks : Bytes → Set Nat}
    (h : CellsApart fs fun f => marks f.1.2) (hkey : ∀ f ∈ fs, f.1.1.isLocated = true ∨ f.1.2 ≠ [])
    {address depth depth' : Nat}
    (hnew : ∀ i < 2 * fs.length, ∀ f ∈ fs, f.1.1.cell ≠ some (address + i) ∧ address + i ∉ marks f.1.2)
    (hput : JsonVariant.putFields address depth (flatten fs) = .ok (depth', fs')) :
    CellsApart fs' fun f => marks f.1.2 := by
  have hcell : ∀ i (hi : i < fs'.length), ∃ hi' : i < fs.length, _ := fun i hi =>
    cell_of_putFields h.isSome hkey hput hi
  refine ⟨?_, ?_, ?_⟩
  · intro f hf
    obtain ⟨i, hi, rfl⟩ := getElem_of_mem hf
    obtain ⟨hi', hat | hat, -⟩ := hcell i hi
    · rw [hat]
      rfl
    · rw [hat]
      exact h.isSome _ (getElem_mem hi')
  · rw [nodup_iff_pairwise_ne, pairwise_map, pairwise_iff_getElem]
    intro i j hi hj hij heq
    obtain ⟨hi', hati, -⟩ := hcell i hi
    obtain ⟨hj', hatj, -⟩ := hcell j hj
    obtain hati | hati := hati
    · obtain hatj | hatj := hatj
      · rw [hati, hatj] at heq
        have heq := Option.some.inj heq
        omega
      · rw [hati, hatj] at heq
        exact (hnew (2 * i) (by omega) _ (getElem_mem hj')).1 heq.symm
    · obtain hatj | hatj := hatj
      · rw [hati, hatj] at heq
        exact (hnew (2 * j) (by omega) _ (getElem_mem hi')).1 heq
      · rw [hati, hatj] at heq
        exact (pairwise_iff_getElem.mp (pairwise_map.mp h.nodup)) i j hi' hj' hij heq
  · intro f hf g hg a ha
    obtain ⟨i, hi, rfl⟩ := getElem_of_mem hf
    obtain ⟨j, hj, rfl⟩ := getElem_of_mem hg
    obtain ⟨hi', hati, -⟩ := hcell i hi
    obtain ⟨hj', -, hsame⟩ := hcell j hj
    rw [hsame]
    obtain hati | hati := hati
    · obtain rfl := Option.some.inj (hati.symm.trans ha)
      exact (hnew (2 * i) (by omega) _ (getElem_mem hj')).2
    · exact h.below _ (getElem_mem hi') _ (getElem_mem hj') a (hati ▸ ha)

/-- The fields of an object with the values that take the place of those it has, in whatever order. -/
structure NormalFields (q : Sorter) (mem : JsonMemory) (place : List Nat)
    (fs hs : List ((JsonPointer × Bytes) × JsonVariant R)) : Prop where
  keys : (hs.map Prod.fst).Perm (fs.map Prod.fst)
  made : ∀ h ∈ hs, h.2.WellMade ∧ h.2.isNormalized = true
  found : ∀ i (hi : i < fs.length), ∃ h ∈ hs, h.1 = fs[i].1 ∧ IsNormal q mem (place ++ [2 * i + 1]) fs[i].2 h.2
  depth : Json.depthFields (hs.map fun h => (h.1.2, h.2.value)) = Json.depthFields (fs.map fun f => (f.1.2, f.2.value))
  reordered : Json.Reordered (.object (fs.map fun f => (f.1.2, f.2.value)))
    (.object (hs.map fun h => (h.1.2, h.2.value)))

/-- The values take their places, and the fields are put in the order of their keys. -/
theorem exists_normalFields (hnodup : (fs.map fun f => f.1.2).Nodup)
    (h : ∀ i (hi : i < fs.length), ∃ w, IsNormal q mem (place ++ [2 * i + 1]) fs[i].2 w) :
    ∃ gs hs, normalizeFields q mem place 0 fs = .ok gs ∧ sortPairs q mem gs = flatten hs ∧
      (hs.map fun h => h.1.2).Pairwise (· < ·) ∧ NormalFields q mem place fs hs := by
  have hzero : ∀ i (hi : i < fs.length), ∃ w, IsNormal q mem (place ++ [0 + 2 * i + 1]) fs[i].2 w := by
    intro i hi
    rw [Nat.zero_add]
    exact h i hi
  obtain ⟨gs, hgs, hfirst, hget⟩ := normalizeFields_eq_ok hzero
  have hlength : gs.length = fs.length := by
    have hmap := congrArg length hfirst
    rw [length_map, length_map] at hmap
    exact hmap
  have hat : ∀ i (hi : i < fs.length) (hi' : i < gs.length),
      gs[i].1 = fs[i].1 ∧ IsNormal q mem (place ++ [2 * i + 1]) fs[i].2 gs[i].2 := by
    intro i hi hi'
    have hi₀ := hget i hi hi'
    rw [Nat.zero_add] at hi₀
    have hkey := getElem_of_eq hfirst (by rw [length_map]; exact hi')
    rw [getElem_map, getElem_map] at hkey
    exact ⟨hkey, hi₀⟩
  have hkeys : (gs.map fun g => g.1.2) = fs.map fun f => f.1.2 := by
    have hmap := congrArg (map Prod.snd) hfirst
    rw [map_map, map_map] at hmap
    exact hmap
  obtain ⟨hs, hsort, hperm, hsorted⟩ := sortPairs_flatten q mem (hkeys ▸ hnodup)
  refine ⟨_, hs, hgs, hsort, hsorted, hfirst ▸ hperm.map _, ?_, ?_, ?_, ?_⟩
  · intro f hf
    obtain ⟨i, hi, rfl⟩ := getElem_of_mem (hperm.mem_iff.mp hf)
    have hnormal := (hat i (hlength ▸ hi) hi).2
    exact ⟨hnormal.wellMade, hnormal.normalized⟩
  · intro i hi
    have hi' : i < gs.length := hlength.symm ▸ hi
    exact ⟨gs[i], hperm.mem_iff.mpr (getElem_mem hi'), hat i hi hi'⟩
  · rw [Json.depthFields_perm (hperm.map _)]
    refine Json.depthFields_congr (ext_getElem (by simp [hlength]) fun i hi hi' => ?_)
    simp only [length_map] at hi hi'
    simp only [getElem_map]
    exact (hat i hi' hi).2.depth
  · refine .object ?_ ?_ (hperm.map _)
    · rw [map_map, map_map]
      exact hkeys.symm
    · intro i hi hi'
      simp only [length_map] at hi hi'
      simp only [getElem_map]
      exact (hat i hi hi').2.reordered

/-- An object is equal to the one that is made of the fields with the new values. -/
theorem NormalFields.isEqual {hs fs' : List (JsonField R)} (h : NormalFields q mem place fs hs)
    (hnodup : (fs.map fun f => f.1.2).Nodup) (hcells : CellsApart fs fun f => {a | RemadeKey a f.2})
    (hfresh : Fresh mem place (object p c fs)) (hn : (object p c fs).isNormalized = false)
    (hkey : ∀ f ∈ hs, f.1.1.isLocated = true ∨ f.1.2 ≠ []) {depth : Nat}
    (hput : putFields (mem.container place + 1) 0 (flatten hs) = .ok (depth, fs')) (p' : JsonPointer)
    (d : JsonContainer) : (object p c fs).IsEqual (object p' d fs') ((object p c fs).marked mem place) := by
  obtain ⟨hlengthPut, hgetPut⟩ := getElem_of_putFields hput
  have hlength : hs.length = fs.length := by
    have hperm := h.keys.length_eq
    rwa [length_map, length_map] at hperm
  have hmem : ∀ g ∈ hs, ∃ f ∈ fs, f.1 = g.1 := fun g hg =>
    mem_map.mp (h.keys.mem_iff.mp (mem_map_of_mem hg))
  have hapart := (hcells.withNew hfresh hn).of_keys h.keys
  have hnew : ∀ i < 2 * hs.length, ∀ f ∈ hs, f.1.1.cell ≠ some (mem.container place + 1 + i) ∧
      mem.container place + 1 + i ∉ markedAt mem place fs f.1.2 := by
    intro i hi f hf
    obtain ⟨g, hg, hgf⟩ := hmem f hf
    have hnot := hfresh.notMarked hn (show 1 + i < 2 * fs.length + 1 by omega)
    rw [← Nat.add_assoc] at hnot
    exact ⟨hgf ▸ hnot.1 g hg, hnot.2 _⟩
  -- the keys of the new object
  have hkeys : (fs'.map fun f => f.1.2).Nodup := by
    have heq : (fs'.map fun f => f.1.2) = hs.map fun f => f.1.2 := by
      refine ext_getElem (by simp [hlengthPut]) fun i hi hi' => ?_
      simp only [length_map] at hi hi'
      simp only [getElem_map, hgetPut i hi' hi]
    have hperm := h.keys.map Prod.snd
    rw [map_map, map_map] at hperm
    rw [heq]
    exact hperm.nodup_iff.mpr hnodup
  have hvalues : ∀ f ∈ fs, ∃ g ∈ fs', f.1.2 = g.1.2 ∧ f.2.IsEqual g.2 (markedAt mem place fs g.1.2) := by
    intro f hf
    obtain ⟨i, hi, rfl⟩ := getElem_of_mem hf
    obtain ⟨g, hg, hkeyEq, hnormal⟩ := h.found i hi
    obtain ⟨j, hj, rfl⟩ := getElem_of_mem hg
    have hj' : j < fs'.length := by omega
    refine ⟨fs'[j], getElem_mem hj', ?_, ?_⟩
    · rw [hgetPut j hj hj', hkeyEq]
    · rw [hgetPut j hj hj']
      exact (hnormal.equalPut _).mono fun a ha => ⟨i, hi, by rw [hkeyEq], ha⟩
  have hfinds : Finds fs' (fun f => markedAt mem place fs f.1.2) [] fs :=
    finds_of_keys hkeys hnodup (fun g hg => absurd hg not_mem_nil) hvalues
  refine isEqual_object (by omega) hfinds (hapart.putFields hkey hnew hput) fun g hg => ⟨fun a ha => ?_, ?_⟩
  · obtain ⟨i, hi, rfl⟩ := getElem_of_mem hg
    obtain ⟨hi', hcell, -⟩ := cell_of_putFields hapart.isSome hkey hput hi
    obtain hcell | hcell := hcell
    · obtain rfl := Option.some.inj (hcell.symm.trans ha)
      rw [Nat.add_assoc]
      exact .inr (mem_allocated_object hn (by omega))
    · obtain ⟨f, hf, hfg⟩ := hmem _ (getElem_mem hi')
      exact .inl (.key hn hf (by rw [hfg, ← hcell]; exact ha))
  · exact markedAt_subset hfresh hn _

/-- An object is made again. -/
theorem isNormal_object (hv : (object p c fs).WellMade) (hvalue : (object p c fs).value.Normalizable)
    (hcells : CellsApart fs fun f => {a | RemadeKey a f.2}) (hfresh : Fresh mem place (object p c fs))
    (hn : (object p c fs).isNormalized = false)
    (h : ∀ i (hi : i < fs.length), ∃ w, IsNormal q mem (place ++ [2 * i + 1]) fs[i].2 w) :
    ∃ w, IsNormal q mem place (object p c fs) w := by
  have hnodup : (fs.map fun f => f.1.2).Nodup := by
    rw [value_object] at hvalue
    cases hvalue with
    | object _ hkeys =>
      rw [map_map] at hkeys
      exact hkeys
  obtain ⟨gs, hs, hgs, hsort, hsorted, hfields⟩ := exists_normalFields hnodup h
  cases hv with
  | object hmade hkey hdepth hmax hnormalized =>
  -- an empty key without a place cannot be marked
  have hkey' : ∀ f ∈ hs, f.1.1.isLocated = true ∨ f.1.2 ≠ [] := by
    intro f hf
    obtain ⟨g, hg, hgf⟩ := mem_map.mp (hfields.keys.mem_iff.mp (mem_map_of_mem hf))
    rw [← hgf]
    obtain hlocated | hne | hmagic := hkey g hg
    · exact .inl hlocated
    · exact .inr hne
    · have hsome := hcells.isSome g hg
      rw [hmagic] at hsome
      cases hsome
  have hne : hs ≠ [] := by
    rintro rfl
    have hlength := hfields.keys.length_eq
    rw [length_map, length_map] at hlength
    obtain rfl : fs = [] := length_eq_zero_iff.mp hlength.symm
    simp at hn
  obtain ⟨fs', sorted, hmake, hsortedIff, hvalues, ⟨depth, hput⟩, hmade'⟩ := newObject_wellMade
    (mem.container place) (fun f hf => (hfields.made f hf).1) (fun f hf => (hkey' f hf).imp_right .inl)
    (by rw [hfields.depth, ← hdepth]; exact hmax) hne
  obtain rfl : sorted = true := hsortedIff.mpr hsorted
  have hall : (flatten hs).all isNormalized = true := by
    rw [all_eq_true]
    intro e he
    obtain ⟨f, hf, he⟩ := mem_flatMap.mp he
    obtain rfl | he := mem_cons.mp he
    · exact isNormalized_scalar _ fun h => by cases h
    · obtain rfl := mem_singleton.mp he
      exact (hfields.made f hf).2
  have hequal := hfields.isEqual hnodup hcells hfresh hn hkey' hput
  refine ⟨_, ?_, ?_, hmade', ?_, ?_, hequal _ _, ?_, rfl, ?_⟩
  · rw [normalize, hn, hgs]
    simp only [Bool.false_eq_true, if_false, hsort, hmake, checkNormalized, hall, Bool.and_self, if_true]
  · rw [isNormalized_object, hall, Bool.and_self, Bool.or_true]
  · rw [value_object, value_object, hvalues]
    exact hfields.reordered
  · rw [value_object, value_object, Json.depth, Json.depth, hvalues, hfields.depth]
  · exact (hequal _ _).put (fun _ _ h => by cases h) (fun _ _ h => by cases h)
  · rw [normalAddress, hn]
    rfl

/-! ## The whole variant -/

theorem exists_isNormal (q : Sorter) (mem : JsonMemory) (hv : v.WellMade)
    (hvalue : v.value.Normalizable) (hm : v.RemadeMarkable) (hfresh : Fresh mem place v)
    (horder : InOrder mem place v) : ∃ w, IsNormal q mem place v w := by
  by_cases hn : v.isNormalized = true
  · exact ⟨v, isNormal_self q mem place hv hvalue hn⟩
  induction v using induct generalizing place with
  | scalar p x =>
    cases hvalue with
    | scalar hreal => exact absurd (isNormalized_scalar p hreal) hn
  | array p c es ih =>
    cases hm with
    | normalized h => exact absurd h hn
    | array hmark =>
    cases horder with
    | normalized h => exact absurd h hn
    | array hmembers hpairs =>
      have hn := Bool.eq_false_iff.mpr hn
      refine isNormal_array hv hn (fun i hi => ?_) hpairs
      have hmem := getElem_mem hi
      rw [value_array] at hvalue
      cases hv with
      | array hmade hdepth hmax hnormalized =>
      cases hvalue with
      | array hvalues =>
      have hvalue := hvalues _ (mem_map_of_mem hmem)
      by_cases hmember : es[i].isNormalized = true
      · exact ⟨_, isNormal_self q mem _ (hmade _ hmem) hvalue hmember⟩
      · exact ih _ hmem (hmade _ hmem) hvalue (hmark _ hmem) (hfresh.element hn hi) (hmembers i hi) hmember
  | object p c fs ih =>
    cases hm with
    | normalized h => exact absurd h hn
    | object hmark hcells =>
    cases horder with
    | normalized h => exact absurd h hn
    | object hmembers =>
      have hn := Bool.eq_false_iff.mpr hn
      refine isNormal_object hv hvalue hcells hfresh hn fun i hi => ?_
      have hmem := getElem_mem hi
      rw [value_object] at hvalue
      cases hv with
      | object hmade hkey hdepth hmax hnormalized =>
      cases hvalue with
      | object hvalues hkeys =>
      have hvalue := hvalues _ (mem_map_of_mem hmem)
      by_cases hmember : fs[i].2.isNormalized = true
      · exact ⟨_, isNormal_self q mem _ (hmade _ hmem) hvalue hmember⟩
      · exact ih _ hmem (hmade _ hmem) hvalue (hmark _ hmem) (hfresh.field hn hi).1 (hmembers i hi) hmember

/-- The result is equal to the variant, has all elements of arrays where they were, and is in the order of its
    keys everywhere, so that it is left as it is the next time: if the keys of objects that are made again can be
    marked (`RemadeMarkable`), and the arrays on the way have the first elements of their pairs in order
    (`InOrder`). -/
theorem normalize_ok (q : Sorter) (mem : JsonMemory) {v : JsonVariant R} (hv : v.WellMade)
    (hvalue : v.value.Normalizable) (hfresh : Fresh mem [] v) (hmark : v.RemadeMarkable) (horder : InOrder mem [] v) :
    ∃ w, v.normalize q mem [] = .ok w ∧ (∀ m, ∃ m', v.equal w m = some (m', true)) ∧ v.value.Reordered w.value ∧
      w.value.Sorted ∧ w.isNormalized = true ∧ ∀ q mem, w.normalize q mem [] = .ok w := by
  obtain ⟨w, hw⟩ := exists_isNormal q mem hv hvalue hmark hfresh horder
  refine ⟨w, hw.result, ?_, hw.reordered, hw.wellMade.sorted hw.normalized, hw.normalized, ?_⟩
  · intro m
    obtain ⟨m', hequal, -⟩ := hw.equal m
    exact ⟨m', hequal⟩
  · exact fun q mem => normalize_of_isNormalized q mem [] hw.normalized

end

/-! ## Pairs in an array -/

/-- `[first, {"y": null, "x": null}, second, {"": null}]`, where the last object is normalized and its key is
    the constant of the empty string. -/
def twoPairs (first second : Bytes) : JsonVariant Unit :=
  array (.regular 0 0 0) ⟨0, 2, false, false⟩
    [scalar (.regular 1 0 0) (.string first),
      object (.regular 5 0 0) ⟨5, 1, false, false⟩
        [((.regular 6 0 0, [121]), newNull), ((.regular 8 0 0, [120]), newNull)],
      scalar (.regular 3 0 0) (.string second),
      object (.regular 10 0 0) ⟨10, 1, true, true⟩ [((.magic, []), newNull)]]

/-- Memory from 100 on for the array, and from 200 on for the object. -/
def twoPairsMemory : JsonMemory := ⟨fun _ => 0, fun place => 100 * (place.length + 1)⟩

theorem normalizable_newNull : (newNull : JsonVariant Unit).value.Normalizable := by
  exact .scalar (by decide)

theorem wellMade_twoPairs (first second : Bytes) : (twoPairs first second).WellMade := by
  have hnull : (newNull : JsonVariant Unit).WellMade := .scalar (JsonPointer.fits_magic (.inl rfl))
  refine .array ?_ ?_ (by decide) fun h => by cases h
  · simp only [forall_mem_cons, not_mem_nil, false_implies, implies_true, and_true]
    refine ⟨.scalar (JsonPointer.fits_regular _ _ _ _), .object ?_ ?_ ?_ (by decide) (fun h => by cases h),
      .scalar (JsonPointer.fits_regular _ _ _ _), .object ?_ ?_ ?_ (by decide) fun _ => ⟨?_, ?_⟩⟩
    · simp [hnull]
    · simp
    · simp [newNull, Json.depthFields, Json.depth]
    · simp [hnull]
    · simp
    · simp [newNull, Json.depthFields, Json.depth]
    · simp
    · simp [newNull, Json.Sorted.scalar]
  · simp [newNull, Json.depthElements, Json.depthFields, Json.depth]

theorem normalizable_twoPairs (first second : Bytes) : (twoPairs first second).value.Normalizable := by
  rw [twoPairs, value_array]
  refine .array ?_
  simp only [map_cons, map_nil, value_scalar, value_object, forall_mem_cons, not_mem_nil,
    false_implies, implies_true, and_true]
  have hstring : ∀ s : Bytes, (JsonScalar.string s : JsonScalar Unit).type ≠ .real := fun s h => by cases h
  refine ⟨.scalar (hstring first), .object ?_ (by simp), .scalar (hstring second), .object ?_ (by simp)⟩
  · simp [normalizable_newNull]
  · simp [normalizable_newNull]

/-- The empty key of the last object has no cell: it is not compared. -/
theorem remadeMarkable_twoPairs (first second : Bytes) : (twoPairs first second).RemadeMarkable := by
  have hstring : ∀ a s, (scalar (.regular a 0 0) (.string s) : JsonVariant Unit).RemadeMarkable :=
    fun a s => .normalized (isNormalized_scalar _ fun h => by cases h)
  have hnull : (newNull : JsonVariant Unit).RemadeMarkable := .normalized (isNormalized_scalar _ (by decide))
  have hnot : ∀ a, ¬ RemadeKey a (newNull : JsonVariant Unit) := by
    intro a h
    cases h
  refine .array ?_
  simp only [forall_mem_cons, not_mem_nil, false_implies, implies_true, and_true]
  refine ⟨hstring 1 first, .object ?_ ⟨?_, ?_, ?_⟩, hstring 3 second, .normalized rfl⟩
  · simp [hnull]
  · simp [JsonPointer.cell]
  · simp [JsonPointer.cell]
  · simp [hnot]

theorem fresh_twoPairs (first second : Bytes) : Fresh twoPairsMemory [] (twoPairs first second) := by
  have hallocated : (twoPairs first second).allocated twoPairsMemory [] =
      [100, 101, 102, 103, 104, 200, 201, 202, 203, 204] := by
    simp [twoPairs, newNull, allocated, allocatedElements, allocatedFields, twoPairsMemory, range_succ]
  have hcells : (twoPairs first second).keyCells = [6, 8] := by
    simp [twoPairs, newNull, keyCells, keyCellsElements, keyCellsFields, JsonPointer.cell]
  refine ⟨?_, ?_⟩
  · rw [hallocated]
    decide
  · rw [hallocated, hcells]
    decide

/-- With `"a"` and `"b"` the result is `["a", {"x": null, "y": null}, "b", {"": null}]`. -/
theorem normalize_ok_twoPairs :
    ∃ w, (twoPairs [97] [98]).normalize .insertion twoPairsMemory [] = .ok w ∧
      (∀ m, ∃ m', (twoPairs [97] [98]).equal w m = some (m', true)) ∧
      (twoPairs [97] [98]).value.Reordered w.value ∧ w.value.Sorted ∧ w.isNormalized = true ∧
      ∀ q mem, w.normalize q mem [] = .ok w := by
  have hscalar : ∀ p x, x.type ≠ JsonType.real → ∀ place, InOrder twoPairsMemory place (scalar p x : JsonVariant Unit) :=
    fun p x hreal place => .normalized (isNormalized_scalar p hreal)
  refine normalize_ok .insertion twoPairsMemory (wellMade_twoPairs _ _) (normalizable_twoPairs _ _)
    (fresh_twoPairs _ _) (remadeMarkable_twoPairs _ _) (.array ?_ ?_)
  · intro i hi
    obtain rfl | rfl | rfl | rfl : i = 0 ∨ i = 1 ∨ i = 2 ∨ i = 3 := by
      simp only [length_cons, length_nil] at hi
      omega
    · exact hscalar _ _ (by decide) _
    · refine .object fun j hj => ?_
      obtain rfl | rfl : j = 0 ∨ j = 1 := by
        simp only [length_cons, length_nil] at hj
        omega
      · exact hscalar _ _ (by decide) _
      · exact hscalar _ _ (by decide) _
    · exact hscalar _ _ (by decide) _
    · exact .normalized rfl
  · intro i j hij hj
    obtain ⟨rfl, rfl⟩ : i = 0 ∧ j = 1 := by
      simp only [length_cons, length_nil] at hj
      omega
    rfl

/-- `["b", {"y": null, "x": null}, "a", {"": null}]` is made an array that starts with `"a"`. -/
theorem normalize_twoPairs_backwards :
    (twoPairs [98] [97]).WellMade ∧ (twoPairs [98] [97]).value.Normalizable ∧
      Fresh twoPairsMemory [] (twoPairs [98] [97]) ∧ (twoPairs [98] [97]).RemadeMarkable ∧
      ¬ ∃ w, (twoPairs [98] [97]).normalize .insertion twoPairsMemory [] = .ok w ∧
        (twoPairs [98] [97]).value.Reordered w.value := by
  refine ⟨wellMade_twoPairs _ _, normalizable_twoPairs _ _, fresh_twoPairs _ _, remadeMarkable_twoPairs _ _, ?_⟩
  rintro ⟨w, hw, hreordered⟩
  have hresult : (twoPairs [98] [97]).normalize .insertion twoPairsMemory [] =
      .ok (array (.regular 100 0 0) ⟨100, 2, true, false⟩
        [scalar (.regular 101 0 0) (.string [97]),
          object (.regular 10 0 0) ⟨10, 1, true, true⟩ [((.magic, []), newNull)],
          scalar (.regular 103 0 0) (.string [98]),
          object (.regular 200 0 0) ⟨200, 1, true, true⟩
            [((.regular 201 0 0, [120]), newNull), ((.regular 203 0 0, [121]), newNull)]]) := rfl
  rw [hresult] at hw
  cases hw
  rw [twoPairs, value_array, value_array] at hreordered
  cases hreordered with
  | array hlength h =>
    have hfirst := h 0 (by simp) (by simp)
    simp only [map_cons, getElem_cons_zero, value_scalar] at hfirst
    cases hfirst

end JsonVariant

end Elogind
