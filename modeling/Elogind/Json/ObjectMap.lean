/-
  Elogind.Json.ObjectMap

  Objects are finite maps: what looking up, setting, removing and merging fields do to the map that an object is,
  whether its fields are in order or not, and whether it is there itself or a surrogate for it.
-/

import Elogind.Json.Normalized
import Elogind.Json.Object
import Elogind.Json.ParseSteps
import Elogind.Lib.FinMap

namespace Elogind

open Lib Errno List

namespace JsonVariant

variable {R : Type}

/-- The same key. -/
def sameKey (a b : Bytes) : Bool := a = b

/-- The names of fields and their values. -/
def entries (fs : List ((JsonPointer × Bytes) × JsonVariant R)) : List (Bytes × Json R) :=
  fs.map fun f => (f.1.2, f.2.value)

/-- The finite map that an object is. -/
def toMap (v : JsonVariant R) : FinMap Bytes (Json R) := .ofList sameKey (entries v.fields)

/-- An object in which each key is there once, and whose fields are in order if that is said of it. -/
structure IsMap (headers : Nat → JsonHeader) (v : JsonVariant R) : Prop where
  container : isObject (some v) = true
  keys : (v.fields.map fun f => f.1.2).Nodup
  sorted : v.sortedFlag headers = true → (v.fields.map fun f => f.1.2).Pairwise (· < ·)
  depth : ∀ f ∈ v.fields, f.2.variantDepth < depthMax

/-! ## Looking up -/

section

variable {headers : Nat → JsonHeader} {v w m : JsonVariant R}

theorem sortedFlag_object (p : JsonPointer) (c : JsonContainer) (fs : List (JsonField R)) :
    (object p c fs).sortedFlag headers =
      if (object p c fs).isReference then (headers c.address).sorted else c.sorted := rfl

/-- Fields in the order of their names direct a bisection. -/
theorem directs_strcmp {fs : List (JsonField R)}
    (h : (fs.map fun f => f.1.2).Pairwise (· < ·)) (key : Bytes) : Directs (fun f => strcmp key f.1.2) fs := by
  refine (pairwise_map.mp h).imp fun {f g} hlt hne => ?_
  have hle : key ≤ f.1.2 := strcmp_ne_gt.mp hne
  have hkey : key < g.1.2 := List.lt_of_le_of_lt hle hlt
  exact if_pos hkey

/-- Bisection and the linear scan find the same. -/
theorem findKey_eq {sorted : Bool} {fs : List (JsonField R)}
    (h : sorted = true → (fs.map fun f => f.1.2).Pairwise (· < ·)) (key : Bytes) :
    findKey sorted fs key = fs.find? fun f => f.1.2 = key := by
  unfold findKey
  cases sorted with
  | false => rfl
  | true =>
    rw [if_pos rfl, (directs_strcmp (h rfl) key).bisect_eq_find?]
    congr 1
    funext f
    rw [decide_eq_decide]
    exact strcmp_eq_iff

/-- The field of this name. -/
def field (v : JsonVariant R) (key : Bytes) : Option ((JsonPointer × Bytes) × JsonVariant R) :=
  v.fields.find? fun f => f.1.2 = key

theorem entry_of_field (v : JsonVariant R) (key : Bytes) :
    v.toMap key = (v.field key).map fun f => (f.1.2, f.2.value) := by
  unfold toMap FinMap.ofList entries field
  rw [find?_map]
  rfl

/-- What a lookup returns and what it leaves in `ret_key`. -/
theorem byKeyFull_eq (h : v.IsMap headers) (key : Bytes) (retKey : Option (JsonPointer × Bytes)) :
    v.byKeyFull headers key retKey =
      ((v.field key).map Prod.snd, if v.isReference then retKey else (v.field key).map Prod.fst) := by
  cases v with
  | scalar p x | array p c es => exact absurd h.container Bool.false_ne_true
  | object p c fs =>
    unfold byKeyFull
    by_cases href : (object p c fs).isReference = true
    · have hsorted : (headers c.address).sorted = true → (fs.map fun f => f.1.2).Pairwise (· < ·) := by
        intro hflag
        refine h.sorted ?_
        rw [sortedFlag_object, if_pos href, hflag]
      simp only [if_pos href, findKey_eq hsorted]
      rfl
    · have hsorted : c.sorted = true → (fs.map fun f => f.1.2).Pairwise (· < ·) := by
        intro hflag
        refine h.sorted ?_
        rw [sortedFlag_object, if_neg href, hflag]
      simp only [if_neg href, findKey_eq hsorted]
      rfl

theorem variantByKey_eq (h : v.IsMap headers) (key : Bytes) :
    v.variantByKey headers key = (v.field key).map Prod.snd := by
  unfold variantByKey
  rw [byKeyFull_eq h]

/-- A lookup of a value is one in the map. -/
theorem value_variantByKey (h : v.IsMap headers) (key : Bytes) :
    (v.variantByKey headers key).map value = (v.toMap key).map Prod.snd := by
  rw [variantByKey_eq h, entry_of_field, Option.map_map, Option.map_map]
  rfl

end

/-! ## New objects -/

theorem keys_of_entries {fs fs' : List (JsonField R)} (h : entries fs' = entries fs) :
    (fs'.map fun f => f.1.2) = fs.map fun f => f.1.2 := by
  have hkeys := congrArg (map Prod.fst) h
  unfold entries at hkeys
  rw [map_map, map_map] at hkeys
  exact hkeys

section

variable [Double R] {headers : Nat → JsonHeader} {v w m : JsonVariant R}

theorem variantDepth_put (address : Nat) (v : JsonVariant R) : (v.put address).variantDepth = v.variantDepth := by
  cases v with
  | scalar p x => rfl
  | array p c es => exact (putContainer_kept address p c es.isEmpty).2.1
  | object p c fs => exact (putContainer_kept address p c fs.isEmpty).2.1

theorem depth_of_putFields {fs fs' : List (JsonField R)} {address depth d : Nat}
    (h : putFields address depth (flatten fs) = .ok (d, fs')) : ∀ f ∈ fs, f.2.variantDepth < depthMax := by
  induction fs generalizing address depth d fs' with
  | nil => exact fun f hf => absurd hf not_mem_nil
  | cons f fs ih =>
    replace h : putFields address depth (scalar f.1.1 (.string f.1.2) :: f.2 :: flatten fs) = .ok (d, fs') := h
    rw [putFields] at h
    by_cases hdeep : f.2.variantDepth ≥ depthMax
    · rw [if_pos hdeep] at h
      cases h
    · rw [if_neg hdeep] at h
      cases hput : putFields (address + 2) (max (max depth 1) (f.2.variantDepth + 1)) (flatten fs) with
      | error er =>
        rw [hput] at h
        cases h
      | ok x =>
        intro g hg
        rcases mem_cons.mp hg with rfl | hg
        · exact Nat.not_le.mp hdeep
        · exact ih hput g hg

/-- Fields keep their names and values where they are put. -/
theorem entries_of_putFields {fs fs' : List (JsonField R)} {address depth d : Nat}
    (h : putFields address depth (flatten fs) = .ok (d, fs')) :
    entries fs' = entries fs ∧ (∀ f' ∈ fs', ∃ f ∈ fs, f'.2.variantDepth = f.2.variantDepth) := by
  obtain ⟨hlength, hget⟩ := getElem_of_putFields h
  constructor
  · refine ext_getElem (by simp only [entries, length_map, hlength]) fun i hi hi' => ?_
    simp only [entries, length_map] at hi hi'
    simp only [entries, getElem_map, hget i hi' hi, value_put]
  · intro f' hf'
    obtain ⟨i, hi, rfl⟩ := getElem_of_mem hf'
    have hi' : i < fs.length := hlength ▸ hi
    refine ⟨fs[i], getElem_mem hi', ?_⟩
    rw [hget i hi' hi]
    exact variantDepth_put _ _

/-- A new object of these fields is the map that they are. -/
theorem isMap_newObject {fs : List (JsonField R)} {address : Nat}
    (hkeys : (fs.map fun f => f.1.2).Nodup) (hnew : newObject address (flatten fs) = .ok w) :
    w.IsMap headers ∧ entries w.fields = entries fs ∧ w.isReference = false := by
  unfold newObject at hnew
  by_cases hempty : (flatten fs).isEmpty = true
  · have hlength := length_flatten fs
    rw [isEmpty_iff.mp hempty, length_nil] at hlength
    obtain rfl : fs = [] := length_eq_zero_iff.mp (by omega)
    cases hnew
    exact ⟨⟨rfl, nodup_nil, fun _ => Pairwise.nil, fun f hf => absurd hf not_mem_nil⟩, rfl, rfl⟩
  · have heven : ¬ (flatten fs).length % 2 ≠ 0 := by
      rw [length_flatten]
      omega
    rw [if_neg hempty, if_neg heven] at hnew
    cases hput : putFields (address + 1) 0 (flatten fs) with
    | error er =>
      rw [hput] at hnew
      cases hnew
    | ok x =>
      obtain ⟨d, fs'⟩ := x
      rw [hput] at hnew
      cases hnew
      obtain ⟨hentries, hdepths⟩ := entries_of_putFields hput
      have hnames := keys_of_entries hentries
      have hhere : ∀ c : JsonContainer, c.address = address →
          (object (.regular address 0 0) c fs' : JsonVariant R).isReference = false := by
        intro c hc
        unfold isReference
        simp only [JsonPointer.cell, hc, ne_eq, not_true_eq_false, decide_false]
      refine ⟨⟨rfl, ?_, ?_, ?_⟩, hentries, hhere _ rfl⟩
      · show (fs'.map fun f => f.1.2).Nodup
        rw [hnames]
        exact hkeys
      · intro hflag
        rw [sortedFlag_object, hhere _ rfl] at hflag
        exact strictlySorted_iff.mp hflag
      · intro f' hf'
        obtain ⟨f, hf, heq⟩ := hdepths f' hf'
        rw [heq]
        exact depth_of_putFields hput f hf

/-! ## Setting a field -/

end

end JsonVariant

end Elogind
