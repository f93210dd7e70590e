/-
  Elogind.Json.SortPairs

  Sorting pairs of a key and a value: with keys that are strings it is a sort by the keys, and what is in
  the order of the first elements already stays as it is.
-/

import Elogind.Json.NewVariant
import Elogind.Json.Normalize
import Mathlib.Data.Set.List

namespace Elogind

open Lib List

namespace JsonVariant

/-! ## Comparing keys -/

variable {R : Type}

/-- `sd_json_variant_string` -/
def string : JsonVariant R → Option Bytes
  | scalar _ (.string s) => some s
  | _ => none

theorem jsonCmpStrings_string (mem : JsonMemory) {v w : JsonVariant R} {s t : Bytes} (hv : v.string = some s)
    (hw : w.string = some t) : jsonCmpStrings mem v w = strcmp s t := by
  unfold string at hv hw
  split at hv <;> cases hv
  split at hw <;> cases hw
  rfl

theorem jsonCmpStrings_address (mem : JsonMemory) {v w : JsonVariant R} (h : v.string = none ∨ w.string = none) :
    jsonCmpStrings mem v w = compare (v.address mem) (w.address mem) := by
  unfold jsonCmpStrings
  split
  · obtain h | h := h <;> cases h
  · rfl

theorem jsonCmpStrings_swap (mem : JsonMemory) (v w : JsonVariant R) :
    jsonCmpStrings mem w v = (jsonCmpStrings mem v w).swap := by
  cases hv : v.string with
  | none =>
    rw [jsonCmpStrings_address mem (.inr hv), jsonCmpStrings_address mem (.inl hv)]
    exact Std.OrientedCmp.eq_swap
  | some s =>
    cases hw : w.string with
    | none =>
      rw [jsonCmpStrings_address mem (.inl hw), jsonCmpStrings_address mem (.inr hw)]
      exact Std.OrientedCmp.eq_swap
    | some t =>
      rw [jsonCmpStrings_string mem hw hv, jsonCmpStrings_string mem hv hw]
      exact strcmp_swap s t

theorem strictlySorted_iff {ks : List Bytes} : strictlySorted ks = true ↔ ks.Pairwise (· < ·) := by
  rw [← isChain_iff_pairwise]
  induction ks with
  | nil => simp [strictlySorted]
  | cons k ks ih =>
    cases ks with
    | nil => simp [strictlySorted]
    | cons k' ks => rw [strictlySorted, Bool.and_eq_true, ih, isChain_cons_cons, decide_eq_true_iff]

/-! ## Pairs -/

theorem pairs_append (a : List (JsonVariant R)) : (pairs a).1.flatMap (fun p => [p.1, p.2]) ++ (pairs a).2 = a := by
  induction a using pairs.induct with
  | case1 x y es ih =>
    rw [pairs, flatMap_cons, append_assoc, ih]
    rfl
  | case2 es h =>
    rw [pairs]
    · rfl
    · exact h

/-- The pairs are made of elements that are next to each other. -/
theorem getElem_pairs {a : List (JsonVariant R)} {i : Nat} (hi : i < (pairs a).1.length) :
    ∃ hj : 2 * i + 1 < a.length, (pairs a).1[i] = (a[2 * i], a[2 * i + 1]) := by
  induction a using pairs.induct generalizing i with
  | case1 x y es ih =>
    simp only [pairs, length_cons] at hi ⊢
    cases i with
    | zero => exact ⟨by omega, rfl⟩
    | succ i =>
      obtain ⟨hj, heq⟩ := ih (i := i) (by omega)
      refine ⟨by omega, ?_⟩
      rw [getElem_cons_succ, heq]
      rfl
  | case2 es h =>
    rw [pairs] at hi
    · exact absurd hi (Nat.not_lt_zero i)
    · exact h

theorem pairs_flatten (fs : List (JsonField R)) :
    pairs (flatten fs) = (fs.map fun f => (scalar f.1.1 (.string f.1.2), f.2), []) := by
  induction fs with
  | nil => rfl
  | cons f fs ih =>
    show pairs (scalar f.1.1 (.string f.1.2) :: f.2 :: flatten fs) = _
    rw [pairs, ih]
    rfl

/-- What is in the order of its first elements stays as it is. -/
theorem sortPairs_eq_self (q : Sorter) (mem : JsonMemory) {a : List (JsonVariant R)}
    (h : ∀ i j (_ : 2 * i < a.length) (_ : 2 * j < a.length), i < j → 2 * j + 1 < a.length →
      jsonCmpStrings mem a[2 * i] a[2 * j] = .lt) :
    sortPairs q mem a = a := by
  unfold sortPairs
  rw [q.sort_eq_self (fun x _ y _ => jsonCmpStrings_swap mem x.1 y.1), pairs_append]
  rw [pairwise_iff_getElem]
  intro i j hi hj hij
  obtain ⟨hi', heq⟩ := getElem_pairs hi
  obtain ⟨hj', heq'⟩ := getElem_pairs hj
  rw [heq, heq']
  exact h i j (by omega) (by omega) hij hj'

/-- Fields with different keys are put in the order of the keys. -/
theorem sortPairs_flatten (q : Sorter) (mem : JsonMemory) {fs : List (JsonField R)}
    (hkeys : (fs.map fun f => f.1.2).Nodup) :
    ∃ gs, sortPairs q mem (flatten fs) = flatten gs ∧ gs.Perm fs ∧ (gs.map fun f => f.1.2).Pairwise (· < ·) := by
  let pair : JsonField R → JsonVariant R × JsonVariant R :=
    fun f => (scalar f.1.1 (.string f.1.2), f.2)
  have hpair : pair.Injective := by
    rintro ⟨⟨p, k⟩, v⟩ ⟨⟨p', k'⟩, v'⟩ heq
    cases heq
    rfl
  let cmp : JsonVariant R × JsonVariant R → JsonVariant R × JsonVariant R → Ordering :=
    fun x y => jsonCmpStrings mem x.1 y.1
  have hcmp : ∀ f g, cmp (pair f) (pair g) = strcmp f.1.2 g.1.2 := fun _ _ => rfl
  have hconsistent : Consistent cmp (fs.map pair) := by
    refine ⟨fun x _ y _ => jsonCmpStrings_swap mem x.1 y.1, ?_⟩
    intro x hx y hy z hz hxy hyz
    obtain ⟨f, -, rfl⟩ := mem_map.mp hx
    obtain ⟨g, -, rfl⟩ := mem_map.mp hy
    obtain ⟨d, -, rfl⟩ := mem_map.mp hz
    rw [hcmp, strcmp_ne_gt] at *
    exact List.le_trans hxy hyz
  have hperm := q.perm cmp (fs.map pair)
  have hrange : q.sort cmp (fs.map pair) ∈ Set.range (map pair) := by
    rw [Set.range_list_map]
    intro x hx
    obtain ⟨f, -, rfl⟩ := mem_map.mp (hperm.mem_iff.mp hx)
    exact ⟨f, rfl⟩
  obtain ⟨gs, hgs⟩ := hrange
  have hordered := q.ordered hconsistent
  rw [← hgs] at hperm hordered
  have hgsfs : gs.Perm fs := (map_perm_map_iff hpair).mp hperm
  refine ⟨gs, ?_, hgsfs, ?_⟩
  · unfold sortPairs
    rw [pairs_flatten]
    show (q.sort cmp (fs.map pair)).flatMap _ ++ [] = _
    rw [← hgs, append_nil, flatMap_map]
    rfl
  · have hnodup : (gs.map fun f => f.1.2).Nodup := (hgsfs.map _).nodup_iff.mpr hkeys
    rw [pairwise_map] at hordered ⊢
    have hne := pairwise_map.mp hnodup
    refine (hordered.and hne).imp ?_
    intro f g hfg
    obtain ⟨hle, hne⟩ := hfg
    rw [hcmp, strcmp_ne_gt] at hle
    exact (List.le_iff_lt_or_eq.mp hle).resolve_right hne

end JsonVariant

end Elogind
