/-
  Elogind.Lib.FinMap

  Finite maps whose keys are compared by an equivalence.  A map gives for every key the
  entry of that key, which holds the key that the entry was made with.  `ofList` is the
  map of a list of entries with distinct keys.
-/

import Mathlib.Data.Set.Card

namespace Elogind.Lib

open List

variable {K V : Type}

/-- The entry of every key. -/
abbrev FinMap (K V : Type) : Type := K → Option (K × V)

/-- An equivalence on keys. -/
structure KeyEquiv (eq : K → K → Bool) : Prop where
  refl : ∀ a, eq a a = true
  symm : ∀ a b, eq a b = true → eq b a = true
  trans : ∀ a b c, eq a b = true → eq b c = true → eq a c = true

namespace KeyEquiv

variable {eq : K → K → Bool} {a b : K}

/-- Keys that are equal are equal to the same keys. -/
theorem congr_left (h : KeyEquiv eq) (hab : eq a b = true) (c : K) : eq a c = eq b c := by
  rw [Bool.eq_iff_iff]
  exact ⟨h.trans _ _ _ (h.symm _ _ hab), h.trans _ _ _ hab⟩

theorem congr_right (h : KeyEquiv eq) (hab : eq a b = true) (c : K) : eq c a = eq c b := by
  rw [Bool.eq_iff_iff]
  exact ⟨fun hc => h.trans _ _ _ hc hab, fun hc => h.trans _ _ _ hc (h.symm _ _ hab)⟩

end KeyEquiv

/-- No two entries have equal keys. -/
def Distinct (eq : K → K → Bool) (l : List (K × V)) : Prop := l.Pairwise fun a b => eq a.1 b.1 = false

namespace FinMap

variable (eq : K → K → Bool)

def empty : FinMap K V := fun _ => none

/-- The key has this entry now. -/
def insert (m : FinMap K V) (k : K) (v : V) : FinMap K V :=
  fun x => if eq k x then some (k, v) else m x

/-- The entry of the key has this value now. -/
def modify (m : FinMap K V) (k : K) (v : V) : FinMap K V :=
  fun x => if eq k x then (m x).map fun e => (e.1, v) else m x

/-- The key has no entry now. -/
def erase (m : FinMap K V) (k : K) : FinMap K V := fun x => if eq k x then none else m x

/-- The entries of both maps, where those of the first count. -/
def union (m m' : FinMap K V) : FinMap K V := fun x => (m x).or (m' x)

/-- The number of entries. -/
noncomputable def size (m : FinMap K V) : Nat := Set.ncard {e | ∃ x, m x = some e}

/-- The map of a list of entries. -/
def ofList (l : List (K × V)) : FinMap K V := fun x => l.find? fun e => eq e.1 x

variable {eq} {l l' : List (K × V)} {k : K} {v : V} {e : K × V}

theorem ofList_eq_none {x : K} : ofList eq l x = none ↔ ∀ e ∈ l, eq e.1 x = false := by
  unfold ofList
  simp

theorem mem_of_ofList_eq_some {x : K} (h : ofList eq l x = some e) : e ∈ l ∧ eq e.1 x = true := by
  exact ⟨mem_of_find?_eq_some h, find?_some (p := fun e : K × V => eq e.1 x) h⟩

/-- Of things with distinct keys, those with equal keys are the same. -/
theorem eq_of_pairwise {ι : Type} {f : ι → K} {s : List ι} (heq : KeyEquiv eq)
    (hs : s.Pairwise fun a b => eq (f a) (f b) = false) {a b : ι} (ha : a ∈ s) (hb : b ∈ s)
    (hab : eq (f a) (f b) = true) : a = b := by
  by_contra hne
  have hsymm : Std.Symm fun x y : ι => eq (f x) (f y) = false := by
    refine ⟨fun x y hxy => ?_⟩
    by_contra hyx
    rw [heq.symm _ _ (by simpa using hyx)] at hxy
    cases hxy
  have hfalse := Pairwise.forall hs ha hb hne
  rw [hab] at hfalse
  cases hfalse

theorem ofList_eq_some (heq : KeyEquiv eq) (hl : Distinct eq l) {x : K} :
    ofList eq l x = some e ↔ e ∈ l ∧ eq e.1 x = true := by
  constructor
  · exact mem_of_ofList_eq_some
  · rintro ⟨he, hx⟩
    cases hfind : ofList eq l x with
    | none =>
      rw [(ofList_eq_none).mp hfind e he] at hx
      cases hx
    | some e' =>
      obtain ⟨he', hx'⟩ := mem_of_ofList_eq_some hfind
      rw [eq_of_pairwise (f := Prod.fst) heq hl he' he (heq.trans _ _ _ hx' (heq.symm _ _ hx))]

/-- A map does not tell equal keys apart. -/
theorem ofList_congr (heq : KeyEquiv eq) {a b : K} (hab : eq a b = true) :
    ofList eq l a = ofList eq l b := by
  unfold ofList
  congr 1
  funext e
  exact heq.congr_right hab e.1

theorem ofList_append : ofList eq (l ++ l') = union (ofList eq l) (ofList eq l') := by
  funext x
  exact find?_append

theorem ofList_concat (heq : KeyEquiv eq) (hnone : ofList eq l k = none) (v : V) :
    ofList eq (l ++ [(k, v)]) = insert eq (ofList eq l) k v := by
  rw [ofList_append]
  funext x
  unfold union insert
  cases hx : eq k x with
  | true =>
    rw [← ofList_congr heq hx, hnone]
    simp [ofList, hx]
  | false => simp [ofList, hx]

/-- The entry of a key is overwritten. -/
theorem ofList_replace (heq : KeyEquiv eq) (hsome : ofList eq l k ≠ none) (v : V) :
    ofList eq (l.map fun e => if eq e.1 k then (k, v) else e) = insert eq (ofList eq l) k v := by
  funext x
  unfold insert
  cases hx : eq k x with
  | true =>
    obtain ⟨e, he⟩ := Option.ne_none_iff_exists'.mp hsome
    have hkey := (mem_of_ofList_eq_some he).2
    have hpred : ((fun e : K × V => eq e.1 x) ∘ fun e => if eq e.1 k then (k, v) else e) =
        fun e => eq e.1 k := by
      funext e
      rw [Function.comp_apply, ← heq.congr_right hx]
      split
      · next h => rw [heq.refl, h]
      · rfl
    show (l.map _).find? _ = _
    rw [find?_map, hpred]
    unfold ofList at he
    rw [he, Option.map_some, if_pos hkey]
    rfl
  | false =>
    have hpred : ((fun e : K × V => eq e.1 x) ∘ fun e => if eq e.1 k then (k, v) else e) =
        fun e => eq e.1 x := by
      funext e
      rw [Function.comp_apply]
      split
      · next h => rw [heq.congr_left h, hx]
      · rfl
    show (l.map _).find? _ = l.find? _
    rw [find?_map, hpred]
    cases hfind : l.find? fun e => eq e.1 x with
    | none => rfl
    | some e =>
      rw [Option.map_some, if_neg]
      intro hk
      have hex := find?_some hfind
      rw [heq.congr_left hk, hx] at hex
      cases hex

/-- The value of a key is overwritten. -/
theorem ofList_modify (heq : KeyEquiv eq) (v : V) :
    ofList eq (l.map fun e => if eq e.1 k then (e.1, v) else e) = modify eq (ofList eq l) k v := by
  funext x
  have hpred : ((fun e : K × V => eq e.1 x) ∘ fun e => if eq e.1 k then (e.1, v) else e) =
      fun e => eq e.1 x := by
    funext e
    rw [Function.comp_apply]
    split <;> rfl
  show (l.map _).find? _ = _
  rw [find?_map, hpred]
  show (ofList eq l x).map _ = _
  unfold modify
  cases hfind : ofList eq l x with
  | none => split <;> rfl
  | some e =>
    have hex := (mem_of_ofList_eq_some hfind).2
    rw [Option.map_some, heq.congr_left hex]
    cases hk : eq k x with
    | true => rw [heq.symm _ _ hk]; rfl
    | false =>
      have hxk : eq x k = false := by
        by_contra h
        rw [heq.symm _ _ (by simpa using h)] at hk
        cases hk
      rw [hxk]
      rfl

theorem ofList_filter (heq : KeyEquiv eq) (k : K) :
    ofList eq (l.filter fun e => !eq e.1 k) = erase eq (ofList eq l) k := by
  funext x
  unfold ofList erase
  rw [find?_filter]
  cases hx : eq k x with
  | true =>
    rw [if_pos rfl, find?_eq_none]
    intro e _
    rw [← heq.congr_right hx]
    simp
  | false =>
    congr 1
    funext e
    cases hex : eq e.1 x with
    | false => simp
    | true =>
      have hxk : eq x k = false := by
        by_contra h
        rw [heq.symm _ _ (by simpa using h)] at hx
        cases hx
      rw [heq.congr_left hex, hxk]
      rfl

theorem ofList_perm (heq : KeyEquiv eq) (hl' : Distinct eq l') (hperm : l.Perm l') :
    ofList eq l = ofList eq l' := by
  funext x
  cases hfind : ofList eq l x with
  | none =>
    rw [ofList_eq_none] at hfind
    rw [eq_comm, ofList_eq_none]
    exact fun e he => hfind e (hperm.mem_iff.mpr he)
  | some e =>
    obtain ⟨he, hx⟩ := mem_of_ofList_eq_some hfind
    rw [eq_comm, ofList_eq_some heq hl']
    exact ⟨hperm.mem_iff.mp he, hx⟩

/-- Entries whose keys stay equal stay distinct. -/
theorem distinct_map (heq : KeyEquiv eq) (hl : Distinct eq l) {f : K × V → K × V}
    (hf : ∀ e, eq (f e).1 e.1 = true) : Distinct eq (l.map f) := by
  unfold Distinct
  rw [pairwise_map]
  refine hl.imp fun {a b} hab => ?_
  rw [heq.congr_left (hf a), heq.congr_right (hf b)]
  exact hab

theorem nodup_of_distinct (heq : KeyEquiv eq) (hl : Distinct eq l) : l.Nodup := by
  refine hl.imp fun {a b} hab => ?_
  rintro rfl
  rw [heq.refl] at hab
  cases hab

theorem size_ofList (heq : KeyEquiv eq) (hl : Distinct eq l) : size (ofList eq l) = l.length := by
  classical
  have hset : {e | ∃ x, ofList eq l x = some e} = (l.toFinset : Set (K × V)) := by
    ext e
    rw [Set.mem_ofPred_eq, coe_toFinset, Set.mem_ofPred_eq]
    constructor
    · rintro ⟨x, hx⟩
      exact (mem_of_ofList_eq_some hx).1
    · exact fun he => ⟨e.1, (ofList_eq_some heq hl).mpr ⟨he, heq.refl _⟩⟩
  unfold size
  rw [hset, Set.ncard_coe_finset, toFinset_card_of_nodup (nodup_of_distinct heq hl)]

end FinMap

end Elogind.Lib
