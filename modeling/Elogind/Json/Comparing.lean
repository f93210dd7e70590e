/-
  Elogind.Json.Comparing

  What `sd_json_variant_equal` finds of two objects: each key of the first one is looked for among those of
  the second one that are not marked yet.
-/

import Elogind.Json.NewVariant

namespace Elogind

open List Function

namespace JsonVariant

variable {R : Type}

/-! ## Marks -/

/-- Each key of an object can be marked, without a mark for another one or for what is marked when a value is
    compared. -/
structure CellsApart (gs : List ((JsonPointer × Bytes) × JsonVariant R))
    (marks : (JsonPointer × Bytes) × JsonVariant R → Set Nat) : Prop where
  isSome : ∀ f ∈ gs, f.1.1.cell.isSome = true
  nodup : (gs.map fun f => f.1.1.cell).Nodup
  below : ∀ f ∈ gs, ∀ g ∈ gs, ∀ a ∈ f.1.1.cell, a ∉ marks g

variable {gs ds fs : List (JsonField R)} {g : JsonField R} {a : Nat} {m : JsonMarks}
  {x : JsonScalar R} {p : JsonPointer} {v w : JsonVariant R} {marks : JsonField R → Set Nat}

/-- The keys of two fields have different cells. -/
theorem CellsApart.cell_ne (h : CellsApart gs marks) {f : JsonField R} (hf : f ∈ gs) (hg : g ∈ gs)
    (hne : f ≠ g) (ha : f.1.1.cell = some a) : g.1.1.cell ≠ some a := by
  intro hb
  exact hne (inj_on_of_nodup_map h.nodup hf hg (ha.trans hb.symm))

/-- The cells of keys do not depend on the values and their order. -/
theorem CellsApart.of_keys {marks : Bytes → Set Nat} (h : CellsApart fs fun f => marks f.1.2)
    (hkeys : (gs.map Prod.fst).Perm (fs.map Prod.fst)) :
    CellsApart gs fun f => marks f.1.2 := by
  have hmem : ∀ g ∈ gs, ∃ f ∈ fs, f.1 = g.1 := fun g hg =>
    mem_map.mp (hkeys.mem_iff.mp (mem_map_of_mem hg))
  have hcells := hkeys.map fun k => k.1.cell
  rw [map_map, map_map] at hcells
  refine ⟨?_, hcells.nodup_iff.mpr h.nodup, ?_⟩
  · intro g hg
    obtain ⟨f, hf, hfg⟩ := hmem g hg
    rw [← hfg]
    exact h.isSome f hf
  · intro g hg e he
    obtain ⟨f, hf, hfg⟩ := hmem g hg
    obtain ⟨d, hd, hde⟩ := hmem e he
    rw [← hfg, ← hde]
    exact h.below f hf d hd

/-- Keys that are marked and other keys are passed over. -/
theorem findField_skip {key : Bytes} {eq : JsonVariant R → JsonMarks → Option (JsonMarks × Bool)}
    (hds : ∀ f ∈ ds, ∃ a, f.1.1.cell = some a ∧ (m a = true ∨ key ≠ f.1.2)) :
    findField false key eq (ds ++ fs) false m = findField false key eq fs false m := by
  induction ds with
  | nil => rfl
  | cons f ds ih =>
    obtain ⟨a, hcell, hskip⟩ := hds f mem_cons_self
    have hrest := ih fun g hg => hds g (mem_cons_of_mem _ hg)
    obtain ⟨⟨p, k⟩, v⟩ := f
    rw [cons_append, findField]
    obtain hmark | hkey := hskip
    · simp only [hcell, hmark, hrest, Bool.not_false, Bool.and_self, if_true, Bool.false_eq_true, if_false]
    · simp only [hcell, hkey, hrest, Bool.not_false, Bool.true_and, Bool.false_eq_true, if_false, ite_self]

/-- The marks of these keys are removed, and those of no others. -/
structure Cleared (ds : List (JsonField R)) (m m' : JsonMarks) : Prop where
  clear : ∀ f ∈ ds, ∀ a ∈ f.1.1.cell, m' a = false
  frame : ∀ a, (∀ f ∈ ds, f.1.1.cell ≠ some a) → m' a = m a

theorem Cleared.nil (m : JsonMarks) : Cleared ([] : List (JsonField R)) m m := ⟨by simp, fun _ _ => rfl⟩

theorem Cleared.cons {f : JsonField R} {m' : JsonMarks} (ha : f.1.1.cell = some a)
    (h : Cleared ds (Function.update m a false) m') : Cleared (f :: ds) m m' where
  clear := by
    intro g hg b hb
    obtain rfl | hg := mem_cons.mp hg
    · by_cases hmem : ∀ f ∈ ds, f.1.1.cell ≠ some b
      · rw [h.frame b hmem]
        obtain rfl := Option.some.inj (ha.symm.trans hb)
        exact update_self _ _ _
      · simp only [not_forall, not_not] at hmem
        obtain ⟨f, hf, hfb⟩ := hmem
        exact h.clear f hf b hfb
    · exact h.clear g hg b hb
  frame := by
    intro b hb
    rw [h.frame b fun f hf => hb f (mem_cons_of_mem _ hf), update_of_ne]
    rintro rfl
    exact hb _ mem_cons_self ha

/-- In the first round the marks of other keys are removed on the way. -/
theorem findField_clear {key : Bytes} (eq : JsonVariant R → JsonMarks → Option (JsonMarks × Bool))
    (fs : List (JsonField R)) (hcell : ∀ f ∈ ds, f.1.1.cell.isSome = true) (hds : ∀ f ∈ ds, key ≠ f.1.2)
    (m : JsonMarks) :
    ∃ m', findField true key eq (ds ++ fs) false m = findField true key eq fs false m' ∧ Cleared ds m m' := by
  induction ds generalizing m with
  | nil => exact ⟨m, rfl, .nil m⟩
  | cons f ds ih =>
    obtain ⟨a, ha⟩ := Option.isSome_iff_exists.mp (hcell f mem_cons_self)
    have hkey := hds f mem_cons_self
    obtain ⟨m', hfind, hcleared⟩ := ih (fun g hg => hcell g (mem_cons_of_mem _ hg))
      (fun g hg => hds g (mem_cons_of_mem _ hg)) (update m a false)
    refine ⟨m', ?_, hcleared.cons ha⟩
    obtain ⟨⟨p, k⟩, v⟩ := f
    rw [cons_append, findField]
    simp only [ha, hkey, if_true, Bool.not_true, Bool.false_and, Bool.false_eq_true, if_false]
    exact hfind

/-- After the first key was found, the marks of the others are removed. -/
theorem findField_rest (key : Bytes) (eq : JsonVariant R → JsonMarks → Option (JsonMarks × Bool))
    (hcell : ∀ f ∈ fs, f.1.1.cell.isSome = true) (m : JsonMarks) :
    ∃ m', findField true key eq fs true m = some (m', true) ∧ Cleared fs m m' := by
  induction fs generalizing m with
  | nil => exact ⟨m, rfl, .nil m⟩
  | cons f fs ih =>
    obtain ⟨a, ha⟩ := Option.isSome_iff_exists.mp (hcell f mem_cons_self)
    obtain ⟨m', hfind, hcleared⟩ := ih (fun g hg => hcell g (mem_cons_of_mem _ hg)) (update m a false)
    refine ⟨m', ?_, hcleared.cons ha⟩
    obtain ⟨⟨p, k⟩, v⟩ := f
    rw [findField]
    simp only [ha, if_true, Bool.not_true, Bool.false_and, Bool.false_eq_true, if_false]
    exact hfind

variable [Double R]

/-! ## Comparing values -/

theorem formalize_magic (hx : x.isMagic = true) (hreal : x.type ≠ .real) (p : JsonPointer) :
    (scalar p x).formalize = scalar .magic x := by
  unfold formalize
  simp only [hx, if_true]
  cases x with
  | real d => exact absurd rfl hreal
  | _ => rfl

theorem formalize_scalar (hx : x.isMagic = false) (p : JsonPointer) :
    (scalar p x).formalize = scalar p x := by
  unfold formalize
  simp only [hx, Bool.false_eq_true, if_false]

/-- A pointer to a value for which there is no constant is one to memory or to a string. -/
theorem ne_magic_of_fits (h : p.Fits x) (hx : x.isMagic = false) (hreal : x.type ≠ .real) :
    p ≠ .magic := by
  intro hp
  obtain hmagic | htype := h.magic hp
  · rw [hx] at hmagic
    cases hmagic
  · exact hreal htype

/-! ## Comparing fields -/

/-- Two variants are found to be equal, and only these cells are marked. -/
def IsEqual (v w : JsonVariant R) (marks : Set Nat) : Prop :=
  ∀ m : JsonMarks, ∃ m', v.equal w m = some (m', true) ∧ ∀ a, a ∉ marks → m' a = m a

theorem IsEqual.mono {s t : Set Nat} (h : v.IsEqual w s) (hle : s ⊆ t) : v.IsEqual w t := by
  intro m
  obtain ⟨m', hequal, hframe⟩ := h m
  exact ⟨m', hequal, fun a ha => hframe a fun hmem => ha (hle hmem)⟩

/-- The first key that is not marked is the one that is looked for. -/
theorem findField_found (key : Bytes) {s : Set Nat} (h : v.IsEqual w s) (hcell : p.cell = some a)
    (hmark : m a = false) (fs : List (JsonField R)) :
    ∃ m', findField false key v.equal (((p, key), w) :: fs) false m = some (m', true) ∧ m' a = true ∧
      ∀ b, b ≠ a → b ∉ s → m' b = m b := by
  obtain ⟨m', hequal, hframe⟩ := h m
  refine ⟨update m' a true, ?_, update_self _ _ _, ?_⟩
  · rw [findField]
    simp only [hcell, hmark, hequal, Bool.not_false, Bool.and_false, Bool.false_eq_true, if_false, if_true]
  · intro b hb hkey
    rw [update_of_ne hb, hframe b hkey]

/-- For each of these fields, one after the other, the first of the fields `gs` with its key that was not found
    before, which is not in `done`, has an equal value. -/
inductive Finds (gs : List (JsonField R)) (marks : JsonField R → Set Nat) :
    List (JsonField R) → List (JsonField R) → Prop where
  | nil (done : List (JsonField R)) : Finds gs marks done []
  | cons {done ds rest fs : List (JsonField R)} {f g : JsonField R} (hgs : gs = ds ++ g :: rest)
      (hds : ∀ d ∈ ds, d ∈ done ∨ f.1.2 ≠ d.1.2) (hnew : g ∉ done) (hkey : f.1.2 = g.1.2)
      (hvalue : f.2.IsEqual g.2 (marks g)) (hfs : Finds gs marks (done ++ [g]) fs) : Finds gs marks done (f :: fs)

/-- In the later rounds the keys are marked that were found. -/
theorem equalFields_later {done : List (JsonField R)} (h : Finds gs marks done fs) (hcells : CellsApart gs marks)
    (hmark : ∀ g ∈ gs, ∀ a ∈ g.1.1.cell, (m a = true ↔ g ∈ done)) :
    ∃ m', equalFields false fs gs m = some (m', true) ∧
      ∀ a, (∀ g ∈ gs, g.1.1.cell ≠ some a ∧ a ∉ marks g) → m' a = m a := by
  induction h generalizing m with
  | nil done => exact ⟨m, by rw [equalFields], fun _ _ => rfl⟩
  | @cons done ds rest fs f g hgs hds hnew hkey hvalue _ ih =>
    have hg : g ∈ gs := hgs ▸ mem_append_right ds mem_cons_self
    obtain ⟨a, ha⟩ := Option.isSome_iff_exists.mp (hcells.isSome g hg)
    have hskip : ∀ d ∈ ds, ∃ b, d.1.1.cell = some b ∧ (m b = true ∨ f.1.2 ≠ d.1.2) := by
      intro d hd
      have hmem : d ∈ gs := hgs ▸ mem_append_left _ hd
      obtain ⟨b, hb⟩ := Option.isSome_iff_exists.mp (hcells.isSome d hmem)
      exact ⟨b, hb, (hds d hd).imp_left (hmark d hmem b hb).mpr⟩
    have hfree : m a = false := Bool.eq_false_iff.mpr fun htrue => hnew ((hmark g hg a ha).mp htrue)
    obtain ⟨⟨p, k⟩, v⟩ := f
    obtain ⟨⟨q, k'⟩, w⟩ := g
    subst hkey
    obtain ⟨m₁, hfind, htrue, hframe⟩ := findField_found k hvalue ha hfree rest
    -- the other keys keep their marks
    have hmark' : ∀ e ∈ gs, ∀ b ∈ e.1.1.cell, (m₁ b = true ↔ e ∈ done ++ [((q, k), w)]) := by
      intro e he b hb
      by_cases heq : e = ((q, k), w)
      · subst heq
        obtain rfl := Option.some.inj (ha.symm.trans hb)
        simp [htrue]
      · have hne : b ≠ a := by
          rintro rfl
          exact hcells.cell_ne he hg heq hb ha
        rw [hframe b hne (hcells.below e he _ hg b hb), hmark e he b hb]
        simp [heq]
    obtain ⟨m', hfields, hframe'⟩ := ih hmark'
    refine ⟨m', ?_, fun b hb => ?_⟩
    · rw [equalFields, hgs, findField_skip hskip, hfind, ← hgs]
      exact hfields
    · obtain ⟨hother, hkeys⟩ := hb _ hg
      rw [hframe' b hb, hframe b (fun hba => hother (hba ▸ ha)) hkeys]

/-- The first round removes the marks of all keys but the one that is found. -/
theorem findField_first {key : Bytes} {s : Set Nat} {rest : List (JsonField R)}
    (hcell : ∀ f ∈ ds ++ ((p, key), w) :: rest, f.1.1.cell.isSome = true) (hds : ∀ d ∈ ds, key ≠ d.1.2)
    (h : v.IsEqual w s) (ha : p.cell = some a) (m : JsonMarks) :
    ∃ m', findField true key v.equal (ds ++ ((p, key), w) :: rest) false m = some (m', true) ∧
      (∀ f ∈ ds ++ rest, ∀ b ∈ f.1.1.cell, b ≠ a → b ∉ s → m' b = false) ∧
      ((∀ f ∈ rest, f.1.1.cell ≠ some a) → m' a = true) ∧
      ∀ b, (∀ f ∈ ds ++ rest, f.1.1.cell ≠ some b) → b ≠ a → b ∉ s → m' b = m b := by
  have hrest : ∀ f ∈ rest, f.1.1.cell.isSome = true := fun f hf =>
    hcell f (mem_append_right _ (mem_cons_of_mem _ hf))
  obtain ⟨m₁, hclear, hfalse, hframe⟩ := findField_clear v.equal (((p, key), w) :: rest)
    (fun f hf => hcell f (mem_append_left _ hf)) hds m
  obtain ⟨m₂, hvalue, hframe₂⟩ := h (update m₁ a false)
  obtain ⟨m₃, hfind, hfalse₃, hframe₃⟩ := findField_rest key v.equal hrest (update m₂ a true)
  have hother : ∀ b, (∀ f ∈ rest, f.1.1.cell ≠ some b) → b ≠ a → b ∉ s → m₃ b = m₁ b := by
    intro b hb hba hbs
    rw [hframe₃ b hb, update_of_ne hba, hframe₂ b hbs, update_of_ne hba]
  refine ⟨m₃, ?_, ?_, ?_, ?_⟩
  · rw [hclear, findField]
    simp only [ha, if_true, Bool.not_true, Bool.false_and, Bool.false_eq_true, if_false, hvalue, hfind]
  · intro f hf b hb hba hbs
    by_cases hmem : ∀ d ∈ rest, d.1.1.cell ≠ some b
    · -- a key before the one that was found
      obtain hf | hf := mem_append.mp hf
      · rw [hother b hmem hba hbs]
        exact hfalse f hf b hb
      · exact absurd hb (hmem f hf)
    · simp only [not_forall, not_not] at hmem
      obtain ⟨d, hd, hdb⟩ := hmem
      exact hfalse₃ d hd b hdb
  · intro hne
    rw [hframe₃ a hne]
    exact update_self _ _ _
  · intro b hb hba hbs
    rw [hother b (fun f hf => hb f (mem_append_right _ hf)) hba hbs]
    exact hframe b fun f hf => hb f (mem_append_left _ hf)

/-- The fields of two objects. -/
theorem equalFields_of_finds (h : Finds gs marks [] fs) (hcells : CellsApart gs marks) (m : JsonMarks) :
    ∃ m', equalFields true fs gs m = some (m', true) ∧
      ∀ a, (∀ g ∈ gs, g.1.1.cell ≠ some a ∧ a ∉ marks g) → m' a = m a := by
  cases h with
  | nil => exact ⟨m, by rw [equalFields], fun _ _ => rfl⟩
  | @cons _ ds rest fs f g hgs hds hnew hkey hvalue hfs =>
    have hg : g ∈ gs := hgs ▸ mem_append_right ds mem_cons_self
    have hmem : ∀ e ∈ ds ++ rest, e ∈ gs := by
      intro e he
      rw [hgs]
      obtain he | he := mem_append.mp he
      · exact mem_append_left _ he
      · exact mem_append_right _ (mem_cons_of_mem _ he)
    have hnotin : g ∉ ds ++ rest := by
      have hnodup := Nodup.of_map _ hcells.nodup
      rw [hgs, nodup_middle] at hnodup
      exact (nodup_cons.mp hnodup).1
    obtain ⟨a, ha⟩ := Option.isSome_iff_exists.mp (hcells.isSome g hg)
    have hne : ∀ e ∈ ds ++ rest, e.1.1.cell ≠ some a := by
      intro e he hea
      exact hcells.cell_ne (hmem e he) hg (fun heq => hnotin (heq ▸ he)) hea ha
    obtain ⟨⟨p, k⟩, v⟩ := f
    obtain ⟨⟨q, k'⟩, w⟩ := g
    subst hkey
    obtain ⟨m₁, hfind, hfalse, htrue, hframe⟩ := findField_first (hgs ▸ hcells.isSome)
      (fun d hd => (hds d hd).resolve_left not_mem_nil) hvalue ha m
    have hmark : ∀ e ∈ gs, ∀ b ∈ e.1.1.cell, (m₁ b = true ↔ e ∈ [] ++ [((q, k), w)]) := by
      intro e he b hb
      by_cases heq : e = ((q, k), w)
      · subst heq
        obtain rfl := Option.some.inj (ha.symm.trans hb)
        simp [htrue fun f hf => hne f (mem_append_right _ hf)]
      · have hother : e ∈ ds ++ rest := by
          rw [hgs] at he
          simpa [heq] using he
        have hba : b ≠ a := by
          rintro rfl
          exact hne e hother hb
        rw [hfalse e hother b hb hba (hcells.below e he _ hg b hb)]
        simp [heq]
    obtain ⟨m', hfields, hframe'⟩ := equalFields_later hfs hcells hmark
    refine ⟨m', ?_, fun b hb => ?_⟩
    · rw [equalFields, hgs, hfind, ← hgs]
      exact hfields
    · obtain ⟨hother, hkeys⟩ := hb _ hg
      rw [hframe' b hb, hframe b (fun e he => (hb e (hmem e he)).1) (fun hba => hother (hba ▸ ha)) hkeys]

/-- The fields are found if they are in the same order. -/
theorem finds_of_forall₂ (hnodup : (ds ++ gs).Nodup)
    (h : List.Forall₂ (fun f g => f.1.2 = g.1.2 ∧ f.2.IsEqual g.2 (marks g)) fs gs) : Finds (ds ++ gs) marks ds fs := by
  induction h generalizing ds with
  | nil => exact .nil ds
  | @cons f g fs gs hfg _ ih =>
    have hlist : ds ++ g :: gs = ds ++ [g] ++ gs := append_cons ds g gs
    refine .cons rfl (fun d hd => .inl hd) ?_ hfg.1 hfg.2 ?_
    · rw [nodup_middle, nodup_cons] at hnodup
      exact fun hmem => hnodup.1 (mem_append_left _ hmem)
    · rw [hlist] at hnodup ⊢
      exact ih hnodup

/-- The fields are found if each key is there once. -/
theorem finds_of_keys {done : List (JsonField R)} (hkeys : (gs.map fun g => g.1.2).Nodup)
    (hnodup : (fs.map fun f => f.1.2).Nodup) (hdone : ∀ g ∈ done, ∀ f ∈ fs, f.1.2 ≠ g.1.2)
    (h : ∀ f ∈ fs, ∃ g ∈ gs, f.1.2 = g.1.2 ∧ f.2.IsEqual g.2 (marks g)) : Finds gs marks done fs := by
  induction fs generalizing done with
  | nil => exact .nil done
  | cons f fs ih =>
    obtain ⟨g, hg, hkey, hvalue⟩ := h f mem_cons_self
    obtain ⟨ds, rest, hgs, hnotin⟩ := eq_append_cons_of_mem hg
    rw [map_cons, nodup_cons] at hnodup
    refine .cons hgs (fun d hd => .inr ?_) (fun hmem => hdone g hmem f mem_cons_self hkey) hkey hvalue
      (ih hnodup.2 ?_ fun d hd => h d (mem_cons_of_mem f hd))
    · intro heq
      have hd' : d ∈ gs := hgs ▸ mem_append_left _ hd
      obtain rfl := inj_on_of_nodup_map hkeys hg hd' (hkey.symm.trans heq)
      exact hnotin hd
    · intro e he d hd heq
      obtain he | he := mem_append.mp he
      · exact hdone e he d (mem_cons_of_mem f hd) heq
      · rw [mem_singleton.mp he, ← hkey] at heq
        exact hnodup.1 (heq ▸ mem_map_of_mem hd)

/-! ## Equal containers -/

/-- Equal elements make equal arrays. -/
theorem isEqual_array {q : JsonPointer} {c d : JsonContainer} {es ds : List (JsonVariant R)} {s : Set Nat}
    (h : List.Forall₂ (fun e d => e.IsEqual d s) es ds) : (array p c es).IsEqual (array q d ds) s := by
  have helements : ∀ m, ∃ m', equalElements es ds m = some (m', true) ∧ ∀ a, a ∉ s → m' a = m a := by
    induction h with
    | nil => exact fun m => ⟨m, by rw [equalElements]; simp, fun _ _ => rfl⟩
    | @cons e d es ds hed _ ih =>
      intro m
      obtain ⟨m₁, hequal, hframe⟩ := hed m
      obtain ⟨m₂, hrest, hframe'⟩ := ih m₁
      refine ⟨m₂, ?_, fun a ha => by rw [hframe' a ha, hframe a ha]⟩
      rw [equalElements, hequal]
      exact hrest
  intro m
  rw [equal]
  split
  · exact ⟨m, rfl, fun _ _ => rfl⟩
  · simp only [h.length_eq, ne_eq, not_true_eq_false, if_false]
    exact helements m

/-- Objects are equal if the fields of the one are found in the other. -/
theorem isEqual_object {q : JsonPointer} {c d : JsonContainer} {s : Set Nat} (hlength : fs.length = gs.length)
    (h : Finds gs marks [] fs) (hcells : CellsApart gs marks)
    (hs : ∀ g ∈ gs, (∀ a ∈ g.1.1.cell, a ∈ s) ∧ marks g ⊆ s) : (object p c fs).IsEqual (object q d gs) s := by
  intro m
  rw [equal]
  split
  · exact ⟨m, rfl, fun _ _ => rfl⟩
  · obtain ⟨m', hfields, hframe⟩ := equalFields_of_finds h hcells m
    refine ⟨m', ?_, fun a ha => hframe a fun g hg => ⟨fun hcell => ha ((hs g hg).1 a hcell), fun hmem =>
      ha ((hs g hg).2 hmem)⟩⟩
    simp only [hlength, ne_eq, not_true_eq_false, if_false]
    exact hfields

end JsonVariant

end Elogind
