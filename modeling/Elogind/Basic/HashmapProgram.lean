/-
  Elogind.Basic.HashmapProgram

  Programs that use hashmaps and sets: every call returns what the same call on finite maps
  returns, in every run in which no hashmap gets more entries than buckets can be allocated
  for.
-/

import Elogind.Basic.HashmapRefine

namespace Elogind

open Lib HashmapBase List FinMap

variable {P HK : Type} {ops : HashOps P HK}

/-! ## Programs -/

/-- The finite maps of a program, by their addresses. -/
abbrev FinMaps (P : Type) : Type := Nat → Option (FinMap P P)

namespace FinMaps

variable [Inhabited P] [DecidableEq P]

/-- What one call does to the finite maps of a program, and returns. -/
def Step (eq : P → P → Bool) (fs : FinMaps P) : MapsOp P HK → FinMaps P → Ret P → Prop
  | .new a _ allocated, fs', ret =>
    (allocated = true ∧ fs' = Function.update fs a (some .empty) ∧ ret = .bool true) ∨
      (allocated = false ∧ fs' = fs ∧ ret = .bool false)
  | .on a op, fs', ret =>
    match fs a with
    | some f => ∃ f', op.Spec eq f f' ret ∧ fs' = Function.update fs a (some f')
    | none => op.Spec eq .empty .empty ret ∧ fs' = fs
  | .merge a b env, fs', ret =>
    ∃ f, fs a = some f ∧
      -- all entries whose key is not there are put, or there was no memory for one of them
      ((fs' = Function.update fs a (some (f.union ((fs b).getD .empty))) ∧ ret = .code 0) ∨
        (∃ g : FinMap P P, (∀ x e, g x = some e → (fs b).getD .empty x = some e) ∧
          fs' = Function.update fs a (some (f.union g)) ∧ ret = .code Errno.ENOMEM.neg ∧
          ∃ k, (env k).allocated = false))
  | .copy a b allocated env, fs', ret =>
    (fs' = Function.update fs b (fs a) ∧ ret = .bool true) ∨
      (fs' = fs ∧ ret = .bool false ∧ (allocated = false ∨ ∃ k, (env k).allocated = false))

/-- What a sequence of calls does to the finite maps of a program, and returns. -/
inductive Run (eq : P → P → Bool) : FinMaps P → List (MapsOp P HK) → FinMaps P → List (Ret P) → Prop where
  | nil (fs : FinMaps P) : Run eq fs [] fs []
  | cons {fs fs' fs'' : FinMaps P} {op : MapsOp P HK} {calls : List (MapsOp P HK)} {ret : Ret P}
      {rets : List (Ret P)} (hstep : Step eq fs op fs' ret) (hrun : Run eq fs' calls fs'' rets) :
      Run eq fs (op :: calls) fs'' (ret :: rets)

end FinMaps

namespace Maps

variable [Inhabited P] [DecidableEq P] {maps : Maps P HK} {fs : FinMaps P}

/-- The hashmaps of a program represent finite maps. -/
structure Refines (ops : HashOps P HK) (maps : Maps P HK) (fs : FinMaps P) : Prop where
  null : ∀ a, maps a = none ↔ fs a = none
  map : ∀ a h f, maps a = some h → fs a = some f → Represents ops h f

/-- The entries of the other hashmap whose keys the first one does not have. -/
def nMissing (t o : HashmapBase P HK) : Nat :=
  ((Finset.range o.nBuckets).filter fun i =>
    o.dib i ≠ dibRawFree ∧ t.lookup (o.bucket i).key = some idxNil).card

/-- The entries that there will be can be allocated. -/
def Fits (maps : Maps P HK) : MapsOp P HK → Prop
  | .new .. => True
  | .on a op => ∀ h, maps a = some h → op.Fits h
  | .merge a b _ => ∀ t o, maps a = some t → maps b = some o →
      HashmapBase.Fits t.type (t.nEntries + nMissing t o)
  | .copy a _ _ _ => ∀ h, maps a = some h → HashmapBase.Fits h.type h.nEntries

/-- Every call of a program is allowed, and the entries that there will be can be
    allocated. -/
def Admits (ops : HashOps P HK) (sharedHashKey : HK) : Maps P HK → List (MapsOp P HK) → Prop
  | _, [] => True
  | maps, op :: calls => Allowed maps op ∧ Fits maps op ∧
      ∀ maps' ret, step ops sharedHashKey maps op = some (maps', ret) → Admits ops sharedHashKey maps' calls

omit [Inhabited P] [DecidableEq P] in
theorem Refines.exists_map (hr : Refines ops maps fs) {a : Nat} {h : HashmapBase P HK}
    (ha : maps a = some h) : ∃ f, fs a = some f ∧ Represents ops h f := by
  cases hf : fs a with
  | none =>
    rw [(hr.null a).mpr hf] at ha
    cases ha
  | some f => exact ⟨f, rfl, hr.map a h f ha hf⟩

omit [Inhabited P] [DecidableEq P] in
/-- A hashmap is changed, and so is its finite map. -/
theorem Refines.update (hr : Refines ops maps fs) (a : Nat) {h : HashmapBase P HK} {f : FinMap P P}
    (hrep : Represents ops h f) :
    Refines ops (Function.update maps a (some h)) (Function.update fs a (some f)) := by
  constructor
  · intro b
    by_cases hb : b = a
    · rw [hb, Function.update_self, Function.update_self]
      simp
    · rw [Function.update_of_ne hb, Function.update_of_ne hb]
      exact hr.null b
  · intro b h' f' hh hf
    by_cases hb : b = a
    · rw [hb, Function.update_self] at hh hf
      cases hh
      cases hf
      exact hrep
    · rw [Function.update_of_ne hb] at hh hf
      exact hr.map b h' f' hh hf

omit [Inhabited P] [DecidableEq P] in
theorem typed_of_allowed {a : Nat} {op : MapOp P HK} (hallowed : Allowed maps (.on a op))
    {h : HashmapBase P HK} (ha : maps a = some h) : op.Typed h.type := by
  cases op with
  | put | replace | update | setPut =>
    obtain ⟨h', hh, htype⟩ := hallowed
    rw [ha] at hh
    cases hh
    exact htype
  | removeAndPut | setRemoveAndPut => exact hallowed h ha
  | get | contains | size | remove | removeValue | first | clear => trivial

omit [DecidableEq P] in
theorem callNull_of_allowed {a : Nat} {op : MapOp P HK} (hallowed : Allowed maps (.on a op))
    (ha : maps a = none) : ∃ ret, op.callNull = some ret := by
  cases op with
  | put | replace | update | setPut =>
    obtain ⟨h', hh, -⟩ := hallowed
    rw [ha] at hh
    cases hh
  | get | contains | size | remove | removeValue | removeAndPut | setRemoveAndPut | first | clear =>
    exact ⟨_, rfl⟩

omit [Inhabited P] [DecidableEq P] in
/-- The keys that the first hashmap does not have, as the scan finds them. -/
theorem nMissing_eq {t o : HashmapBase P HK} {mt mo : List (P × P)} (hmt : Holds t mt) (hmo : Holds o mo) :
    nMissing t o = (missing t mt (mo.map o.type.itemOf)).length := by
  obtain ⟨l, disp, hs, rfl⟩ := hmo
  have hmissing : missing t mt ((l.map o.entry).map o.type.itemOf) =
      ((l.filter fun i => (t.find mt (o.bucket i).key).isNone).map o.entry).map o.type.itemOf := by
    unfold missing
    rw [filter_map, filter_map]
    rfl
  rw [hmissing, length_map, length_map,
    ← toFinset_card_of_nodup (hs.table.nodup.filter _)]
  unfold nMissing
  congr 1
  ext i
  rw [Finset.mem_filter, Finset.mem_range, mem_toFinset, mem_filter, lookup_eq_nil_iff hmt,
    Option.isNone_iff_eq_none]
  constructor
  · rintro ⟨hi, hused, hnone⟩
    refine ⟨?_, hnone⟩
    by_contra hout
    exact hused ((hs.dib_eq_free_iff hi).mpr hout)
  · rintro ⟨hi, hnone⟩
    exact ⟨hs.inside i hi, fun hfree => (hs.dib_eq_free_iff (hs.inside i hi)).mp hfree hi, hnone⟩

/-- What one call of a program does to its hashmaps, and to their finite maps. -/
def StepOk (ops : HashOps P HK) (sharedHashKey : HK) (maps : Maps P HK) (fs : FinMaps P)
    (op : MapsOp P HK) : Prop :=
  ∃ maps' ret fs', step ops sharedHashKey maps op = some (maps', ret) ∧ Refines ops maps' fs' ∧
    FinMaps.Step ops.equal fs op fs' ret

theorem step_new (hr : Refines ops maps fs) (sharedHashKey : HK) (a : Nat) (type : HashmapType)
    (allocated : Bool) : StepOk ops sharedHashKey maps fs (.new a type allocated) := by
  cases allocated with
  | false => exact ⟨maps, _, fs, rfl, hr, .inr ⟨rfl, rfl, rfl⟩⟩
  | true =>
    refine ⟨_, _, _, rfl, hr.update a (f := .empty) ⟨[], rfl, holds_resetDirectStorage _, rfl⟩,
      .inl ⟨rfl, rfl, rfl⟩⟩

theorem step_on (hr : Refines ops maps fs) (sharedHashKey : HK) {a : Nat} {op : MapOp P HK}
    (hallowed : Allowed maps (.on a op)) (hfits : Fits maps (.on a op)) :
    StepOk ops sharedHashKey maps fs (.on a op) := by
  cases ha : maps a with
  | none =>
    obtain ⟨ret, hret⟩ := callNull_of_allowed hallowed ha
    refine ⟨maps, ret, fs, ?_, hr, ?_⟩
    · rw [step, ha]
      rw [hret]
      rfl
    · rw [FinMaps.Step, (hr.null a).mp ha]
      exact ⟨callNull_spec ops.equal hret, rfl⟩
  | some h =>
    obtain ⟨f, hf, hrep⟩ := hr.exists_map ha
    obtain ⟨h', ret, f', hcall, hrep', -, hspec⟩ := call_spec hrep op (typed_of_allowed hallowed ha) (hfits h ha)
    refine ⟨Function.update maps a (some h'), ret, _, ?_, hr.update a hrep', ?_⟩
    · rw [step, ha]
      dsimp only
      rw [hcall]
      rfl
    · rw [FinMaps.Step, hf]
      exact ⟨f', hspec, rfl⟩

omit [Inhabited P] [DecidableEq P] in
/-- It does not matter whether only the missing items are added. -/
theorem union_missing {t : HashmapBase P HK} (hops : t.hashOps = ops) (mt items : List (P × P)) :
    FinMap.union (FinMap.ofList ops.equal (mt.map t.type.itemOf)) (FinMap.ofList ops.equal (missing t mt items)) =
      FinMap.union (FinMap.ofList ops.equal (mt.map t.type.itemOf)) (FinMap.ofList ops.equal items) := by
  funext x
  unfold union
  rw [ofList_itemOf hops]
  cases hfind : t.find mt x with
  | some e => rfl
  | none =>
    show ofList ops.equal (missing t mt items) x = ofList ops.equal items x
    unfold ofList missing
    rw [find?_filter]
    congr 1
    funext e
    cases hex : ops.equal e.1 x with
    | false => simp
    | true =>
      have hnone : t.find mt e.1 = none := by
        unfold HashmapBase.find at hfind ⊢
        rw [ofList_congr t.hashOps.keyEquiv (b := x) (by rw [hops]; exact hex)]
        exact hfind
      rw [hnone]
      rfl

theorem step_merge (hr : Refines ops maps fs) (sharedHashKey : HK) {a b : Nat} {env : Nat → ResizeEnv HK}
    (hallowed : Allowed maps (.merge a b env)) (hfits : Fits maps (.merge a b env)) :
    StepOk ops sharedHashKey maps fs (.merge a b env) := by
  obtain ⟨t, ha, htypes⟩ := hallowed
  obtain ⟨f, hf, hrep⟩ := hr.exists_map ha
  cases hb : maps b with
  | none =>
    refine ⟨maps, .code 0, fs, ?_, hr, f, hf, .inl ⟨?_, rfl⟩⟩
    · rw [step]
      unfold hashmapMerge
      rw [ha, hb]
      show (mergeLoop a b 1 maps iteratorFirst env).map _ = _
      rw [mergeLoop, hb]
      rfl
    · have hunion : union f ((fs b).getD .empty) = f := by
        rw [(hr.null b).mp hb]
        funext x
        exact Option.or_none
      rw [hunion, ← hf, Function.update_eq_self]
  | some o =>
    obtain ⟨g, hg, hrepo⟩ := hr.exists_map hb
    obtain ⟨mt, hopst, hmt, rfl⟩ := hrep
    obtain ⟨mo, hopso, hmo, rfl⟩ := hrepo
    have hfit := hfits t o ha hb
    rw [nMissing_eq hmt hmo, hmt.nEntries] at hfit
    obtain ⟨maps', c, t', o', items, heq, ht', hmerge, hitems, hkindo, hholdso, ho', hrest⟩ :=
      hashmapMerge_spec env ha hmt hb hmo (hopso.trans hopst.symm) (htypes o hb) hfit
    have hstep : step ops sharedHashKey maps (.merge a b env) = some (maps', .code c) := by
      rw [step, heq]
      rfl
    have hdistinct := distinct_itemOf hopso hmo
    have hdistinct' : Distinct ops.equal items := by
      have hsymm : Std.Symm fun x y : P × P => ops.equal x.1 y.1 = false := by
        refine ⟨fun x y hxy => ?_⟩
        by_contra hyx
        rw [ops.equal_symm _ _ (by simpa using hyx)] at hxy
        cases hxy
      exact hdistinct.perm hitems.perm.symm fun {_ _} h => hsymm.symm _ _ h
    -- the other hashmap has the same entries as before
    have hrefines : ∀ f', Represents ops t' f' → Refines ops maps' (Function.update fs a (some f')) := by
      intro f' hrep'
      have hsame : ∀ k, k ≠ a → ∀ h f, maps' k = some h → fs k = some f → Represents ops h f := by
        intro k hka h f hh hfk
        by_cases hkb : k = b
        · subst hkb
          rw [ho' (Ne.symm hka)] at hh
          cases hh
          rw [hg] at hfk
          cases hfk
          exact represents_of_sameKind hkindo hopso hholdso
        · rw [hrest k hka hkb] at hh
          exact hr.map k h f hh hfk
      constructor
      · intro k
        by_cases hka : k = a
        · rw [hka, Function.update_self, ht']
          simp
        · rw [Function.update_of_ne hka]
          by_cases hkb : k = b
          · subst hkb
            rw [ho' (Ne.symm hka), hg]
            simp
          · rw [hrest k hka hkb]
            exact hr.null k
      · intro k h f hh hfk
        by_cases hka : k = a
        · rw [hka, Function.update_self] at hfk
          rw [hka, ht'] at hh
          cases hh
          cases hfk
          exact hrep'
        · rw [Function.update_of_ne hka] at hfk
          exact hsame k hka h f hh hfk
    have hrepr : ∀ s, Holds t' (mt ++ s) → SameKind t t' → Represents ops t'
        (union (ofList ops.equal (mt.map t.type.itemOf))
          (ofList ops.equal (s.map t.type.itemOf))) := by
      intro s hholds hkind
      rw [← ofList_append, ← map_append]
      exact represents_of_sameKind hkind hopst hholds
    cases hmerge with
    | @done s hkind hholds hs =>
      refine ⟨maps', _, _, hstep, hrefines _ (hrepr s hholds hkind), _, hf, .inl ⟨?_, rfl⟩⟩
      rw [hs, union_missing hopst, ofList_perm ops.keyEquiv hdistinct hitems.perm, hg]
      rfl
    | @failed s hkind hholds hs hfailed =>
      refine ⟨maps', _, _, hstep, hrefines _ (hrepr s hholds hkind), _, hf,
        .inr ⟨ofList ops.equal (s.map t.type.itemOf), ?_, rfl, rfl, hfailed⟩⟩
      intro x e he
      obtain ⟨hmem, hex⟩ := mem_of_ofList_eq_some he
      rw [hg]
      refine (ofList_eq_some ops.keyEquiv hdistinct).mpr ⟨?_, hex⟩
      have hmem' := (mem_filter.mp (hs.subset hmem)).1
      exact hitems.perm.mem_iff.mp hmem'

theorem step_copy (hr : Refines ops maps fs) (sharedHashKey : HK) {a b : Nat} {allocated : Bool}
    {env : Nat → ResizeEnv HK} (hallowed : Allowed maps (.copy a b allocated env))
    (hfits : Fits maps (.copy a b allocated env)) :
    StepOk ops sharedHashKey maps fs (.copy a b allocated env) := by
  obtain ⟨ha, hb⟩ := hallowed
  obtain ⟨o, ho⟩ := Option.ne_none_iff_exists'.mp ha
  obtain ⟨f, hf, m, hops, hm, rfl⟩ := hr.exists_map ho
  have hfit := hfits o ho
  rw [hm.nEntries] at hfit
  obtain ⟨maps', o', heq, hcopy, ho', hkind, hholds, hrest⟩ :=
    hashmapCopy_spec allocated env ho hm hb hfit
  have hstep : step ops sharedHashKey maps (.copy a b allocated env) =
      some (maps', .bool (maps' b).isSome) := by
    rw [step, heq]
    rfl
  have hothers : ∀ k, k ≠ b → (maps' k = none ↔ fs k = none) ∧
      ∀ h f, maps' k = some h → fs k = some f → Represents ops h f := by
    intro k hkb
    by_cases hka : k = a
    · subst hka
      rw [ho', hf]
      refine ⟨by simp, fun h g hh hg => ?_⟩
      cases hh
      cases hg
      exact represents_of_sameKind hkind hops hholds
    · rw [hrest k hka hkb]
      exact ⟨hr.null k, hr.map k⟩
  generalize hcopied : maps' b = copied at hcopy hstep
  cases hcopy with
  | @copied t mt hkind' hholds' hitems =>
    refine ⟨maps', _, Function.update fs b (fs a), hstep, ⟨?_, ?_⟩, .inl ⟨rfl, rfl⟩⟩
    · intro k
      by_cases hkb : k = b
      · rw [hkb, Function.update_self, hf, hcopied]
        simp
      · rw [Function.update_of_ne hkb]
        exact (hothers k hkb).1
    · intro k h g hh hg
      by_cases hkb : k = b
      · rw [hkb, Function.update_self, hf] at hg
        rw [hkb, hcopied] at hh
        cases hh
        cases hg
        refine ⟨mt, hkind'.hashOps.trans hops, hholds', ?_⟩
        rw [hkind'.type]
        refine (ofList_perm ops.keyEquiv (distinct_itemOf hops hm) hitems.perm).symm
      · rw [Function.update_of_ne hkb] at hg
        exact (hothers k hkb).2 h g hh hg
  | failed hfailed =>
    refine ⟨maps', _, fs, hstep, ⟨?_, ?_⟩, .inr ⟨rfl, rfl, hfailed⟩⟩
    · intro k
      by_cases hkb : k = b
      · rw [hkb, hcopied, (hr.null b).mp hb]
        exact ⟨fun _ => rfl, fun _ => rfl⟩
      · exact (hothers k hkb).1
    · intro k h g hh hg
      by_cases hkb : k = b
      · rw [hkb, hcopied] at hh
        cases hh
      · exact (hothers k hkb).2 h g hh hg

/-- One call. -/
theorem step_spec (hr : Refines ops maps fs) (sharedHashKey : HK) {op : MapsOp P HK}
    (hallowed : Allowed maps op) (hfits : Fits maps op) : StepOk ops sharedHashKey maps fs op := by
  cases op with
  | new a type allocated => exact step_new hr sharedHashKey a type allocated
  | on a op => exact step_on hr sharedHashKey hallowed hfits
  | merge a b env => exact step_merge hr sharedHashKey hallowed hfits
  | copy a b allocated env => exact step_copy hr sharedHashKey hallowed hfits

/-- Several calls. -/
theorem run_spec {calls : List (MapsOp P HK)} (hr : Refines ops maps fs) (sharedHashKey : HK)
    (hadmits : Admits ops sharedHashKey maps calls) :
    ∃ maps' rets fs', run ops sharedHashKey maps calls = some (maps', rets) ∧ Refines ops maps' fs' ∧
      FinMaps.Run ops.equal fs calls fs' rets := by
  induction calls generalizing maps fs with
  | nil => exact ⟨maps, [], fs, rfl, hr, .nil fs⟩
  | cons op calls ih =>
    obtain ⟨hallowed, hfits, hrest⟩ := hadmits
    obtain ⟨maps₁, ret, fs₁, heq, hr₁, hstep⟩ := step_spec hr sharedHashKey hallowed hfits
    obtain ⟨maps', rets, fs', hrun, hr', hruns⟩ := ih hr₁ (hrest maps₁ ret heq)
    refine ⟨maps', ret :: rets, fs', ?_, hr', .cons hstep hruns⟩
    rw [run, heq]
    dsimp only
    rw [hrun]
    rfl

omit [Inhabited P] [DecidableEq P] in
theorem refines_initial : Refines ops (initial : Maps P HK) fun _ => none :=
  ⟨fun _ => ⟨fun _ => rfl, fun _ => rfl⟩, fun a h f hh => by cases hh⟩

/-- The buckets that are in use. -/
def occupied (h : HashmapBase P HK) : List Nat :=
  (List.range h.nBuckets).filter fun i => h.dib i ≠ dibRawFree

omit [Inhabited P] [DecidableEq P] in
theorem occupied_perm {h : HashmapBase P HK} {l : List Nat} {disp : Nat → Option Nat} (hs : Stored h l disp) :
    (occupied h).Perm l := by
  have hnodup : (occupied h).Nodup := nodup_range.filter _
  rw [perm_ext_iff_of_nodup hnodup hs.table.nodup]
  intro i
  rw [occupied, mem_filter, mem_range, decide_eq_true_iff]
  constructor
  · rintro ⟨hi, hused⟩
    by_contra hout
    exact hused ((hs.dib_eq_free_iff hi).mpr hout)
  · exact fun hi => ⟨hs.inside i hi, fun hfree => (hs.dib_eq_free_iff (hs.inside i hi)).mp hfree hi⟩

omit [DecidableEq P] in
/-- Resizing loses no entry and duplicates none. -/
theorem resizeBuckets_perm {h : HashmapBase P HK} {m : List (P × P)} (hm : Holds h m) (n : Nat)
    (env : ResizeEnv HK) (hfits : HashmapBase.Fits h.type (h.nEntries + n)) :
    ∃ h' r, h.resizeBuckets n env = some (h', r) ∧
      ((occupied h').map h'.entry).Perm ((occupied h).map h.entry) := by
  obtain ⟨l, disp, hs, rfl⟩ := hm
  obtain ⟨h', r, heq, hresized⟩ := resizeBuckets_spec hs n env hfits
  refine ⟨h', r, heq, ?_⟩
  cases hresized with
  | kept | failed => exact .refl _
  | grown hs' hentries =>
    have hnew := (occupied_perm hs').map h'.entry
    rw [hentries] at hnew
    exact hnew.trans ((occupied_perm hs).map h.entry).symm

/-- A program whose hashmaps never get more entries than buckets can be allocated for
    (`Admits`): all calls return, and what they return is what finite maps return.  The entries are counted
    right, and resizing keeps them. -/
theorem run_refines_finMaps (ops : HashOps P HK) (sharedHashKey : HK) (calls : List (MapsOp P HK))
    (h : Admits ops sharedHashKey initial calls) :
    ∃ maps rets fs, run ops sharedHashKey initial calls = some (maps, rets) ∧
      FinMaps.Run ops.equal (fun _ => none) calls fs rets ∧ Refines ops maps fs ∧
      ∀ a map, maps a = some map → map.nEntries = (occupied map).length ∧
        ∀ n env, HashmapBase.Fits map.type (map.nEntries + n) →
          ∃ map' r, map.resizeBuckets n env = some (map', r) ∧
            ((occupied map').map map'.entry).Perm ((occupied map).map map.entry) := by
  obtain ⟨maps, rets, fs, hrun, hr, hruns⟩ := run_spec refines_initial sharedHashKey h
  refine ⟨maps, rets, fs, hrun, hruns, hr, fun a map ha => ?_⟩
  obtain ⟨f, -, m, -, hm, -⟩ := hr.exists_map ha
  refine ⟨?_, fun n env hfits => resizeBuckets_perm hm n env hfits⟩
  obtain ⟨l, disp, hs, -⟩ := hm
  rw [(occupied_perm hs).length_eq]
  exact hs.size

/-! ## The largest hashmap -/

/-- Numbers as keys, which are their own hashes. -/
def natOps : HashOps Nat Unit where
  hash _ k := k
  equal a b := decide (a = b)
  equal_refl _ := decide_eq_true rfl
  equal_symm _ _ h := decide_eq_true (of_decide_eq_true h).symm
  equal_trans _ _ _ h₁ h₂ := decide_eq_true ((of_decide_eq_true h₁).trans (of_decide_eq_true h₂))
  hash_eq _ _ h _ := of_decide_eq_true h

/-- There is always memory. -/
def memory : ResizeEnv Unit := { allocated := true, hashKey := () }

/-- A hashmap is filled with `n` keys. -/
def fill (n : Nat) : List (MapsOp Nat Unit) :=
  .new 0 .plain true :: (List.range n).map fun k => .on 0 (.put k k memory)

/-! ## Admitted programs, by running them -/

instance (maps : Maps P HK) : ∀ op, Decidable (Allowed maps op)
  | .new h _ _ => inferInstanceAs (Decidable (maps h = none))
  | .on h op =>
    match op with
    | .put .. | .replace .. | .update .. => inferInstanceAs (Decidable (∃ map ∈ maps h, map.type ≠ .set))
    | .setPut .. => inferInstanceAs (Decidable (∃ map ∈ maps h, map.type = .set))
    | .removeAndPut .. => inferInstanceAs (Decidable (∀ map ∈ maps h, map.type ≠ .set))
    | .setRemoveAndPut .. => inferInstanceAs (Decidable (∀ map ∈ maps h, map.type = .set))
    | .get _ | .contains _ | .size | .remove _ | .removeValue .. | .first _ | .clear _ => .isTrue trivial
  | .merge h other _ =>
    inferInstanceAs (Decidable (∃ map ∈ maps h, ∀ map' ∈ maps other, map'.type = .set ↔ map.type = .set))
  | .copy h copy _ _ => inferInstanceAs (Decidable (maps h ≠ none ∧ maps copy = none))

instance (h : HashmapBase P HK) : ∀ op, Decidable (MapOp.Fits h op)
  | .put .. | .setPut .. | .replace .. => inferInstanceAs (Decidable (_ → _))
  | .update .. | .get _ | .contains _ | .size | .remove _ | .removeValue .. | .removeAndPut .. | .setRemoveAndPut ..
  | .first _ | .clear _ => .isTrue trivial

instance (maps : Maps P HK) : ∀ op, Decidable (Fits maps op)
  | .new .. => .isTrue trivial
  | .on a op => inferInstanceAs (Decidable (∀ h ∈ maps a, op.Fits h))
  | .merge a b _ =>
    decidable_of_iff (∀ t ∈ maps a, ∀ o ∈ maps b, HashmapBase.Fits t.type (t.nEntries + nMissing t o))
      ⟨fun h t o ht ho => h t ht o ho, fun h t ht o ho => h t o ht ho⟩
  | .copy a _ _ _ => inferInstanceAs (Decidable (∀ h ∈ maps a, HashmapBase.Fits h.type h.nEntries))

instance decidableAdmits (ops : HashOps P HK) (sharedHashKey : HK) :
    ∀ maps calls, Decidable (Admits ops sharedHashKey maps calls)
  | _, [] => .isTrue trivial
  | maps, op :: calls =>
    have : Decidable (∀ maps' ret, step ops sharedHashKey maps op = some (maps', ret) →
        Admits ops sharedHashKey maps' calls) :=
      match step ops sharedHashKey maps op with
      | none => .isTrue nofun
      | some (maps', ret) =>
        have := decidableAdmits ops sharedHashKey maps' calls
        decidable_of_iff (Admits ops sharedHashKey maps' calls)
          ⟨fun h _ _ heq => by cases heq; exact h, fun h => h maps' ret rfl⟩
    inferInstanceAs (Decidable (_ ∧ _ ∧ _))

/-- A hashmap gets more entries than it has direct buckets, loses one and is merged with another one. -/
def program : List (MapsOp Nat Unit) :=
  [.new 0 .plain true, .on 0 (.put 1 10 memory), .on 0 (.put 2 20 memory), .on 0 (.put 3 30 memory),
    .on 0 (.put 4 40 memory), .on 0 (.put 5 50 memory), .on 0 (.get 3), .on 0 (.remove 2), .new 1 .plain true,
    .on 1 (.put 9 90 memory), .on 1 (.put 3 31 memory), .merge 0 1 fun _ => memory, .on 0 (.get 9), .on 0 (.get 3),
    .on 0 .size]

/-- What the calls of the program return. -/
def programReturns : List (Ret Nat) :=
  [.bool true, .code 1, .code 1, .code 1, .code 1, .code 1, .pointer 30, .pointer 20, .bool true, .code 1, .code 1,
    .code 0, .pointer 90, .pointer 30, .number 5]

theorem admits_program : Admits natOps () initial program := by decide +kernel

theorem run_program : (run natOps () initial program).map Prod.snd = some programReturns := by decide +kernel

theorem run_refines_finMaps_program :
    ∃ maps fs, run natOps () initial program = some (maps, programReturns) ∧
      FinMaps.Run natOps.equal (fun _ => none) program fs programReturns ∧ Refines natOps maps fs ∧
      ∀ map, maps 0 = some map → map.nEntries = (occupied map).length := by
  obtain ⟨maps, rets, fs, hrun, hruns, hrefines, hmaps⟩ := run_refines_finMaps natOps () program admits_program
  have hrets := run_program
  rw [hrun] at hrets
  obtain rfl := Option.some.inj hrets
  exact ⟨maps, fs, hrun, hruns, hrefines, fun map hmap => (hmaps 0 map hmap).1⟩

/-- Every call of a program is allowed. -/
def AllowedRun (ops : HashOps P HK) (sharedHashKey : HK) : Maps P HK → List (MapsOp P HK) → Prop
  | _, [] => True
  | maps, op :: calls => Allowed maps op ∧
      ∀ maps' ret, step ops sharedHashKey maps op = some (maps', ret) → AllowedRun ops sharedHashKey maps' calls

theorem Admits.allowedRun {sharedHashKey : HK} {calls : List (MapsOp P HK)}
    (h : Admits ops sharedHashKey maps calls) : AllowedRun ops sharedHashKey maps calls := by
  induction calls generalizing maps with
  | nil => trivial
  | cons op calls ih => exact ⟨h.1, fun maps' ret hstep => ih (h.2.2 maps' ret hstep)⟩

theorem run_concat (sharedHashKey : HK) (calls : List (MapsOp P HK)) (op : MapsOp P HK) :
    run ops sharedHashKey maps (calls ++ [op]) =
      match run ops sharedHashKey maps calls with
      | none => none
      | some (maps', rets) => (step ops sharedHashKey maps' op).map fun s => (s.1, rets ++ [s.2]) := by
  induction calls generalizing maps with
  | nil =>
    show run ops sharedHashKey maps [op] = (step ops sharedHashKey maps op).map _
    rw [run]
    cases step ops sharedHashKey maps op with
    | none | some s => rfl
  | cons op' calls ih =>
    rw [cons_append, run, run]
    cases step ops sharedHashKey maps op' with
    | none => rfl
    | some s =>
      dsimp only
      rw [ih]
      cases run ops sharedHashKey s.1 calls with
      | none => rfl
      | some s' =>
        show ((step ops sharedHashKey s'.1 op).map _).map _ = (step ops sharedHashKey s'.1 op).map _
        rw [Option.map_map]
        rfl

theorem allowedRun_concat (sharedHashKey : HK) {calls : List (MapsOp P HK)} {op : MapsOp P HK}
    (h : AllowedRun ops sharedHashKey maps calls)
    (hop : ∀ maps' rets, run ops sharedHashKey maps calls = some (maps', rets) → Allowed maps' op) :
    AllowedRun ops sharedHashKey maps (calls ++ [op]) := by
  induction calls generalizing maps with
  | nil => exact ⟨hop maps [] rfl, fun _ _ _ => trivial⟩
  | cons op' calls ih =>
    refine ⟨h.1, fun maps₁ ret hstep => ih (h.2 maps₁ ret hstep) fun maps' rets hrun => ?_⟩
    refine hop maps' (ret :: rets) ?_
    rw [run, hstep]
    dsimp only
    rw [hrun]
    rfl

theorem fill_succ (n : Nat) : fill (n + 1) = fill n ++ [.on 0 (.put n n memory)] := by
  unfold fill
  rw [range_succ, map_append]
  rfl

/-- What a filled hashmap holds. -/
theorem fill_spec {n : Nat} (hn : HashmapBase.Fits .plain n) :
    AllowedRun natOps () initial (fill n) ∧
      ∃ maps rets h, run natOps () initial (fill n) = some (maps, rets) ∧ maps 0 = some h ∧
        h.type = .plain ∧ h.hashOps = natOps ∧ Holds h ((List.range n).map fun k => (k, k)) := by
  induction n with
  | zero =>
    refine ⟨⟨rfl, fun _ _ _ => trivial⟩,
      Function.update initial 0 (some (hashmapBaseNew natOps .plain ())), [.bool true],
      hashmapBaseNew natOps .plain (), rfl, Function.update_self .., rfl, rfl, ?_⟩
    exact holds_resetDirectStorage _
  | succ n ih =>
    obtain ⟨hallowed, maps, rets, h, hrun, hmap, htype, hops, hm⟩ := ih (hn.mono (Nat.le_succ n))
    have hfind : h.find ((range n).map fun k => (k, k)) n = none := by
      rw [ofList_eq_none, hops]
      intro e he
      obtain ⟨k, hk, rfl⟩ := mem_map.mp he
      have hlt := mem_range.mp hk
      exact decide_eq_false (Nat.ne_of_lt hlt)
    rw [fill_succ]
    constructor
    · refine allowedRun_concat () hallowed fun maps' rets' hrun' => ?_
      rw [hrun] at hrun'
      cases hrun'
      exact ⟨h, hmap, by rw [htype]; decide⟩
    · obtain ⟨h', r, hput, hout⟩ := hashmapPut_spec hm n n memory fun _ => by
        rw [htype, length_map, length_range]
        exact hn
      cases hout with
      | found hfind' =>
        rw [hfind] at hfind'
        cases hfind'
      | absent _ hput' =>
        cases hput' with
        | failed hfailed => cases hfailed
        | put hkind hholds =>
          refine ⟨Function.update maps 0 (some h'), rets ++ [.code 1], h', ?_, Function.update_self ..,
            hkind.type.trans htype, hkind.hashOps.trans hops, ?_⟩
          · rw [run_concat, hrun]
            dsimp only
            rw [step, hmap]
            dsimp only
            rw [MapOp.call, hput]
            rfl
          · rw [range_succ, map_append]
            exact hholds

/-- A call that is allowed does not return: with 101058054 entries in a hashmap, the size of
    the storage for another one is `1U << 32`. -/
theorem run_fill_eq_none :
    ¬∀ calls : List (MapsOp Nat Unit), AllowedRun natOps () initial calls →
      ∃ s, run natOps () initial calls = some s := by
  intro hall
  obtain ⟨hallowed, maps, rets, h, hrun, hmap, htype, hops, hm⟩ := fill_spec (n := 101058054) (by decide)
  have hfind : h.find ((range 101058054).map fun k => (k, k)) 101058054 = none := by
    rw [ofList_eq_none, hops]
    intro e he
    obtain ⟨k, hk, rfl⟩ := mem_map.mp he
    have hlt := mem_range.mp hk
    exact decide_eq_false (Nat.ne_of_lt hlt)
  have hnone : h.hashmapPut 101058054 101058054 memory = none := by
    refine hashmapPut_eq_none hm hfind ?_ _ _
    rw [htype, length_map, length_range]
    decide
  obtain ⟨s, hs⟩ := hall (fill 101058054 ++ [.on 0 (.put 101058054 101058054 memory)])
    (allowedRun_concat () hallowed fun maps' rets' hrun' => by
      rw [hrun] at hrun'
      cases hrun'
      exact ⟨h, hmap, by rw [htype]; decide⟩)
  rw [run_concat, hrun] at hs
  dsimp only at hs
  rw [step, hmap] at hs
  dsimp only at hs
  rw [MapOp.call, hnone] at hs
  cases hs

end Maps

end Elogind
