/-
  Elogind.Basic.HashmapOrder

  What a pass over a hashmap visits, and the order in which an ordered hashmap keeps its
  entries.
-/

import Elogind.Basic.HashmapForeach
import Elogind.Basic.HashmapProgram

namespace Elogind

open Lib HashmapBase

variable {P HK : Type} [Inhabited P] [DecidableEq P] {h h' : HashmapBase P HK} {m : List (P × P)}

/-! ## Passes in the order of the buckets -/

namespace HashmapBase

/-- Every entry is visited once, if every removal on the way is a safe one (`SafeToRemove`). -/
theorem foreach_visits_once (hm : Holds h m) (htype : h.type ≠ .ordered) (remove : List (P × P) → Bool)
    (hsafe : SafePass SafeToRemove remove h) :
    ∃ h' visited, foreach remove h = some (h', visited) ∧ visited.Perm (m.map h.type.itemOf) := by
  obtain ⟨l, disp, hs, rfl⟩ := hm
  have hcond : ∀ h₁ : HashmapBase P HK, h₁.type = h.type → Safe SafeToRemove h₁ := by
    intro h₁ htype₁
    exact safe_of_ne (by rw [htype₁]; exact htype)
  obtain ⟨h', hvisit⟩ := foreach_spec hcond hs hsafe
  exact ⟨h', _, hvisit, (Maps.Stored.items hs).perm⟩

/-- A set that numbers were put into. -/
def numbers (keys : List Nat) : HashmapBase Nat Unit :=
  keys.foldl (fun h key => ((h.setPut key Maps.memory).map Prod.fst).getD h) (hashmapBaseNew Maps.natOps .set ())

/-- Whether the number 2 is the current entry. -/
def atTwo (visited : List (Nat × Nat)) : Bool := visited.getLast? == some (2, 2)

omit [DecidableEq P] in
/-- What was put is what a set holds. -/
theorem holds_setPut {s : HashmapBase P HK} {key : P} (env : ResizeEnv HK) {h' : HashmapBase P HK}
    (hm : Holds s m) (hfits : Fits s.type (m.length + 1)) (heq : s.setPut key env = some (h', 1)) :
    Holds h' (m ++ [(key, default)]) := by
  obtain ⟨h₁, r, heq₁, hout⟩ := setPut_spec hm key env fun _ => hfits
  rw [heq₁] at heq
  cases heq
  cases hout with
  | absent hfind hput =>
    cases hput with
    | put hkind hholds => exact hholds

/-- The current entry is removed, and this is safe. -/
theorem SafeLoop.remove {safe : HashmapBase P HK → Nat → Prop} {remove : List (P × P) → Bool} {n idx x : Nat}
    {i i₁ : Iterator P} {h₁ h₂ : HashmapBase P HK} {p : P} {visited : List (P × P)}
    (hiterate : h.hashmapIterateEntry i = some (h₁, i₁, idx)) (hremove : remove (visited ++ [h₁.item idx]) = true)
    (hlookup : h₁.lookup (h₁.bucket idx).key = some x) (hsafe : safe h₁ x)
    (hremoved : h₁.hashmapRemove (h₁.bucket idx).key = some (h₂, p))
    (hloop : SafeLoop safe remove n h₂ i₁ (visited ++ [h₁.item idx])) :
    SafeLoop safe remove (n + 1) h i visited := by
  intro h₁' i₁' idx' heq _
  rw [hiterate] at heq
  cases heq
  refine ⟨fun _ => ⟨fun x' hx' => ?_, fun h₂' p' hp' => ?_⟩, fun hkept => ?_⟩
  · rw [hlookup] at hx'
    cases hx'
    exact hsafe
  · rw [hremoved] at hp'
    cases hp'
    exact hloop
  · rw [hremove] at hkept
    cases hkept

/-- The current entry is kept. -/
theorem SafeLoop.keep {safe : HashmapBase P HK → Nat → Prop} {remove : List (P × P) → Bool} {n idx : Nat}
    {i i₁ : Iterator P} {h₁ : HashmapBase P HK} {visited : List (P × P)}
    (hiterate : h.hashmapIterateEntry i = some (h₁, i₁, idx)) (hkept : remove (visited ++ [h₁.item idx]) = false)
    (hloop : SafeLoop safe remove n h₁ i₁ (visited ++ [h₁.item idx])) :
    SafeLoop safe remove (n + 1) h i visited := by
  intro h₁' i₁' idx' heq _
  rw [hiterate] at heq
  cases heq
  refine ⟨fun hremove => ?_, fun _ => hloop⟩
  rw [hkept] at hremove
  cases hremove

/-- There is no other entry. -/
theorem SafeLoop.done {safe : HashmapBase P HK → Nat → Prop} {remove : List (P × P) → Bool} {n : Nat}
    {i i₁ : Iterator P} {h₁ : HashmapBase P HK} {visited : List (P × P)}
    (hiterate : h.hashmapIterateEntry i = some (h₁, i₁, idxNil)) :
    SafeLoop safe remove (n + 1) h i visited := by
  intro h₁' i₁' idx' heq hidx
  rw [hiterate] at heq
  cases heq
  exact absurd rfl hidx

/-- The set with 2 and 6, which is a bucket behind its place. -/
theorem holds_numbers_two : Holds (numbers [2, 6]) [(2, 0), (6, 0)] := by
  have hempty : Holds (numbers []) [] := holds_resetDirectStorage _
  have hone : Holds (numbers [2]) [(2, 0)] := holds_setPut Maps.memory hempty (by decide) rfl
  exact holds_setPut Maps.memory hone (by decide) rfl

/-- The number 10 comes to the first bucket. -/
theorem holds_numbers_three : Holds (numbers [2, 6, 10]) [(2, 0), (6, 0), (10, 0)] :=
  holds_setPut Maps.memory holds_numbers_two (by decide) rfl

theorem foreach_visits_once_two :
    Holds (numbers [2, 6]) [(2, 0), (6, 0)] ∧ (numbers [2, 6]).type ≠ .ordered ∧
      SafePass SafeToRemove atTwo (numbers [2, 6]) ∧
      ∃ h' visited, foreach atTwo (numbers [2, 6]) = some (h', visited) ∧
        visited.Perm ([(2, 0), (6, 0)].map (numbers [2, 6]).type.itemOf) := by
  have htype : (numbers [2, 6]).type ≠ .ordered := by decide
  have hsafe : SafePass SafeToRemove atTwo (numbers [2, 6]) := by
    refine SafeLoop.remove (n := 8) (x := 2) rfl rfl rfl ?_ rfl ?_
    · intro _ stop hstop
      cases hstop
      exact ⟨by decide, fun _ hkey => absurd hkey (by decide)⟩
    · exact SafeLoop.keep (n := 7) rfl rfl (SafeLoop.done (n := 6) rfl)
  exact ⟨holds_numbers_two, htype, hsafe, foreach_visits_once holds_numbers_two htype atTwo hsafe⟩

/-- With a third number, the removal moves the entry of the first bucket to the last one,
    and it is visited twice. -/
theorem foreach_visits_twice :
    ¬∀ (h : HashmapBase Nat Unit) (m : List (Nat × Nat)) (remove : List (Nat × Nat) → Bool),
      Holds h m → h.type ≠ .ordered →
        ∃ h' visited, foreach remove h = some (h', visited) ∧ visited.Perm (m.map h.type.itemOf) := by
  intro hall
  obtain ⟨h', visited, hvisit, hperm⟩ := hall _ _ atTwo holds_numbers_three (by decide)
  have hvisited : visited = [(10, 10), (2, 2), (6, 6), (10, 10)] :=
    (congrArg Prod.snd (Option.some.inj hvisit)).symm
  have hlen := hperm.length_eq
  rw [hvisited] at hlen
  cases hlen

end HashmapBase

/-! ## Ordered hashmaps -/

/-- The calls with an ordered hashmap; `ordered_hashmap_reserve` only resizes. -/
inductive OrderedOp (P HK : Type) where
  | call (op : MapOp P HK)
  | reserve (entriesAdd : Nat) (env : ResizeEnv HK)

namespace OrderedOp

/-- One call. -/
def step (h : HashmapBase P HK) : OrderedOp P HK → Option (HashmapBase P HK)
  | call op => (op.call h).map Prod.fst
  | reserve entriesAdd env => (h.resizeBuckets entriesAdd env).map Prod.fst

/-- Several calls, one after the other. -/
def run (h : HashmapBase P HK) : List (OrderedOp P HK) → Option (HashmapBase P HK)
  | [] => some h
  | op :: calls =>
    match op.step h with
    | none => none
    | some h => run h calls

/-- The call is one for hashmaps, and the entries that there will be can be allocated. -/
def Admitted (h : HashmapBase P HK) : OrderedOp P HK → Prop
  | call op => op.Typed .ordered ∧ op.Fits h
  | reserve entriesAdd _ => HashmapBase.Fits .ordered (h.nEntries + entriesAdd)

def Admits (h : HashmapBase P HK) : List (OrderedOp P HK) → Prop
  | [] => True
  | op :: calls => op.Admitted h ∧ ∀ h', op.step h = some h' → Admits h' calls

/-- A key that is not there is put behind all others, unless there is no memory. -/
def PutLast (m : List (P × P)) (key value : P) (env : ResizeEnv HK) (m' : List (P × P)) : Prop :=
  m' = m ++ [(key, value)] ∨ (env.allocated = false ∧ m' = m)

/-- What a call does to the entries, in the order in which their keys were put. -/
def Reorders (eq : P → P → Bool) (m : List (P × P)) : OrderedOp P HK → List (P × P) → Prop
  | call (.put key value env), m' =>
    if m.any (fun e => eq e.1 key) then m' = m else PutLast m key value env m'
  | call (.replace key value env), m' =>
    if m.any (fun e => eq e.1 key) then m' = m.map fun e => if eq e.1 key then (key, value) else e
    else PutLast m key value env m'
  | call (.update key value), m' => m' = m.map fun e => if eq e.1 key then (e.1, value) else e
  | call (.remove key), m' => m' = m.filter fun e => !eq e.1 key
  | call (.removeValue key value), m' =>
    if m.any (fun e => eq e.1 key && decide (e.2 = value)) then m' = m.filter fun e => !eq e.1 key else m' = m
  | call (.removeAndPut oldKey newKey value), m' =>
    if m.any (fun e => eq e.1 oldKey) && !m.any (fun e => eq e.1 newKey) then
      m' = (m.filter fun e => !eq e.1 oldKey) ++ [(newKey, value)]
    else m' = m
  | call (.first steal), m' => m' = if steal then m.tail else m
  | call (.clear _), m' => m' = []
  | call (.setPut ..), _ | call (.setRemoveAndPut ..), _ => False
  | call (.get _), m' | call (.contains _), m' | call .size, m' | reserve .., m' => m' = m

/-- What a sequence of calls does to the entries. -/
inductive Order (eq : P → P → Bool) : List (P × P) → List (OrderedOp P HK) → List (P × P) → Prop where
  | nil (m : List (P × P)) : Order eq m [] m
  | cons {m m' m'' : List (P × P)} {op : OrderedOp P HK} {calls : List (OrderedOp P HK)}
      (hstep : op.Reorders eq m m') (hrun : Order eq m' calls m'') : Order eq m (op :: calls) m''

variable {ops : HashOps P HK}

omit [Inhabited P] [DecidableEq P] in
theorem any_eq_isSome (h : HashmapBase P HK) (m : List (P × P)) (key : P) :
    (m.any fun e => h.hashOps.equal e.1 key) = (h.find m key).isSome := by
  rw [Bool.eq_iff_iff, List.any_eq_true, Option.isSome_iff_ne_none, ne_eq, FinMap.ofList_eq_none]
  simp

omit [Inhabited P] [DecidableEq P] in
/-- The entry is put, or there is no memory. -/
theorem putLast_of_putAbsent {key value : P} {env : ResizeEnv HK} {r : Int} (hm : Holds h m)
    (hput : PutAbsent h m key value env h' r) : ∃ m', SameKind h h' ∧ Holds h' m' ∧ PutLast m key value env m' := by
  cases hput with
  | put hkind hholds => exact ⟨_, hkind, hholds, .inl rfl⟩
  | failed hfailed => exact ⟨m, .refl h, hm, .inr ⟨hfailed, rfl⟩⟩

/-- What a call does to an ordered hashmap and its entries. -/
def StepOk (h : HashmapBase P HK) (m : List (P × P)) (op : OrderedOp P HK) : Prop :=
  ∃ h' m', op.step h = some h' ∧ SameKind h h' ∧ Holds h' m' ∧ op.Reorders h.hashOps.equal m m'

theorem step_put (hm : Holds h m) (key value : P) (env : ResizeEnv HK)
    (hfits : MapOp.Fits h (.put key value env)) : StepOk h m (call (.put key value env)) := by
  obtain ⟨h', r, heq, hout⟩ := hashmapPut_spec hm key value env fun hfind => by
    rw [← hm.nEntries]
    exact hfits ((lookup_eq_nil_iff hm).mpr hfind)
  have hstep : (call (.put key value env)).step h = some h' := by
    rw [step, MapOp.call, heq]
    rfl
  have hany := any_eq_isSome h m key
  cases hout with
  | found hfind =>
    refine ⟨h, m, hstep, .refl h, hm, ?_⟩
    rw [Reorders, hany, hfind]
    exact rfl
  | absent hfind hput =>
    obtain ⟨m', hkind, hholds, hlast⟩ := putLast_of_putAbsent hm hput
    refine ⟨h', m', hstep, hkind, hholds, ?_⟩
    rw [Reorders, hany, hfind]
    exact hlast

theorem step_replace (hm : Holds h m) (key value : P) (env : ResizeEnv HK)
    (hfits : MapOp.Fits h (.replace key value env)) : StepOk h m (call (.replace key value env)) := by
  obtain ⟨h', r, heq, hout⟩ := hashmapReplace_spec hm key value env fun hfind => by
    rw [← hm.nEntries]
    exact hfits ((lookup_eq_nil_iff hm).mpr hfind)
  have hstep : (call (.replace key value env)).step h = some h' := by
    rw [step, MapOp.call, heq]
    rfl
  have hany := any_eq_isSome h m key
  cases hout with
  | found hfind hkind hholds =>
    refine ⟨h', _, hstep, hkind, hholds, ?_⟩
    rw [Reorders, hany, if_pos (Option.isSome_iff_ne_none.mpr hfind)]
  | absent hfind hput =>
    obtain ⟨m', hkind, hholds, hlast⟩ := putLast_of_putAbsent hm hput
    refine ⟨h', m', hstep, hkind, hholds, ?_⟩
    rw [Reorders, hany, hfind]
    exact hlast

omit [Inhabited P] [DecidableEq P] in
/-- Nothing is done to the entries of a key that is not there. -/
theorem equal_eq_false {key : P} (hfind : h.find m key = none) {e : P × P} (he : e ∈ m) :
    h.hashOps.equal e.1 key = false :=
  FinMap.ofList_eq_none.mp hfind e he

theorem step_update (hm : Holds h m) (key value : P) : StepOk h m (call (.update key value)) := by
  rcases hashmapUpdate_spec hm key value with ⟨hfind, heq⟩ | ⟨h', hfind, heq, hkind, hholds⟩
  · refine ⟨h, m, ?_, .refl h, hm, ?_⟩
    · rw [step, MapOp.call, heq]
      rfl
    · rw [Reorders, List.map_congr_left (g := id), List.map_id]
      intro e he
      rw [equal_eq_false hfind he]
      rfl
  · refine ⟨h', _, ?_, hkind, hholds, rfl⟩
    rw [step, MapOp.call, heq]
    rfl

theorem step_remove (hm : Holds h m) (key : P) : StepOk h m (call (.remove key)) := by
  rcases hashmapRemove_spec hm key with ⟨hfind, heq⟩ | ⟨h', e, hfind, heq, hkind, hholds⟩
  · refine ⟨h, m, ?_, .refl h, hm, ?_⟩
    · rw [step, MapOp.call, heq]
      rfl
    · rw [Reorders, eq_comm, List.filter_eq_self]
      intro e he
      rw [equal_eq_false hfind he]
      rfl
  · refine ⟨h', _, ?_, hkind, hholds, rfl⟩
    rw [step, MapOp.call, heq]
    rfl

omit [Inhabited P] in
/-- Whether the entry of a key has the value. -/
theorem any_value_iff (hm : Holds h m) (htype : h.type = .ordered) (key value : P) :
    (m.any fun e => h.hashOps.equal e.1 key && decide (e.2 = value)) = true ↔
      (h.find m key).map h.type.valueOf = some value := by
  rw [htype, List.any_eq_true, Option.map_eq_some_iff]
  constructor
  · rintro ⟨e, he, hkey⟩
    rw [Bool.and_eq_true, decide_eq_true_iff] at hkey
    exact ⟨e, (FinMap.ofList_eq_some h.hashOps.keyEquiv hm.distinct).mpr ⟨he, hkey.1⟩, hkey.2⟩
  · rintro ⟨e, hfind, hvalue⟩
    obtain ⟨he, hkey⟩ := (FinMap.ofList_eq_some h.hashOps.keyEquiv hm.distinct).mp hfind
    refine ⟨e, he, ?_⟩
    rw [Bool.and_eq_true, decide_eq_true_iff]
    exact ⟨hkey, hvalue⟩

theorem step_removeValue (hm : Holds h m) (htype : h.type = .ordered) (key value : P) :
    StepOk h m (call (.removeValue key value)) := by
  have hany := any_value_iff hm htype key value
  rcases hashmapRemoveValue_spec hm key value with ⟨hne, heq⟩ | ⟨h', heq', heq, hkind, hholds⟩
  · refine ⟨h, m, ?_, .refl h, hm, ?_⟩
    · rw [step, MapOp.call, heq]
      rfl
    · rw [Reorders, if_neg (fun htrue => hne (hany.mp htrue))]
  · refine ⟨h', _, ?_, hkind, hholds, ?_⟩
    · rw [step, MapOp.call, heq]
      rfl
    · rw [Reorders, if_pos (hany.mpr heq')]

theorem step_removeAndPut (hm : Holds h m) (oldKey newKey value : P) :
    StepOk h m (call (.removeAndPut oldKey newKey value)) := by
  obtain ⟨h', r, heq, hout⟩ := hashmapRemoveAndPut_spec hm oldKey newKey value
  have hstep : (call (.removeAndPut oldKey newKey value)).step h = some h' := by
    rw [step, MapOp.call, heq]
    rfl
  have hold := any_eq_isSome h m oldKey
  have hnew := any_eq_isSome h m newKey
  cases hout with
  | missing hmissing =>
    refine ⟨h, m, hstep, .refl h, hm, ?_⟩
    rw [Reorders, hold, hmissing]
    exact rfl
  | found hfound hfoundNew =>
    refine ⟨h, m, hstep, .refl h, hm, ?_⟩
    rw [Reorders, hold, hnew, Option.isSome_iff_ne_none.mpr hfound, Option.isSome_iff_ne_none.mpr hfoundNew]
    exact rfl
  | moved hfound habsent hkind hholds =>
    refine ⟨h', _, hstep, hkind, hholds, ?_⟩
    rw [Reorders, hold, hnew, Option.isSome_iff_ne_none.mpr hfound, habsent]
    exact rfl

theorem step_first (hm : Holds h m) (htype : h.type = .ordered) (steal : Bool) :
    StepOk h m (call (.first steal)) := by
  obtain ⟨h', e, heq, hout⟩ := hashmapFirstKeyAndValue_spec hm steal
  have hstep : (call (.first steal)).step h = some h' := by
    rw [step, MapOp.call, heq]
    rfl
  cases hout with
  | empty hempty =>
    refine ⟨h, m, hstep, .refl h, hm, ?_⟩
    rw [Reorders, hempty]
    cases steal <;> rfl
  | @entry _ e he hfirst hkind hholds =>
    refine ⟨h', _, hstep, hkind, hholds, ?_⟩
    cases steal with
    | false => rfl
    | true =>
      -- the keys behind the first one are other keys
      obtain ⟨rest, rfl⟩ := List.head?_eq_some_iff.mp (hfirst htype)
      have hdistinct := (List.pairwise_cons.mp hm.distinct).1
      show h.without (e :: rest) e.1 = rest
      unfold without
      rw [List.filter_cons_of_neg (by rw [h.hashOps.equal_refl]; decide), List.filter_eq_self]
      intro e' he'
      have hne := hdistinct e' he'
      cases hkey : h.hashOps.equal e'.1 e.1 with
      | false => rfl
      | true =>
        rw [h.hashOps.equal_symm _ _ hkey] at hne
        cases hne

theorem step_reserve (hm : Holds h m) (entriesAdd : Nat) (env : ResizeEnv HK)
    (hfits : HashmapBase.Fits h.type (h.nEntries + entriesAdd)) : StepOk h m (reserve entriesAdd env) := by
  obtain ⟨l, disp, hs, rfl⟩ := hm
  obtain ⟨h', r, heq, hresized⟩ := resizeBuckets_spec hs entriesAdd env hfits
  have hstep : (reserve entriesAdd env).step h = some h' := by
    rw [step, heq]
    rfl
  cases hresized with
  | kept hroom | failed hfailed => exact ⟨h, _, hstep, .refl h, ⟨l, disp, hs, rfl⟩, rfl⟩
  | grown hs' hentries hroom hops htype hshared hsize =>
    exact ⟨h', _, hstep, ⟨hops, htype, hshared⟩, ⟨_, _, hs', hentries⟩, rfl⟩

/-- One call. -/
theorem step_spec (hm : Holds h m) (htype : h.type = .ordered) {op : OrderedOp P HK}
    (hadmitted : op.Admitted h) : StepOk h m op := by
  cases op with
  | reserve entriesAdd env =>
    refine step_reserve hm entriesAdd env ?_
    rw [htype]
    exact hadmitted
  | call op =>
    obtain ⟨htyped, hfits⟩ := hadmitted
    cases op with
    | put key value env => exact step_put hm key value env hfits
    | replace key value env => exact step_replace hm key value env hfits
    | update key value => exact step_update hm key value
    | remove key => exact step_remove hm key
    | removeValue key value => exact step_removeValue hm htype key value
    | removeAndPut oldKey newKey value => exact step_removeAndPut hm oldKey newKey value
    | first steal => exact step_first hm htype steal
    | setPut key env | setRemoveAndPut oldKey newKey => cases htyped
    | get key =>
      refine ⟨h, m, ?_, .refl h, hm, rfl⟩
      rw [step, MapOp.call, hashmapGet_spec hm]
      rfl
    | contains key =>
      refine ⟨h, m, ?_, .refl h, hm, rfl⟩
      rw [step, MapOp.call, hashmapContains_spec hm]
      rfl
    | size => exact ⟨h, m, rfl, .refl h, hm, rfl⟩
    | clear destructors =>
      obtain ⟨h', freed, heq, hkind, hholds, -⟩ := hashmapClear_spec hm destructors
      refine ⟨h', [], ?_, hkind, hholds, rfl⟩
      rw [step, MapOp.call, heq]
      rfl

/-- Several calls. -/
theorem run_spec {calls : List (OrderedOp P HK)} (hm : Holds h m) (htype : h.type = .ordered)
    (hadmits : Admits h calls) :
    ∃ h' m', run h calls = some h' ∧ SameKind h h' ∧ Holds h' m' ∧ Order h.hashOps.equal m calls m' := by
  induction calls generalizing h m with
  | nil => exact ⟨h, m, rfl, .refl h, hm, .nil m⟩
  | cons op calls ih =>
    obtain ⟨h₁, m₁, heq, hkind, hm₁, hstep⟩ := step_spec hm htype hadmits.1
    obtain ⟨h', m', hrun, hkind', hm', horder⟩ := ih hm₁ (hkind.type.trans htype) (hadmits.2 h₁ heq)
    rw [hkind.hashOps] at horder
    refine ⟨h', m', ?_, hkind.trans hkind', hm', .cons hstep horder⟩
    rw [run, heq]
    exact hrun

/-- The list of an ordered hashmap goes through the buckets in use, in the order in which
    the keys were put, and so does a pass in which every removal is a safe one. -/
theorem run_keeps_order (ops : HashOps P HK) (sharedHashKey : HK) (calls : List (OrderedOp P HK))
    (hadmits : Admits (hashmapBaseNew ops .ordered sharedHashKey) calls) :
    ∃ h m l, run (hashmapBaseNew ops .ordered sharedHashKey) calls = some h ∧ Order ops.equal [] calls m ∧
      (∀ i, i ∈ l ↔ i < h.nBuckets ∧ h.dib i ≠ dibRawFree) ∧ l.Nodup ∧ Threaded idxNil h.links l ∧
      l.map h.entry = m ∧
      ∀ remove, SafePass SafeToRemoveOrdered remove h → ∃ h', foreach remove h = some (h', m) := by
  have hempty : Holds (hashmapBaseNew ops .ordered sharedHashKey) [] := holds_resetDirectStorage _
  obtain ⟨h, m, hrun, hkind, hm, horder⟩ := run_spec hempty rfl hadmits
  have htype : h.type = .ordered := hkind.type
  obtain ⟨l, disp, hs, rfl⟩ := hm
  refine ⟨h, _, l, hrun, horder, fun i => ?_, hs.table.nodup, hs.table.threaded htype, rfl, fun remove hsafe => ?_⟩
  · constructor
    · exact fun hi => ⟨hs.inside i hi, fun hfree => (hs.dib_eq_free_iff (hs.inside i hi)).mp hfree hi⟩
    · rintro ⟨hlt, hused⟩
      by_contra hout
      exact hused ((hs.dib_eq_free_iff hlt).mpr hout)
  · have hcond : ∀ h₁ : HashmapBase P HK, h₁.type = h.type → Safe SafeToRemoveOrdered h₁ :=
      fun h₁ htype₁ => safe_of_ordered (htype₁.trans htype)
    obtain ⟨h', hvisit⟩ := foreach_spec hcond hs hsafe
    refine ⟨h', ?_⟩
    rw [hvisit, (Maps.Stored.items hs).ordered htype, map_itemOf_of_ne (by rw [htype]; decide)]

/-- Putting 5 and then NULL, with a value; the second entry is a bucket behind its place. -/
def putNull : List (OrderedOp Nat Unit) :=
  [call (.put 5 5 Maps.memory), call (.put 0 7 Maps.memory)]

theorem admits_putNull : Admits (hashmapBaseNew Maps.natOps .ordered ()) putNull := by
  refine ⟨⟨nofun, fun _ => by decide⟩, fun h₁ heq => ?_⟩
  cases heq
  exact ⟨⟨nofun, fun _ => by decide⟩, fun _ _ => trivial⟩

theorem run_keeps_order_putNull :
    Admits (hashmapBaseNew Maps.natOps .ordered ()) putNull ∧
      ∃ h m l, run (hashmapBaseNew Maps.natOps .ordered ()) putNull = some h ∧
        Order Maps.natOps.equal [] putNull m ∧ (∀ i, i ∈ l ↔ i < h.nBuckets ∧ h.dib i ≠ dibRawFree) ∧
        l.Nodup ∧ Threaded idxNil h.links l ∧ l.map h.entry = m ∧
        ∀ remove, SafePass SafeToRemoveOrdered remove h → ∃ h', foreach remove h = some (h', m) :=
  ⟨admits_putNull, run_keeps_order Maps.natOps () putNull admits_putNull⟩

/-- Whether 5 is the current entry. -/
def atFive (visited : List (Nat × Nat)) : Bool := visited.getLast? == some (5, 5)

/-- The entry with key NULL moves to another bucket when 5 is removed, and the iterator
    stops at its old one. -/
theorem foreach_visits_freed :
    ¬∀ (calls : List (OrderedOp Nat Unit)) (h : HashmapBase Nat Unit) (m : List (Nat × Nat))
        (remove : List (Nat × Nat) → Bool),
      Admits (hashmapBaseNew Maps.natOps .ordered ()) calls →
        run (hashmapBaseNew Maps.natOps .ordered ()) calls = some h → Order Maps.natOps.equal [] calls m →
          ∃ h', foreach remove h = some (h', m) := by
  intro hall
  have hfirst : (call (.put 5 5 Maps.memory)).Reorders Maps.natOps.equal [] [(5, 5)] := .inl rfl
  have horder : Order Maps.natOps.equal [] putNull [(5, 5), (0, 7)] :=
    .cons hfirst (.cons (.inl rfl) (.nil _))
  obtain ⟨h', hvisit⟩ := hall putNull _ _ atFive admits_putNull rfl horder
  have hvisited : ([(5, 5), (0, 0), (0, 7)] : List (Nat × Nat)) = [(5, 5), (0, 7)] :=
    congrArg Prod.snd (Option.some.inj hvisit)
  exact absurd hvisited (by decide)

end OrderedOp

end Elogind
