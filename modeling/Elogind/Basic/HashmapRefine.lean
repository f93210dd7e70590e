/-
  Elogind.Basic.HashmapRefine

  A hashmap or set refines a finite map: every call returns what the same call on the
  finite map returns, as long as the buckets can be allocated.

  In the finite map of a set, the value of a key is the key.
-/

import Elogind.Basic.HashmapMerge

namespace Elogind

open Lib HashmapBase FinMap

variable {P HK : Type}

/-! ## Calls on finite maps -/

/-- Putting a key that is not there: the only other thing that can happen is that there is
    no memory. -/
def PutSpec (eq : P → P → Bool) (f : FinMap P P) (key value : P) (env : ResizeEnv HK) (f' : FinMap P P)
    (ret : Ret P) : Prop :=
  (f' = f.insert eq key value ∧ ret = .code 1) ∨
    (env.allocated = false ∧ f' = f ∧ ret = .code Errno.ENOMEM.neg)

namespace MapOp

variable [Inhabited P] [DecidableEq P]

/-- What a call on a finite map does and returns. -/
def Spec (eq : P → P → Bool) (f : FinMap P P) : MapOp P HK → FinMap P P → Ret P → Prop
  | put key value env, f', ret =>
    match f key with
    | some e => f' = f ∧ ret = .code (if e.2 = value then 0 else Errno.EEXIST.neg)
    | none => PutSpec eq f key value env f' ret
  | setPut key env, f', ret =>
    match f key with
    | some _ => f' = f ∧ ret = .code 0
    | none => PutSpec eq f key key env f' ret
  | replace key value env, f', ret =>
    match f key with
    | some _ => f' = f.insert eq key value ∧ ret = .code 0
    | none => PutSpec eq f key value env f' ret
  | update key value, f', ret =>
    match f key with
    | some _ => f' = f.modify eq key value ∧ ret = .code 0
    | none => f' = f ∧ ret = .code Errno.ENOENT.neg
  | get key, f', ret => f' = f ∧ ret = .pointer (((f key).map Prod.snd).getD default)
  | contains key, f', ret => f' = f ∧ ret = .bool (f key).isSome
  | size, f', ret => f' = f ∧ ret = .number f.size
  | remove key, f', ret => f' = f.erase eq key ∧ ret = .pointer (((f key).map Prod.snd).getD default)
  | removeValue key value, f', ret =>
    if (f key).map Prod.snd = some value then f' = f.erase eq key ∧ ret = .pointer value
    else f' = f ∧ ret = .pointer default
  | removeAndPut oldKey newKey value, f', ret =>
    match f oldKey, f newKey with
    | none, _ => f' = f ∧ ret = .code Errno.ENOENT.neg
    | some _, some _ => f' = f ∧ ret = .code Errno.EEXIST.neg
    | some _, none => f' = (f.erase eq oldKey).insert eq newKey value ∧ ret = .code 0
  | setRemoveAndPut oldKey newKey, f', ret =>
    match f oldKey, f newKey with
    | none, _ => f' = f ∧ ret = .code Errno.ENOENT.neg
    | some _, some _ => f' = f ∧ ret = .code Errno.EEXIST.neg
    | some _, none => f' = (f.erase eq oldKey).insert eq newKey newKey ∧ ret = .code 0
  | first steal, f', ret =>
    (f = .empty ∧ f' = f ∧ ret = .item (default, default)) ∨
      ∃ e, f e.1 = some e ∧ ret = .item e ∧ f' = if steal then f.erase eq e.1 else f
  | clear destructors, f', ret =>
    f' = .empty ∧ ∃ items : List (P × P), ret = .freed items ∧
      if destructors then items.Nodup ∧ ∀ e, e ∈ items ↔ f e.1 = some e else items = []

/-- The entries that there will be can be allocated: a key that is not there is put only
    if there can be buckets for one more. -/
def Fits (h : HashmapBase P HK) : MapOp P HK → Prop
  | put key _ _ | setPut key _ | replace key _ _ =>
    h.lookup key = some idxNil → HashmapBase.Fits h.type (h.nEntries + 1)
  | _ => True

/-- The calls for a hashmap, and those for a set. -/
def Typed (type : HashmapType) : MapOp P HK → Prop
  | put .. | replace .. | update .. | removeAndPut .. => type ≠ .set
  | setPut .. | setRemoveAndPut .. => type = .set
  | _ => True

end MapOp

/-! ## The finite map of a hashmap -/

/-- The hashmap is well-formed, and its entries are those of the finite map. -/
def Represents (ops : HashOps P HK) (h : HashmapBase P HK) (f : FinMap P P) : Prop :=
  ∃ m, h.hashOps = ops ∧ Holds h m ∧ f = FinMap.ofList ops.equal (m.map h.type.itemOf)

variable {ops : HashOps P HK} {h h' : HashmapBase P HK} {f : FinMap P P} {m : List (P × P)} {key value : P}

theorem itemOf_of_ne {type : HashmapType} (htype : type ≠ .set) (e : P × P) : type.itemOf e = e := by
  cases type with
  | plain | ordered => rfl
  | set => exact absurd rfl htype

theorem valueOf_of_ne {type : HashmapType} (htype : type ≠ .set) (e : P × P) : type.valueOf e = e.2 :=
  congrArg Prod.snd (itemOf_of_ne htype e)

theorem valueOf_of_set {type : HashmapType} (htype : type = .set) (e : P × P) : type.valueOf e = e.1 := by
  rw [htype]
  rfl

theorem map_itemOf_of_ne {type : HashmapType} (htype : type ≠ .set) (m : List (P × P)) :
    m.map type.itemOf = m := by
  rw [List.map_congr_left (g := id) fun e _ => itemOf_of_ne htype e, List.map_id]

/-- The finite map after a hashmap was changed. -/
theorem represents_of_sameKind {m' : List (P × P)} (hkind : SameKind h h') (hops : h.hashOps = ops)
    (hholds : Holds h' m') : Represents ops h' (FinMap.ofList ops.equal (m'.map h.type.itemOf)) :=
  ⟨m', hkind.hashOps.trans hops, hholds, by rw [hkind.type]⟩

theorem ofList_without (hops : h.hashOps = ops) (m : List (P × P)) (key : P) :
    FinMap.ofList ops.equal ((h.without m key).map h.type.itemOf) =
      (FinMap.ofList ops.equal (m.map h.type.itemOf)).erase ops.equal key := by
  rw [← ofList_filter ops.keyEquiv, List.filter_map, ← hops]
  rfl

theorem ofList_itemOf (hops : h.hashOps = ops) (m : List (P × P)) (key : P) :
    FinMap.ofList ops.equal (m.map h.type.itemOf) key = (h.find m key).map h.type.itemOf := by
  rw [← hops]
  unfold HashmapBase.find ofList
  rw [List.find?_map]
  rfl

/-- A key is found by the scan or not. -/
theorem lookup_eq_nil_iff (hm : Holds h m) : h.lookup key = some idxNil ↔ h.find m key = none := by
  obtain ⟨l, disp, hs, rfl⟩ := hm
  obtain ⟨idx, heq, hloc⟩ := hs.lookup key
  rw [heq]
  cases hloc with
  | entry hidx hnil hkey hfind =>
    rw [hfind]
    simp [hnil]
  | absent hnone hfind => simp [hfind]

section Calls

variable [Inhabited P]

omit [Inhabited P] in
/-- The entry was put, or there was no memory. -/
theorem represents_putAbsent {env : ResizeEnv HK} {r : Int} (hops : h.hashOps = ops) (hm : Holds h m)
    (hfind : h.find m key = none) (hput : PutAbsent h m key value env h' r) {v : P}
    (hvalue : h.type.valueOf (key, value) = v) :
    ∃ f', Represents ops h' f' ∧ SameKind h h' ∧
      PutSpec ops.equal (FinMap.ofList ops.equal (m.map h.type.itemOf)) key v env f' (.code r) := by
  subst hvalue
  have hnone : ofList ops.equal (m.map h.type.itemOf) key = none := by
    rw [ofList_itemOf hops, hfind]
    rfl
  cases hput with
  | put hkind hholds =>
    refine ⟨_, represents_of_sameKind hkind hops hholds, hkind, .inl ⟨?_, rfl⟩⟩
    rw [List.map_append]
    exact ofList_concat ops.keyEquiv hnone _
  | failed hfailed => exact ⟨_, ⟨m, hops, hm, rfl⟩, .refl h, .inr ⟨hfailed, rfl, rfl⟩⟩

variable [DecidableEq P]

/-- What a call does to a hashmap, and to its finite map. -/
def CallOk (ops : HashOps P HK) (h : HashmapBase P HK) (f : FinMap P P) (op : MapOp P HK) : Prop :=
  ∃ h' ret f', op.call h = some (h', ret) ∧ Represents ops h' f' ∧ SameKind h h' ∧
    op.Spec ops.equal f f' ret

theorem call_put (hrep : Represents ops h f) (key value : P) (env : ResizeEnv HK)
    (htype : h.type ≠ .set) (hfits : MapOp.Fits h (.put key value env)) :
    CallOk ops h f (.put key value env) := by
  obtain ⟨m, hops, hm, rfl⟩ := hrep
  obtain ⟨h', r, heq, hout⟩ := hashmapPut_spec hm key value env fun hfind => by
    rw [← hm.nEntries]
    exact hfits ((lookup_eq_nil_iff hm).mpr hfind)
  have hf := ofList_itemOf hops m key
  have hcall : (MapOp.put key value env).call h = some (h', .code r) := by
    rw [MapOp.call, heq]
    rfl
  cases hout with
  | @found e hfind =>
    refine ⟨h, _, _, hcall, ⟨m, hops, hm, rfl⟩, .refl h, ?_⟩
    rw [MapOp.Spec, hf, hfind, Option.map_some, itemOf_of_ne htype]
    exact ⟨rfl, rfl⟩
  | absent hfind hput =>
    obtain ⟨f', hrep', hkind, hspec⟩ := represents_putAbsent hops hm hfind hput (valueOf_of_ne htype _)
    refine ⟨h', _, f', hcall, hrep', hkind, ?_⟩
    rw [MapOp.Spec, hf, hfind]
    exact hspec

theorem call_setPut (hrep : Represents ops h f) (key : P) (env : ResizeEnv HK) (htype : h.type = .set)
    (hfits : MapOp.Fits h (.setPut key env)) : CallOk ops h f (.setPut key env) := by
  obtain ⟨m, hops, hm, rfl⟩ := hrep
  obtain ⟨h', r, heq, hout⟩ := setPut_spec hm key env fun hfind => by
    rw [← hm.nEntries]
    exact hfits ((lookup_eq_nil_iff hm).mpr hfind)
  have hf := ofList_itemOf hops m key
  have hcall : (MapOp.setPut key env).call h = some (h', .code r) := by
    rw [MapOp.call, heq]
    rfl
  cases hout with
  | found hfind =>
    refine ⟨h, _, _, hcall, ⟨m, hops, hm, rfl⟩, .refl h, ?_⟩
    rw [MapOp.Spec, hf, hfind]
    exact ⟨rfl, rfl⟩
  | absent hfind hput =>
    obtain ⟨f', hrep', hkind, hspec⟩ := represents_putAbsent hops hm hfind hput (valueOf_of_set htype _)
    refine ⟨h', _, f', hcall, hrep', hkind, ?_⟩
    rw [MapOp.Spec, hf, hfind]
    exact hspec

theorem call_replace (hrep : Represents ops h f) (key value : P) (env : ResizeEnv HK)
    (htype : h.type ≠ .set) (hfits : MapOp.Fits h (.replace key value env)) :
    CallOk ops h f (.replace key value env) := by
  obtain ⟨m, hops, hm, rfl⟩ := hrep
  obtain ⟨h', r, heq, hout⟩ := hashmapReplace_spec hm key value env fun hfind => by
    rw [← hm.nEntries]
    exact hfits ((lookup_eq_nil_iff hm).mpr hfind)
  have hf := ofList_itemOf hops m key
  have hcall : (MapOp.replace key value env).call h = some (h', .code r) := by
    rw [MapOp.call, heq]
    rfl
  cases hout with
  | found hfind hkind hholds =>
    refine ⟨h', _, _, hcall, represents_of_sameKind hkind hops hholds, hkind, ?_⟩
    obtain ⟨e, he⟩ := Option.ne_none_iff_exists'.mp hfind
    rw [MapOp.Spec, hf, he]
    refine ⟨?_, rfl⟩
    rw [map_itemOf_of_ne htype, map_itemOf_of_ne htype, hops]
    exact ofList_replace ops.keyEquiv (by rw [← hops]; exact hfind) value
  | absent hfind hput =>
    obtain ⟨f', hrep', hkind, hspec⟩ := represents_putAbsent hops hm hfind hput (valueOf_of_ne htype _)
    refine ⟨h', _, f', hcall, hrep', hkind, ?_⟩
    rw [MapOp.Spec, hf, hfind]
    exact hspec

theorem call_update (hrep : Represents ops h f) (key value : P) (htype : h.type ≠ .set) :
    CallOk ops h f (.update key value) := by
  obtain ⟨m, hops, hm, rfl⟩ := hrep
  have hf := ofList_itemOf hops m key
  rcases hashmapUpdate_spec hm key value with ⟨hfind, heq⟩ | ⟨h', hfind, heq, hkind, hholds⟩
  · refine ⟨h, .code Errno.ENOENT.neg, _, ?_, ⟨m, hops, hm, rfl⟩, .refl h, ?_⟩
    · rw [MapOp.call, heq]
      rfl
    · rw [MapOp.Spec, hf, hfind]
      exact ⟨rfl, rfl⟩
  · refine ⟨h', .code 0, _, ?_, represents_of_sameKind hkind hops hholds, hkind, ?_⟩
    · rw [MapOp.call, heq]
      rfl
    · obtain ⟨e, he⟩ := Option.ne_none_iff_exists'.mp hfind
      rw [MapOp.Spec, hf, he]
      refine ⟨?_, rfl⟩
      rw [map_itemOf_of_ne htype, map_itemOf_of_ne htype, hops]
      exact ofList_modify ops.keyEquiv value

omit [Inhabited P] [DecidableEq P] in
theorem value_eq (hops : h.hashOps = ops) (m : List (P × P)) (key : P) :
    (FinMap.ofList ops.equal (m.map h.type.itemOf) key).map Prod.snd =
      (h.find m key).map h.type.valueOf := by
  rw [ofList_itemOf hops, Option.map_map]
  rfl

theorem call_get (hrep : Represents ops h f) (key : P) : CallOk ops h f (.get key) := by
  obtain ⟨m, hops, hm, rfl⟩ := hrep
  refine ⟨h, .pointer _, _, ?_, ⟨m, hops, hm, rfl⟩, .refl h, rfl, rfl⟩
  rw [MapOp.call, hashmapGet_spec hm, value_eq hops]
  rfl

theorem call_contains (hrep : Represents ops h f) (key : P) : CallOk ops h f (.contains key) := by
  obtain ⟨m, hops, hm, rfl⟩ := hrep
  refine ⟨h, .bool _, _, ?_, ⟨m, hops, hm, rfl⟩, .refl h, rfl, rfl⟩
  rw [MapOp.call, hashmapContains_spec hm, ofList_itemOf hops, Option.isSome_map]
  rfl

omit [Inhabited P] [DecidableEq P] in
theorem distinct_itemOf (hops : h.hashOps = ops) (hm : Holds h m) :
    Distinct ops.equal (m.map h.type.itemOf) := by
  rw [← hops]
  refine distinct_map h.hashOps.keyEquiv hm.distinct fun e => ?_
  exact h.hashOps.equal_refl _

theorem call_size (hrep : Represents ops h f) : CallOk ops h f .size := by
  obtain ⟨m, hops, hm, rfl⟩ := hrep
  refine ⟨h, .number h.nEntries, _, rfl, ⟨m, hops, hm, rfl⟩, .refl h, rfl, ?_⟩
  rw [size_ofList ops.keyEquiv (distinct_itemOf hops hm), List.length_map, hm.nEntries]

theorem call_remove (hrep : Represents ops h f) (key : P) : CallOk ops h f (.remove key) := by
  obtain ⟨m, hops, hm, rfl⟩ := hrep
  have hvalue := value_eq hops m key
  rcases hashmapRemove_spec hm key with ⟨hfind, heq⟩ | ⟨h', e, hfind, heq, hkind, hholds⟩
  · refine ⟨h, .pointer default, _, ?_, ⟨m, hops, hm, rfl⟩, .refl h, ?_, ?_⟩
    · rw [MapOp.call, heq]
      rfl
    · -- there is nothing to be taken out
      rw [← ofList_without hops]
      congr 2
      rw [eq_comm, List.filter_eq_self]
      intro e he
      rw [ofList_eq_none.mp hfind e he]
      rfl
    · rw [hvalue, hfind]
      rfl
  · refine ⟨h', .pointer (h.type.valueOf e), _, ?_, represents_of_sameKind hkind hops hholds, hkind, ?_, ?_⟩
    · rw [MapOp.call, heq]
      rfl
    · exact ofList_without hops m key
    · rw [hvalue, hfind]
      rfl

theorem call_removeValue (hrep : Represents ops h f) (key value : P) :
    CallOk ops h f (.removeValue key value) := by
  obtain ⟨m, hops, hm, rfl⟩ := hrep
  have hvalue := value_eq hops m key
  rcases hashmapRemoveValue_spec hm key value with ⟨hne, heq⟩ | ⟨h', heq', heq, hkind, hholds⟩
  · refine ⟨h, .pointer default, _, ?_, ⟨m, hops, hm, rfl⟩, .refl h, ?_⟩
    · rw [MapOp.call, heq]
      rfl
    · rw [MapOp.Spec, hvalue, if_neg hne]
      exact ⟨rfl, rfl⟩
  · refine ⟨h', .pointer value, _, ?_, represents_of_sameKind hkind hops hholds, hkind, ?_⟩
    · rw [MapOp.call, heq]
      rfl
    · rw [MapOp.Spec, hvalue, if_pos heq']
      exact ⟨ofList_without hops m key, rfl⟩

omit [Inhabited P] [DecidableEq P] in
/-- A key takes the place of another one. -/
theorem ofList_removeAndPut (hops : h.hashOps = ops) {oldKey newKey : P} (hnew : h.find m newKey = none)
    (value : P) :
    FinMap.ofList ops.equal ((h.without m oldKey ++ [(newKey, value)]).map h.type.itemOf) =
      ((FinMap.ofList ops.equal (m.map h.type.itemOf)).erase ops.equal oldKey).insert ops.equal newKey
        (h.type.valueOf (newKey, value)) := by
  have hnone : ofList ops.equal ((h.without m oldKey).map h.type.itemOf) newKey = none := by
    rw [ofList_without hops]
    unfold erase
    split
    · rfl
    · rw [ofList_itemOf hops, hnew]
      rfl
  rw [List.map_append, ← ofList_without hops]
  exact ofList_concat ops.keyEquiv hnone _

theorem represents_removeAndPut {oldKey newKey : P} {r : Int} (hops : h.hashOps = ops) (hm : Holds h m)
    (hout : RemoveAndPutOutcome h m oldKey newKey value h' r) {v : P}
    (hvalue : h.type.valueOf (newKey, value) = v) :
    ∃ f', Represents ops h' f' ∧ SameKind h h' ∧
      (MapOp.removeAndPut oldKey newKey v : MapOp P HK).Spec ops.equal
        (FinMap.ofList ops.equal (m.map h.type.itemOf)) f' (.code r) := by
  have hold' := ofList_itemOf hops m oldKey
  have hnew' := ofList_itemOf hops m newKey
  cases hout with
  | missing hold =>
    refine ⟨_, ⟨m, hops, hm, rfl⟩, .refl h, ?_⟩
    rw [MapOp.Spec, hold', hold]
    exact ⟨rfl, rfl⟩
  | found hold hnew =>
    refine ⟨_, ⟨m, hops, hm, rfl⟩, .refl h, ?_⟩
    obtain ⟨e, he⟩ := Option.ne_none_iff_exists'.mp hold
    obtain ⟨e', he'⟩ := Option.ne_none_iff_exists'.mp hnew
    rw [MapOp.Spec, hold', hnew', he, he']
    exact ⟨rfl, rfl⟩
  | moved hold hnew hkind hholds =>
    refine ⟨_, represents_of_sameKind hkind hops hholds, hkind, ?_⟩
    obtain ⟨e, he⟩ := Option.ne_none_iff_exists'.mp hold
    rw [MapOp.Spec, hold', hnew', he, hnew]
    refine ⟨?_, rfl⟩
    rw [ofList_removeAndPut hops hnew, hvalue]

theorem call_removeAndPut (hrep : Represents ops h f) (oldKey newKey value : P) (htype : h.type ≠ .set) :
    CallOk ops h f (.removeAndPut oldKey newKey value) := by
  obtain ⟨m, hops, hm, rfl⟩ := hrep
  obtain ⟨h', r, heq, hout⟩ := hashmapRemoveAndPut_spec hm oldKey newKey value
  obtain ⟨f', hrep', hkind, hspec⟩ := represents_removeAndPut hops hm hout (valueOf_of_ne htype _)
  refine ⟨h', _, f', ?_, hrep', hkind, hspec⟩
  rw [MapOp.call, heq]
  rfl

theorem call_setRemoveAndPut (hrep : Represents ops h f) (oldKey newKey : P) (htype : h.type = .set) :
    CallOk ops h f (.setRemoveAndPut oldKey newKey) := by
  obtain ⟨m, hops, hm, rfl⟩ := hrep
  obtain ⟨h', r, heq, hout⟩ := hashmapRemoveAndPut_spec hm oldKey newKey default
  obtain ⟨f', hrep', hkind, hspec⟩ := represents_removeAndPut hops hm hout (valueOf_of_set htype _)
  refine ⟨h', _, f', ?_, hrep', hkind, hspec⟩
  rw [MapOp.call, heq]
  rfl

omit [Inhabited P] [DecidableEq P] in
/-- An item is the entry of its key. -/
theorem ofList_eq_some_of_mem (hops : h.hashOps = ops) (hm : Holds h m) {e : P × P} :
    FinMap.ofList ops.equal (m.map h.type.itemOf) e.1 = some e ↔ e ∈ m.map h.type.itemOf := by
  rw [ofList_eq_some ops.keyEquiv (distinct_itemOf hops hm)]
  exact and_iff_left (ops.equal_refl e.1)

theorem call_first (hrep : Represents ops h f) (steal : Bool) : CallOk ops h f (.first steal) := by
  obtain ⟨m, hops, hm, rfl⟩ := hrep
  obtain ⟨h', e, heq, hout⟩ := hashmapFirstKeyAndValue_spec hm steal
  have hcall : (MapOp.first steal).call h = some (h', .item e) := by
    rw [MapOp.call, heq]
    rfl
  cases hout with
  | empty hempty =>
    refine ⟨h, _, _, hcall, ⟨m, hops, hm, rfl⟩, .refl h, .inl ⟨?_, rfl, rfl⟩⟩
    rw [hempty]
    rfl
  | @entry _ e he hfirst hkind hholds =>
    refine ⟨h', _, _, hcall, represents_of_sameKind hkind hops hholds, hkind,
      .inr ⟨h.type.itemOf e, ?_, rfl, ?_⟩⟩
    · rw [ofList_eq_some_of_mem hops hm]
      exact List.mem_map.mpr ⟨e, he, rfl⟩
    · cases steal with
      | false => rfl
      | true => exact ofList_without hops m e.1

theorem call_clear (hrep : Represents ops h f) (destructors : Bool) :
    CallOk ops h f (.clear destructors) := by
  obtain ⟨m, hops, hm, rfl⟩ := hrep
  obtain ⟨h', freed, heq, hkind, hholds, hperm⟩ := hashmapClear_spec hm destructors
  refine ⟨h', .freed freed, _, ?_, represents_of_sameKind hkind hops hholds, hkind, rfl, freed, rfl, ?_⟩
  · rw [MapOp.call, heq]
    rfl
  · cases destructors with
    | false => exact hperm.eq_nil
    | true =>
      have hnodup := nodup_of_distinct ops.keyEquiv (distinct_itemOf hops hm)
      refine ⟨hperm.nodup_iff.mpr hnodup, fun e => ?_⟩
      rw [hperm.mem_iff, ofList_eq_some_of_mem hops hm]
      rfl

/-- Every call on one hashmap returns what the finite map returns. -/
theorem call_spec (hrep : Represents ops h f) (op : MapOp P HK) (htyped : op.Typed h.type)
    (hfits : op.Fits h) : CallOk ops h f op := by
  cases op with
  | put key value env => exact call_put hrep key value env htyped hfits
  | setPut key env => exact call_setPut hrep key env htyped hfits
  | replace key value env => exact call_replace hrep key value env htyped hfits
  | update key value => exact call_update hrep key value htyped
  | get key => exact call_get hrep key
  | contains key => exact call_contains hrep key
  | size => exact call_size hrep
  | remove key => exact call_remove hrep key
  | removeValue key value => exact call_removeValue hrep key value
  | removeAndPut oldKey newKey value => exact call_removeAndPut hrep oldKey newKey value htyped
  | setRemoveAndPut oldKey newKey => exact call_setRemoveAndPut hrep oldKey newKey htyped
  | first steal => exact call_first hrep steal
  | clear destructors => exact call_clear hrep destructors

/-- NULL is an empty finite map that stays so. -/
theorem callNull_spec (eq : P → P → Bool) {op : MapOp P HK} {ret : Ret P} (h : op.callNull = some ret) :
    op.Spec eq .empty .empty ret := by
  have herase : ∀ key, erase eq (.empty : FinMap P P) key = .empty := by
    intro key
    funext x
    unfold erase empty
    split <;> rfl
  cases op with
  | put | setPut | replace | update => cases h
  | get key | contains key | removeValue key value | removeAndPut oldKey newKey value
  | setRemoveAndPut oldKey newKey => cases h; exact ⟨rfl, rfl⟩
  | size =>
    cases h
    refine ⟨rfl, ?_⟩
    unfold size empty
    simp
  | remove key => cases h; exact ⟨(herase key).symm, rfl⟩
  | first steal => cases h; exact .inl ⟨rfl, rfl, rfl⟩
  | clear destructors =>
    cases h
    refine ⟨rfl, [], rfl, ?_⟩
    cases destructors with
    | false => rfl
    | true =>
      refine ⟨.nil, fun e => ?_⟩
      show e ∈ [] ↔ none = some e
      simp

end Calls

end Elogind
