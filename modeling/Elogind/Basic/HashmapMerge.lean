/-
  Elogind.Basic.HashmapMerge

  Merging a hashmap into another one, which may be the same (_hashmap_merge, set_merge),
  and copying (_hashmap_copy).
-/

import Elogind.Basic.HashmapIterate

namespace Elogind

open Lib HashmapBase List Function

namespace Maps

variable {P HK : Type} [Inhabited P] [DecidableEq P] {maps : Maps P HK} {a b : Nat}
  {o t : HashmapBase P HK} {lo : List Nat} {disp : Nat → Option Nat} {mt mo : List (P × P)}

/-! ## One entry -/

/-- What is put for an entry, if it is put. -/
inductive Merged (t : HashmapBase P HK) (mt : List (P × P)) (item : P × P) (env : ResizeEnv HK) :
    HashmapBase P HK → Int → Prop where
  | found {r : Int} (hfind : t.find mt item.1 ≠ none) (hr : ¬(r < 0 ∧ r ≠ Errno.EEXIST.neg)) :
      Merged t mt item env t r
  | put {t' : HashmapBase P HK} {e : P × P} (hfind : t.find mt item.1 = none) (hkind : SameKind t t')
      (hholds : Holds t' (mt ++ [e])) (hitem : t.type.itemOf e = item) : Merged t mt item env t' 1
  | failed (hfind : t.find mt item.1 = none) (hfailed : env.allocated = false) :
      Merged t mt item env t Errno.ENOMEM.neg

/-- The bucket of another hashmap of the same kind is merged. -/
theorem mergePut_spec (hmt : Holds t mt) (hset : o.type = .set ↔ t.type = .set) {r : Nat}
    (env : ResizeEnv HK)
    (hfits : t.find mt (o.item r).1 = none → Fits t.type (mt.length + 1)) :
    ∃ t' c, mergePut t (o.bucket r).key (o.bucket r).value env = some (t', c) ∧
      Merged t mt (o.item r) env t' c := by
  by_cases htype : t.type = .set
  · have hitem : ∀ v, t.type.itemOf ((o.bucket r).key, v) = o.item r := by
      intro v
      rw [item_eq, htype, hset.mpr htype]
      rfl
    have hput : mergePut t (o.bucket r).key (o.bucket r).value env = t.setPut (o.bucket r).key env := by
      unfold mergePut
      rw [htype]
    obtain ⟨t', c, heq, hout⟩ := setPut_spec hmt (o.bucket r).key env hfits
    refine ⟨t', c, hput.trans heq, ?_⟩
    cases hout with
    | found hfind => exact .found (fun hnone => by cases hfind.symm.trans hnone) (by omega)
    | absent hfind hput =>
      cases hput with
      | put hkind hholds => exact .put hfind hkind hholds (hitem _)
      | failed hfailed => exact .failed hfind hfailed
  · have hvalue : ∀ type : HashmapType, type ≠ .set → ∀ e : P × P, type.itemOf e = e := by
      intro type hne e
      cases type with
      | plain | ordered => rfl
      | set => exact absurd rfl hne
    have hitem : t.type.itemOf ((o.bucket r).key, (o.bucket r).value) = o.item r := by
      rw [item_eq, hvalue _ htype, hvalue _ fun h => htype (hset.mp h)]
      rfl
    have hput : mergePut t (o.bucket r).key (o.bucket r).value env =
        t.hashmapPut (o.bucket r).key (o.bucket r).value env := by
      unfold mergePut
      cases ht : t.type with
      | plain | ordered => rfl
      | set => exact absurd ht htype
    obtain ⟨t', c, heq, hout⟩ := hashmapPut_spec hmt (o.bucket r).key (o.bucket r).value env hfits
    refine ⟨t', c, hput.trans heq, ?_⟩
    cases hout with
    | found hfind =>
      refine .found (fun hnone => by cases hfind.symm.trans hnone) ?_
      split
      · omega
      · exact fun hr => hr.2 rfl
    | absent hfind hput =>
      cases hput with
      | put hkind hholds => exact .put hfind hkind hholds hitem
      | failed hfailed => exact .failed hfind hfailed

/-! ## The loop -/

/-- The items whose key is not there. -/
def missing (t : HashmapBase P HK) (mt items : List (P × P)) : List (P × P) :=
  items.filter fun e => (t.find mt e.1).isNone

/-- What merging does and returns: the items that are missing are put, or there was no
    memory for one of them. -/
inductive Merge (t : HashmapBase P HK) (mt items : List (P × P)) (env : Nat → ResizeEnv HK) :
    HashmapBase P HK → Int → Prop where
  | done {t' : HashmapBase P HK} {s : List (P × P)} (hkind : SameKind t t') (hholds : Holds t' (mt ++ s))
      (hs : s.map t.type.itemOf = missing t mt items) : Merge t mt items env t' 0
  | failed {t' : HashmapBase P HK} {s : List (P × P)} (hkind : SameKind t t') (hholds : Holds t' (mt ++ s))
      (hs : s.map t.type.itemOf <+: missing t mt items) (hfailed : ∃ k, (env k).allocated = false) :
      Merge t mt items env t' Errno.ENOMEM.neg

omit [Inhabited P] [DecidableEq P] in
/-- An item that is there is not missing. -/
theorem missing_cons_of_found {item : P × P} (items : List (P × P)) (h : t.find mt item.1 ≠ none) :
    missing t mt (item :: items) = missing t mt items := by
  refine filter_cons_of_neg ?_
  cases hf : t.find mt item.1 with
  | none => exact absurd hf h
  | some e => simp

omit [Inhabited P] [DecidableEq P] in
theorem missing_cons_of_absent {item : P × P} (items : List (P × P)) (h : t.find mt item.1 = none) :
    missing t mt (item :: items) = item :: missing t mt items := by
  refine filter_cons_of_pos ?_
  rw [h]
  rfl

omit [Inhabited P] [DecidableEq P] in
/-- After an item was put, the others that were missing still are. -/
theorem missing_concat {item e : P × P} {items : List (P × P)} (h : t.type.itemOf e = item)
    (hdistinct : ∀ x ∈ items, t.hashOps.equal item.1 x.1 = false) :
    missing t (mt ++ [e]) items = missing t mt items := by
  apply filter_congr
  intro x hx
  have hkey : e.1 = item.1 := by rw [← h]; rfl
  unfold HashmapBase.find
  rw [FinMap.ofList_append]
  unfold FinMap.union
  have hnone : FinMap.ofList t.hashOps.equal [e] x.1 = none := by
    rw [FinMap.ofList_eq_none]
    intro y hy
    rw [mem_singleton.mp hy, hkey]
    exact hdistinct x hx
  rw [hnone, Option.or_none]

omit [Inhabited P] [DecidableEq P] in
theorem Merge.of_put {t₁ t' : HashmapBase P HK} {items : List (P × P)} {item e : P × P} {r : Int}
    {env : Nat → ResizeEnv HK} (hfind : t.find mt item.1 = none) (hkind : SameKind t t₁)
    (hitem : t.type.itemOf e = item) (hdistinct : ∀ x ∈ items, t.hashOps.equal item.1 x.1 = false)
    (h : Merge t₁ (mt ++ [e]) items env t' r) : Merge t mt (item :: items) env t' r := by
  have hmissing : missing t₁ (mt ++ [e]) items = missing t mt items := by
    rw [← missing_concat hitem hdistinct]
    unfold missing HashmapBase.find
    rw [hkind.hashOps]
  have hcons := missing_cons_of_absent items hfind
  cases h with
  | @done s hkind' hholds hs =>
    refine .done (s := e :: s) (hkind.trans hkind') (by rw [← append_cons] at hholds; exact hholds) ?_
    rw [hcons, ← hmissing, ← hs, hkind.type, map_cons, hitem]
  | @failed s hkind' hholds hs hfailed =>
    refine .failed (s := e :: s) (hkind.trans hkind')
      (by rw [← append_cons] at hholds; exact hholds) ?_ hfailed
    rw [hcons, ← hmissing, map_cons, hitem, prefix_cons_inj]
    rw [hkind.type] at hs
    exact hs

/-- What the loop needs to go on with the buckets `rest` of the other hashmap. -/
structure Merging (maps : Maps P HK) (a b : Nat) (o : HashmapBase P HK) (lo : List Nat)
    (disp : Nat → Option Nat) (rest : List Nat) (t : HashmapBase P HK) (mt : List (P × P)) : Prop where
  other : maps b = some o
  stored : Stored o lo disp
  order : ∃ front, o.iterationOrder lo = front ++ rest
  target : maps a = some t
  holds : Holds t mt
  hashOps : o.hashOps = t.hashOps
  set : o.type = .set ↔ t.type = .set
  /-- Merged into itself, a hashmap has all the keys. -/
  self : a = b → ∀ e ∈ rest.map o.item, t.find mt e.1 ≠ none
  fits : Fits t.type (mt.length + (missing t mt (rest.map o.item)).length)

namespace Merging

variable {x : Nat} {rest : List Nat}

omit [Inhabited P] [DecidableEq P] in
/-- The keys of the other hashmap are distinct. -/
theorem distinct (hm : Merging maps a b o lo disp (x :: rest) t mt) :
    ∀ e ∈ rest.map o.item, t.hashOps.equal (o.item x).1 e.1 = false := by
  intro e he
  obtain ⟨front, horder⟩ := hm.order
  obtain ⟨y, hy, rfl⟩ := mem_map.mp he
  have hx : x ∈ lo := hm.stored.mem_iterationOrder.mp (by rw [horder]; simp)
  have hy' : y ∈ lo := hm.stored.mem_iterationOrder.mp (by rw [horder]; simp [hy])
  cases hequal : t.hashOps.equal (o.item x).1 (o.item y).1 with
  | false => rfl
  | true =>
    rw [← hm.hashOps] at hequal
    have hxy := hm.stored.eq_of_equal hx hy' hequal
    have hnodup := hm.stored.iterationOrder_perm.nodup_iff.mpr hm.stored.table.nodup
    rw [horder, hxy] at hnodup
    exact absurd hy (nodup_cons.mp (nodup_append.mp hnodup).2.1).1

omit [Inhabited P] [DecidableEq P] in
theorem order_tail (hm : Merging maps a b o lo disp (x :: rest) t mt) :
    ∃ front, o.iterationOrder lo = front ++ rest := by
  obtain ⟨front, horder⟩ := hm.order
  refine ⟨front ++ [x], ?_⟩
  rw [horder, append_assoc]
  rfl

omit [Inhabited P] [DecidableEq P] in
/-- The key is there already. -/
theorem found (hm : Merging maps a b o lo disp (x :: rest) t mt) (hfind : t.find mt (o.item x).1 ≠ none) :
    Merging maps a b o lo disp rest t mt := by
  refine ⟨hm.other, hm.stored, hm.order_tail, hm.target, hm.holds, hm.hashOps, hm.set, ?_, ?_⟩
  · exact fun hab e he => hm.self hab e (by rw [map_cons]; simp [he])
  · have hfits := hm.fits
    rwa [map_cons, missing_cons_of_found _ hfind] at hfits

omit [Inhabited P] [DecidableEq P] in
/-- The entry was put. -/
theorem put (hm : Merging maps a b o lo disp (x :: rest) t mt) {t₁ : HashmapBase P HK} {e : P × P}
    (hfind : t.find mt (o.item x).1 = none) (hkind : SameKind t t₁) (hholds : Holds t₁ (mt ++ [e]))
    (hitem : t.type.itemOf e = o.item x) :
    Merging (Function.update maps a (some t₁)) a b o lo disp rest t₁ (mt ++ [e]) := by
  have hne : a ≠ b := by
    intro hab
    exact hm.self hab _ (by rw [map_cons]; exact mem_cons_self) hfind
  have hmissing : missing t₁ (mt ++ [e]) (rest.map o.item) = missing t mt (rest.map o.item) := by
    rw [← missing_concat hitem hm.distinct]
    unfold missing HashmapBase.find
    rw [hkind.hashOps]
  refine ⟨?_, hm.stored, hm.order_tail, update_self .., hholds,
    hm.hashOps.trans hkind.hashOps.symm, by rw [hkind.type]; exact hm.set, fun hab => absurd hab hne, ?_⟩
  · rw [update_of_ne (Ne.symm hne)]
    exact hm.other
  · have hfits := hm.fits
    rw [map_cons, missing_cons_of_absent _ hfind] at hfits
    rw [hkind.type, hmissing]
    exact hfits.mono (by simp only [length_append, length_cons, length_nil]; omega)

end Merging

omit [Inhabited P] [DecidableEq P] in
theorem update_same (h : maps a = some t) : Function.update maps a (some t) = maps := by
  rw [← h, update_eq_self]

/-- One round: the iterator has come to bucket `r`, which stands for `x`, and the rest of
    the loop does what it should. -/
theorem mergeLoop_step (env : Nat → ResizeEnv HK) {n x r : Nat} {i i' : Iterator P} {rest : List Nat}
    {source : HashmapBase P HK} (hsource : maps b = some source)
    (hiterate : source.hashmapIterateEntry i = some (o, i', r)) (hr : r ≠ idxNil)
    (hitem : o.item r = o.item x)
    (hm : Merging (Function.update maps b (some o)) a b o lo disp (x :: rest) t mt)
    (hloop : ∀ maps' t₁ mt₁, Merging maps' a b o lo disp rest t₁ mt₁ →
      ∃ t' c, mergeLoop a b n maps' i' env = some (Function.update maps' a (some t'), c) ∧
        Merge t₁ mt₁ (rest.map o.item) env t' c) :
    ∃ t' c, mergeLoop a b (n + 1) maps i env =
        some (Function.update (Function.update maps b (some o)) a (some t'), c) ∧
      Merge t mt ((x :: rest).map o.item) env t' c := by
  rw [mergeLoop, hsource]
  dsimp only
  rw [hiterate]
  dsimp only
  rw [if_neg hr, hm.target]
  dsimp only
  obtain ⟨t₁, c, heq, hmerged⟩ := mergePut_spec (r := r) hm.holds hm.set (env n) (by
    intro hfind
    rw [hitem] at hfind
    have hfits := hm.fits
    rw [map_cons, missing_cons_of_absent _ hfind] at hfits
    exact hfits.mono (by simp))
  rw [heq]
  dsimp only
  rw [hitem] at hmerged
  cases hmerged with
  | found hfind hc =>
    rw [if_neg hc, update_same hm.target, map_cons]
    obtain ⟨t', c', hrest, hmerge⟩ := hloop _ _ _ (hm.found hfind)
    refine ⟨t', c', hrest, ?_⟩
    have hmissing := missing_cons_of_found (rest.map o.item) hfind
    cases hmerge with
    | done hkind hholds hs => exact .done hkind hholds (hs.trans hmissing.symm)
    | failed hkind hholds hs hfailed => exact .failed hkind hholds (by rw [hmissing]; exact hs) hfailed
  | put hfind hkind hholds hitem' =>
    rw [if_neg (by omega), map_cons]
    obtain ⟨t', c', hrest, hmerge⟩ := hloop _ _ _ (hm.put hfind hkind hholds hitem')
    exact ⟨t', c', by rw [hrest, update_idem], hmerge.of_put hfind hkind hitem' hm.distinct⟩
  | failed hfind hfailed =>
    refine ⟨t, _, rfl, .failed (s := []) (.refl t) (by rw [append_nil]; exact hm.holds) ?_ ⟨n, hfailed⟩⟩
    exact nil_prefix

omit [Inhabited P] in
theorem hashmapIterateEntry_of_nil {i : Iterator P} (hidx : i.idx = idxNil) (o : HashmapBase P HK) :
    o.hashmapIterateEntry i = some (o, { i with idx := idxNil }, idxNil) := by
  unfold hashmapIterateEntry
  split
  · unfold hashmapIterateInInsertionOrder
    rw [if_pos (.inl hidx)]
    rfl
  · unfold hashmapIterateInInternalOrder
    rw [if_pos hidx]

omit [Inhabited P] [DecidableEq P] in
/-- No entry is left. -/
theorem Merge.nil (hmt : Holds t mt) (env : Nat → ResizeEnv HK) : Merge t mt [] env t 0 :=
  .done (s := []) (.refl t) (by rw [append_nil]; exact hmt) rfl

theorem mergeLoop_spec {env : Nat → ResizeEnv HK} {n : Nat} {i : Iterator P} {rest : List Nat}
    (hm : Merging maps a b o lo disp rest t mt) (hp : Pending o i rest) (hn : rest.length < n) :
    ∃ t' c, mergeLoop a b n maps i env = some (Function.update maps a (some t'), c) ∧
      Merge t mt (rest.map o.item) env t' c := by
  induction n generalizing maps i rest t mt with
  | zero => omega
  | succ n ih =>
    have hsame := update_same hm.other
    cases hp with
    | done hidx =>
      rw [mergeLoop, hm.other]
      dsimp only
      rw [hashmapIterateEntry_of_nil hidx]
      dsimp only
      rw [if_pos rfl, hsame]
      exact ⟨t, 0, by rw [update_same hm.target], .nil hm.holds env⟩
    | @next x r rest hreads hitem hnext =>
      obtain ⟨front, horder⟩ := hm.order
      have hpend := (hm.stored.fresh_advanced (i := i) horder hnext).pending hm.stored fun y hy =>
        hm.stored.mem_iterationOrder.mp (by rw [horder]; simp [hy])
      have hstep := mergeLoop_step env (n := n) hm.other hreads.hashmapIterateEntry
        (fun hnil => ?_) hitem (by rw [hsame]; exact hm)
        fun maps' t₁ mt₁ hm' => ih hm' hpend (by rw [length_cons] at hn; omega)
      · rwa [hsame] at hstep
      · have hlt := hm.stored.table.lt_idxPut hreads.inside
        rw [hnil] at hlt
        exact absurd hlt (by decide)

/-! ## Merging and copying -/

/-- The items of a hashmap in the order of iteration. -/
structure Items (o : HashmapBase P HK) (mo items : List (P × P)) : Prop where
  perm : items.Perm (mo.map o.type.itemOf)
  ordered : o.type = .ordered → items = mo.map o.type.itemOf

omit [Inhabited P] [DecidableEq P] in
theorem Stored.items {l : List Nat} (hs : Stored o l disp) :
    Items o (l.map o.entry) ((o.iterationOrder l).map o.item) := by
  have hmap : ∀ s : List Nat, s.map o.item = (s.map o.entry).map o.type.itemOf := by
    intro s
    rw [map_map]
    exact map_congr_left fun i _ => item_eq o i
  rw [hmap]
  refine ⟨(hs.iterationOrder_perm.map _).map _, fun htype => ?_⟩
  rw [iterationOrder_of_ordered htype]

omit [Inhabited P] [DecidableEq P] in
/-- The buckets in use do not depend on the order. -/
theorem mem_iff_of_stored {l l₂ : List Nat} {disp₂ : Nat → Option Nat} (hs : Stored o l disp)
    (hs₂ : Stored o l₂ disp₂) {x : Nat} : x ∈ l ↔ x ∈ l₂ := by
  constructor
  · intro hx
    have hlt := hs.inside x hx
    by_contra hout
    exact (hs.dib_eq_free_iff hlt).mp ((hs₂.dib_eq_free_iff hlt).mpr hout) hx
  · intro hx
    have hlt := hs₂.inside x hx
    by_contra hout
    exact (hs₂.dib_eq_free_iff hlt).mp ((hs.dib_eq_free_iff hlt).mpr hout) hx

omit [Inhabited P] [DecidableEq P] in
/-- To know where the lowest entry is does not change the entries. -/
theorem Stored.holds_knowLowest {l : List Nat} (hs : Stored o l disp) (hmo : Holds o mo) :
    Holds (o.knowLowest ((o.iterationOrder l).head?.getD idxNil)) mo := by
  obtain ⟨l₂, disp₂, hs₂, rfl⟩ := hmo
  refine ⟨l₂, disp₂, ?_, by rw [entry_knowLowest]⟩
  by_cases htype : o.type = .ordered
  · have hsame : o.knowLowest ((o.iterationOrder l).head?.getD idxNil) = o :=
      if_neg fun hcond => hcond.1 htype
    rw [hsame]
    exact hs₂
  · have horder : o.iterationOrder l = o.iterationOrder l₂ := by
      rw [iterationOrder_of_ne htype, iterationOrder_of_ne htype]
      apply filter_congr
      intro x _
      exact decide_eq_decide.mpr (mem_iff_of_stored hs hs₂)
    rw [horder]
    exact hs₂.knowLowest

omit [Inhabited P] [DecidableEq P] in
theorem Merge.of_sameKind {t₀ t' : HashmapBase P HK} {items : List (P × P)} {env : Nat → ResizeEnv HK}
    {c : Int} (hkind : SameKind t t₀) (h : Merge t₀ mt items env t' c) : Merge t mt items env t' c := by
  have hmissing : missing t₀ mt items = missing t mt items := by
    unfold missing HashmapBase.find
    rw [hkind.hashOps]
  cases h with
  | done hkind' hholds hs =>
    rw [hkind.type, hmissing] at hs
    exact .done (hkind.trans hkind') hholds hs
  | failed hkind' hholds hs hfailed =>
    rw [hkind.type, hmissing] at hs
    exact .failed (hkind.trans hkind') hholds hs hfailed

theorem hashmapMerge_spec (env : Nat → ResizeEnv HK) (ha : maps a = some t) (hmt : Holds t mt)
    (hb : maps b = some o) (hmo : Holds o mo) (hops : o.hashOps = t.hashOps)
    (hset : o.type = .set ↔ t.type = .set)
    (hfits : Fits t.type (mt.length + (missing t mt (mo.map o.type.itemOf)).length)) :
    ∃ maps' c t' o' items, hashmapMerge maps a b env = some (maps', c) ∧ maps' a = some t' ∧
      Merge t mt items env t' c ∧ Items o mo items ∧ SameKind o o' ∧ Holds o' mo ∧
      (a ≠ b → maps' b = some o') ∧ ∀ k, k ≠ a → k ≠ b → maps' k = maps k := by
  obtain ⟨l, disp, hs, rfl⟩ := hmo
  obtain ⟨i, hiterate, hfresh⟩ := hs.iterate_first
  have hs' := hs.knowLowest
  have hitems := Stored.items hs
  have horder := iterationOrder_knowLowest o ((o.iterationOrder l).head?.getD idxNil) l
  have hentry := entry_knowLowest o ((o.iterationOrder l).head?.getD idxNil)
  have hitem := item_knowLowest o ((o.iterationOrder l).head?.getD idxNil)
  have hkind := sameKind_knowLowest o ((o.iterationOrder l).head?.getD idxNil)
  have hself : ∀ m, Holds o m → Holds (o.knowLowest ((o.iterationOrder l).head?.getD idxNil)) m :=
    fun m => Stored.holds_knowLowest hs
  generalize o.knowLowest ((o.iterationOrder l).head?.getD idxNil) = o' at *
  -- the target, which is the other hashmap if they are the same
  obtain ⟨t₀, ht₀, hkind₀, hholds₀, hsame₀⟩ : ∃ t₀, update maps b (some o') a = some t₀ ∧
      SameKind t t₀ ∧ Holds t₀ mt ∧ (a = b → t₀ = o') := by
    by_cases hab : a = b
    · subst hab
      rw [ha] at hb
      cases hb
      exact ⟨o', update_self .., hkind, hself mt hmt, fun _ => rfl⟩
    · exact ⟨t, by rw [update_of_ne hab]; exact ha, .refl t, hmt, fun h => absurd h hab⟩
  have hmissing : ∀ items, missing t₀ mt items = missing t mt items := by
    intro items
    unfold missing HashmapBase.find
    rw [hkind₀.hashOps]
  have hlen : (missing t₀ mt ((o.iterationOrder l).map o.item)).length =
      (missing t mt ((l.map o.entry).map o.type.itemOf)).length := by
    rw [hmissing]
    exact (hitems.perm.filter _).length_eq
  have hmerging : Merging (update maps b (some o')) a b o' l disp (o.iterationOrder l) t₀ mt := by
    refine ⟨update_self .., hs', ⟨[], horder⟩, ht₀, hholds₀,
      hkind.hashOps.trans (hops.trans hkind₀.hashOps.symm), ?_, ?_, ?_⟩
    · rw [hkind.type, hkind₀.type]
      exact hset
    · intro hab e he hnone
      obtain ⟨x, hx, rfl⟩ := mem_map.mp he
      obtain ⟨l₂, disp₂, hs₂, rfl⟩ := hholds₀
      rw [hsame₀ hab] at hs₂ hnone
      have hx₂ := (mem_iff_of_stored hs' hs₂).mp (hs.mem_iterationOrder.mp hx)
      have hfalse := FinMap.ofList_eq_none.mp hnone _ (mem_map.mpr ⟨x, hx₂, rfl⟩)
      have hrefl := o'.hashOps.equal_refl (o'.bucket x).key
      exact Bool.false_ne_true (hfalse.symm.trans hrefl)
    · rw [hitem, hlen, hkind₀.type]
      exact hfits
  have hstart : ∃ t' c, hashmapMerge maps a b env =
      some (update (update maps b (some o')) a (some t'), c) ∧
      Merge t₀ mt ((o.iterationOrder l).map o'.item) env t' c := by
    unfold hashmapMerge
    rw [if_neg (by rw [ha]; simp), hb]
    show ∃ t' c, mergeLoop a b (o.nBuckets + 1) maps iteratorFirst env = _ ∧ _
    have hcard : (o.iterationOrder l).length ≤ o.nBuckets := by
      rw [hs.iterationOrder_perm.length_eq, ← hs.size]
      exact hs.sized.nEntries_le
    cases hcases : o.iterationOrder l with
    | nil =>
      rw [hcases] at hiterate
      rw [mergeLoop, hb]
      dsimp only
      rw [hiterate]
      dsimp only [head?_nil, Option.getD_none]
      rw [if_pos rfl]
      exact ⟨t₀, 0, by rw [update_same ht₀], .nil hholds₀ env⟩
    | cons x rest =>
      rw [hcases] at hiterate hfresh hmerging hcard
      have hx : x ∈ l := hs.mem_iterationOrder.mp (by rw [hcases]; simp)
      have hmem : ∀ y ∈ rest, y ∈ l := fun y hy => hs.mem_iterationOrder.mp (by rw [hcases]; simp [hy])
      exact mergeLoop_step env hb hiterate (hs.ne_idxNil hx) rfl hmerging fun maps' t₁ mt₁ hm' =>
        mergeLoop_spec hm' (hfresh.pending hs' hmem) (by rw [length_cons] at hcard; exact hcard)
  obtain ⟨t', c, heq, hmerge⟩ := hstart
  rw [hitem] at hmerge
  refine ⟨_, c, t', o', _, heq, update_self .., hmerge.of_sameKind hkind₀, hitems, hkind,
    ⟨l, disp, hs', by rw [hentry]⟩, ?_, ?_⟩
  · intro hab
    rw [update_of_ne (Ne.symm hab), update_self]
  · intro k hka hkb
    rw [update_of_ne hka, update_of_ne hkb]

/-- What copying does: there is a copy with the same items, or there was no memory. -/
inductive Copy (o : HashmapBase P HK) (mo : List (P × P)) (allocated : Bool) (env : Nat → ResizeEnv HK) :
    Option (HashmapBase P HK) → Prop where
  | copied {t : HashmapBase P HK} {mt : List (P × P)} (hkind : SameKind o t) (hholds : Holds t mt)
      (hitems : Items o mo (mt.map o.type.itemOf)) : Copy o mo allocated env (some t)
  | failed (hfailed : allocated = false ∨ ∃ k, (env k).allocated = false) : Copy o mo allocated env none

omit [DecidableEq P] in
theorem sameKind_hashmapBaseNew (o : HashmapBase P HK) :
    SameKind o (hashmapBaseNew o.hashOps o.type o.sharedHashKey) := ⟨rfl, rfl, rfl⟩

omit [Inhabited P] [DecidableEq P] in
/-- In an empty hashmap every item is missing. -/
theorem missing_nil (items : List (P × P)) : missing t [] items = items := by
  unfold missing
  rw [filter_eq_self]
  intro e _
  rfl

theorem hashmapCopy_spec (allocated : Bool) (env : Nat → ResizeEnv HK) (ha : maps a = some o)
    (hmo : Holds o mo) (hb : maps b = none) (hfits : Fits o.type mo.length) :
    ∃ maps' o', hashmapCopy maps a b allocated env = some maps' ∧ Copy o mo allocated env (maps' b) ∧
      maps' a = some o' ∧ SameKind o o' ∧ Holds o' mo ∧ ∀ k, k ≠ a → k ≠ b → maps' k = maps k := by
  have hab : b ≠ a := by
    rintro rfl
    rw [ha] at hb
    cases hb
  unfold hashmapCopy
  rw [ha]
  dsimp only
  cases allocated with
  | false =>
    refine ⟨maps, o, rfl, ?_, ha, .refl o, hmo, fun k _ _ => rfl⟩
    rw [hb]
    exact .failed (.inl rfl)
  | true =>
    have hkind := sameKind_hashmapBaseNew o
    have hempty : Holds (hashmapBaseNew o.hashOps o.type o.sharedHashKey) [] :=
      holds_resetDirectStorage _
    generalize hashmapBaseNew o.hashOps o.type o.sharedHashKey = t at hkind hempty ⊢
    have ht : update maps b (some t) b = some t := update_self ..
    have ho : update maps b (some t) a = some o := by
      rw [update_of_ne (Ne.symm hab)]
      exact ha
    obtain ⟨maps', c, t', o', items, heq, ht', hmerge, hitems, hkind', hholds', ho', hrest⟩ :=
      hashmapMerge_spec env ht hempty ho hmo
        hkind.hashOps.symm (by rw [hkind.type])
        (by rw [missing_nil, length_map, hkind.type, length_nil, Nat.zero_add]; exact hfits)
    have hothers : ∀ k, k ≠ a → k ≠ b → maps' k = maps k := by
      intro k hka hkb
      rw [hrest k hkb hka, update_of_ne hkb]
    rw [if_neg (by decide), heq]
    cases hmerge with
    | done hkind'' hholds hs =>
      rw [missing_nil, nil_append] at *
      refine ⟨maps', o', if_neg (by decide), ?_, ho' hab, hkind', hholds', hothers⟩
      rw [ht']
      rw [hkind.type] at hs
      exact .copied (hkind.trans hkind'') hholds (by rw [hs]; exact hitems)
    | failed hkind'' hholds hs hfailed =>
      refine ⟨update maps' b none, o', if_pos (Errno.neg_lt_zero _), ?_, ?_, hkind', hholds', ?_⟩
      · rw [update_self]
        exact .failed (.inr hfailed)
      · rw [update_of_ne (Ne.symm hab)]
        exact ho' hab
      · intro k hka hkb
        rw [update_of_ne hkb]
        exact hothers k hka hkb

end Maps

end Elogind
