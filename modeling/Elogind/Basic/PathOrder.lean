/-
  Elogind.Basic.PathOrder

  Paths as keys: their order (`path_compare`), what is hashed of them (`path_hash_func`), and the test for a
  prefix (`path_startswith`).  All three go through the components on their own and differ in what they do
  about a component that is too long.
-/

import Elogind.Basic.PathUtil

namespace Elogind

open Byte Errno Lib List

/-! ## The three loops -/

/-- The loop in `path_compare`. -/
def pathCompareLoop (a b : Bytes) : Ordering :=
  match h : pathFindFirstComponent true a, pathFindFirstComponent true b with
  | .error _, .error _ => strcmp a b
  | .error _, .ok _ => .gt
  | .ok _, .error _ => .lt
  | .ok x, .ok y =>
    if hx : x.length = 0 then if y.length = 0 then .eq else .lt
    else if y.length = 0 then .gt
    else
      (memcmp (x.ret.getD []) (y.ret.getD []) (min x.length y.length)).then
        ((compare x.length y.length).then (pathCompareLoop x.rest y.rest))
termination_by a.length
decreasing_by exact FoundComponent.length_rest_lt h hx

/-- `path_compare`.  There is no text for a null pointer. -/
def pathCompare (a b : Option Bytes) : Ordering :=
  (compare a.isSome b.isSome).then
    ((compare (pathIsAbsolute (a.getD [])) (pathIsAbsolute (b.getD []))).then
      (pathCompareLoop (a.getD []) (b.getD [])))

/-- The loop in `path_hash_func`. -/
def pathHashLoop (addSlash : Bool) (q : Bytes) : Bytes :=
  match h : pathFindFirstComponent true q with
  | .error _ => (if addSlash then [slash] else []) ++ (q ++ [0])
  | .ok x =>
    if hx : x.length = 0 then []
    else (if addSlash then [slash] else []) ++ ((x.ret.getD []).take x.length ++ pathHashLoop true x.rest)
termination_by q.length
decreasing_by exact FoundComponent.length_rest_lt h hx

/-- What `path_hash_func` feeds to the hash. -/
def pathHashFunc (q : Bytes) : Bytes := (if pathIsAbsolute q then [slash] else []) ++ pathHashLoop false q

/-- The loop in `path_startswith_full`. -/
def pathStartswithLoop (acceptDotDot : Bool) (path initial : Bytes) : Option Bytes :=
  match h : pathFindFirstComponent acceptDotDot path, pathFindFirstComponent acceptDotDot initial with
  | .error _, _ => none
  | .ok _, .error _ => none
  | .ok x, .ok y =>
    if y.length = 0 then some (x.ret.getD x.rest)
    else if hlength : x.length = y.length ∧ x.length ≠ 0 then
      if (x.ret.getD []).take x.length = (y.ret.getD []).take x.length then
        pathStartswithLoop acceptDotDot x.rest y.rest
      else none
    else none
termination_by path.length
decreasing_by exact FoundComponent.length_rest_lt h hlength.2

/-- `path_startswith_full` -/
def pathStartswithFull (path initial : Bytes) (acceptDotDot : Bool) : Option Bytes :=
  if pathIsAbsolute path ≠ pathIsAbsolute initial then none else pathStartswithLoop acceptDotDot path initial

/-- `path_startswith` -/
def pathStartswith (path initial : Bytes) : Option Bytes := pathStartswithFull path initial true

/-! ## What the loops see of a path -/

/-- What is found in a path: a component, or the rest from one on that is too long. -/
inductive PathItem where
  | component (c : Bytes)
  | invalid (rest : Bytes)
  deriving DecidableEq

/-- What is found one after the other. -/
def pathItems (p : Bytes) : List PathItem :=
  match h : pathFindFirstComponent true p with
  | .error _ => [.invalid p]
  | .ok x => if hx : x.length = 0 then [] else .component ((x.ret.getD []).take x.length) :: pathItems x.rest
termination_by p.length
decreasing_by exact FoundComponent.length_rest_lt h hx

/-- An invalid rest is after all components. -/
def PathItem.cmp : PathItem → PathItem → Ordering
  | component c, component d => strcmp c d
  | component _, invalid _ => .lt
  | invalid _, component _ => .gt
  | invalid p, invalid q => strcmp p q

instance : Std.TransCmp PathItem.cmp where
  eq_swap {x y} := by
    cases x with
    | component c =>
      cases y with
      | component d => exact strcmp_swap d c
      | invalid q => rfl
    | invalid p =>
      cases y with
      | component d => rfl
      | invalid q => exact strcmp_swap q p
  isLE_trans {x y z} hxy hyz := by
    cases x with
    | component c =>
      cases z with
      | component e =>
        cases y with
        | component d => exact strcmp_isLE_trans hxy hyz
        | invalid q => cases hyz
      | invalid r => rfl
    | invalid p =>
      cases y with
      | component d => cases hxy
      | invalid q =>
        cases z with
        | component e => cases hyz
        | invalid r => exact strcmp_isLE_trans hxy hyz

instance : Std.LawfulEqCmp PathItem.cmp where
  eq_of_compare {x y} h := by
    cases x with
    | component c =>
      cases y with
      | component d => rw [strcmp_eq_iff.mp h]
      | invalid q => cases h
    | invalid p =>
      cases y with
      | component d => cases h
      | invalid q => rw [strcmp_eq_iff.mp h]
  compare_self {x} := by
    cases x with
    | component c => exact strcmp_eq_iff.mpr rfl
    | invalid p => exact strcmp_eq_iff.mpr rfl

/-- A path is read from the component after the first one on, until there is none or one is too long. -/
theorem path_induction {motive : Bytes → Prop}
    (nothing : ∀ p, pathFindFirstComponent true p = .ok ⟨0, none, []⟩ → (∀ i, pathPieces i p = []) → motive p)
    (tooLong : ∀ p u c w, pathFindFirstComponent true p = .error EINVAL → p = u ++ c ++ w → nameMax < c.length →
      (∀ i, pathPieces i p = (i + u.length, c) :: pathPieces (i + u.length + c.length) w) → motive p)
    (component : ∀ p u c v rest, pathFindFirstComponent true p = .ok ⟨c.length, some (c ++ (v ++ rest)), rest⟩ →
      p = u ++ (c ++ (v ++ rest)) → c.length ≤ nameMax → c ≠ [] → slash ∉ c → isComponent c = true →
      (rest ≠ [] → v ≠ []) → (∀ i, pathPieces i p =
        (i + u.length, c) :: pathPieces (i + u.length + c.length + v.length) rest) →
      (∀ i, pathPieces i p = pathPieces (i + u.length) (c ++ (v ++ rest))) → motive rest → motive p)
    (p : Bytes) : motive p := by
  induction hn : p.length using Nat.strongRecOn generalizing p with
  | _ n ih =>
    have hfinds := pathFindFirstComponent_finds p
    generalize hr : pathFindFirstComponent true p = r at hfinds
    cases hfinds with
    | nothing hpieces => exact nothing p hr hpieces
    | tooLong u c w hp hlength hpieces => exact tooLong p u c w hr hp hlength hpieces
    | component u c v rest hp hlength hne hslash hcomponent hv hpieces hret =>
      have hlt : rest.length < n := by
        rw [← hn]
        exact FoundComponent.length_rest_lt hr (length_pos_iff.mpr hne).ne'
      exact component p u c v rest hr hp hlength hne hslash hcomponent hv hpieces hret (ih rest.length hlt rest rfl)

section

variable {p c v rest : Bytes}

theorem pathItems_nothing (h : pathFindFirstComponent true p = .ok ⟨0, none, []⟩) : pathItems p = [] := by
  unfold pathItems
  split
  · rename_i her
    rw [h] at her
    cases her
  · rename_i x hx
    rw [h] at hx
    cases hx
    exact dif_pos rfl

theorem pathItems_tooLong (h : pathFindFirstComponent true p = .error EINVAL) : pathItems p = [.invalid p] := by
  unfold pathItems
  split
  · rfl
  · rename_i hx
    rw [h] at hx
    cases hx

theorem pathItems_component (hne : c ≠ [])
    (h : pathFindFirstComponent true p = .ok ⟨c.length, some (c ++ (v ++ rest)), rest⟩) :
    pathItems p = .component c :: pathItems rest := by
  rw [pathItems]
  split
  · rename_i her
    rw [h] at her
    cases her
  · rename_i x hx
    rw [h] at hx
    cases hx
    rw [dif_neg (length_pos_iff.mpr hne).ne']
    exact congrArg (PathItem.component · :: pathItems rest) take_left

end

theorem pathCompareLoop_ok {a b : Bytes} {x y : FoundComponent} (ha : pathFindFirstComponent true a = .ok x)
    (hb : pathFindFirstComponent true b = .ok y) :
    pathCompareLoop a b =
      if x.length = 0 then if y.length = 0 then .eq else .lt
      else if y.length = 0 then .gt
      else
        (memcmp (x.ret.getD []) (y.ret.getD []) (min x.length y.length)).then
          ((compare x.length y.length).then (pathCompareLoop x.rest y.rest)) := by
  rw [pathCompareLoop]
  split
  · rename_i ha' hb'
    rw [ha] at ha'
    cases ha'
  · rename_i ha' hb'
    rw [ha] at ha'
    cases ha'
  · rename_i ha' hb'
    rw [hb] at hb'
    cases hb'
  · rename_i ha' hb'
    rw [ha] at ha'
    rw [hb] at hb'
    cases ha'
    cases hb'
    exact dite_eq_ite

theorem pathCompareLoop_error {a b : Bytes} (h : pathFindFirstComponent true a = .error EINVAL ∨
    pathFindFirstComponent true b = .error EINVAL) :
    pathCompareLoop a b =
      match pathFindFirstComponent true a, pathFindFirstComponent true b with
      | .error _, .error _ => strcmp a b
      | .error _, .ok _ => .gt
      | .ok _, .error _ => .lt
      | .ok _, .ok _ => .eq := by
  rw [pathCompareLoop]
  split
  · rename_i ha hb
    rw [ha, hb]
  · rename_i ha hb
    rw [ha, hb]
  · rename_i ha hb
    rw [ha, hb]
  · rename_i ha hb
    rw [ha, hb] at h
    rcases h with h | h <;> cases h

/-- The loop compares what is found, item by item. -/
theorem pathCompareLoop_eq (a b : Bytes) :
    pathCompareLoop a b = List.compareLex PathItem.cmp (pathItems a) (pathItems b) := by
  induction a using path_induction generalizing b with
  | nothing a ha =>
    rw [pathItems_nothing ha]
    have hfinds := pathFindFirstComponent_finds b
    generalize hb : pathFindFirstComponent true b = r at hfinds
    cases hfinds with
    | nothing =>
      rw [pathItems_nothing hb, pathCompareLoop_ok ha hb]
      rfl
    | tooLong =>
      rw [pathItems_tooLong hb, pathCompareLoop_error (.inr hb), ha, hb]
      rfl
    | component u d v rest hp hlength hne =>
      rw [pathItems_component hne hb, pathCompareLoop_ok ha hb, if_pos rfl,
        if_neg (length_pos_iff.mpr hne).ne']
      rfl
  | tooLong a u c w ha =>
    rw [pathItems_tooLong ha, pathCompareLoop_error (.inl ha), ha]
    have hfinds := pathFindFirstComponent_finds b
    generalize hb : pathFindFirstComponent true b = r at hfinds
    cases hfinds with
    | nothing =>
      rw [pathItems_nothing hb]
      rfl
    | tooLong =>
      rw [pathItems_tooLong hb, List.compareLex_cons_cons, List.compareLex_nil_nil]
      exact Ordering.then_eq.symm
    | component u d v rest hp hlength hne =>
      rw [pathItems_component hne hb]
      rfl
  | component a u c v rest ha hp hlength hne hslash hcomponent hv hpieces hret ih =>
    rw [pathItems_component hne ha]
    have hfinds := pathFindFirstComponent_finds b
    generalize hb : pathFindFirstComponent true b = r at hfinds
    cases hfinds with
    | nothing =>
      rw [pathItems_nothing hb, pathCompareLoop_ok ha hb, if_neg (length_pos_iff.mpr hne).ne', if_pos rfl]
      rfl
    | tooLong =>
      rw [pathItems_tooLong hb, pathCompareLoop_error (.inr hb), ha, hb]
      rfl
    | component u' d v' rest' hp' hlength' hne' =>
      rw [pathItems_component hne' hb, pathCompareLoop_ok ha hb, if_neg (length_pos_iff.mpr hne).ne',
        if_neg (List.length_pos_iff.mpr hne').ne', List.compareLex_cons_cons, ← ih, ← Ordering.then_assoc]
      apply congrArg (Ordering.then · _)
      show (memcmp (c ++ (v ++ rest)) (d ++ (v' ++ rest')) (min c.length d.length)).then _ = strcmp c d
      rw [← memcmp_then_compare]
      unfold memcmp
      rw [take_append_of_le_length (Nat.min_le_left _ _), take_append_of_le_length (Nat.min_le_right _ _)]

theorem pathCompare_eq (a b : Bytes) :
    pathCompare (some a) (some b) =
      (compare (pathIsAbsolute a) (pathIsAbsolute b)).then
        (List.compareLex PathItem.cmp (pathItems a) (pathItems b)) := by
  rw [← pathCompareLoop_eq]
  rfl

theorem pathCompare_swap (a b : Bytes) : pathCompare (some b) (some a) = (pathCompare (some a) (some b)).swap := by
  rw [pathCompare_eq, pathCompare_eq, Ordering.swap_then, ← Std.OrientedCmp.eq_swap, ← Std.OrientedCmp.eq_swap]

theorem pathCompare_trans {a b c : Bytes} (hab : (pathCompare (some a) (some b)).isLE)
    (hbc : (pathCompare (some b) (some c)).isLE) : (pathCompare (some a) (some c)).isLE := by
  rw [pathCompare_eq, Ordering.isLE_then_iff_and] at *
  obtain ⟨hab, hablt | habrest⟩ := hab
  · exact ⟨Std.TransCmp.isLE_trans hab hbc.1, .inl (Std.TransCmp.lt_of_lt_of_isLE hablt hbc.1)⟩
  · obtain ⟨hbc, hbclt | hbcrest⟩ := hbc
    · exact ⟨Std.TransCmp.isLE_trans hab hbc, .inl (Std.TransCmp.lt_of_isLE_of_lt hab hbclt)⟩
    · exact ⟨Std.TransCmp.isLE_trans hab hbc, .inr (Std.TransCmp.isLE_trans habrest hbcrest)⟩

theorem pathCompare_eq_iff {a b : Bytes} :
    pathCompare (some a) (some b) = .eq ↔ pathIsAbsolute a = pathIsAbsolute b ∧ pathItems a = pathItems b := by
  rw [pathCompare_eq, Ordering.then_eq_eq, Std.LawfulEqCmp.compare_eq_iff_eq, Std.LawfulEqCmp.compare_eq_iff_eq]

/-! ## Hashing -/

/-- What is hashed for the items that are found. -/
def hashedItems (addSlash : Bool) : List PathItem → Bytes
  | [] => []
  | .component c :: items => (if addSlash then [slash] else []) ++ (c ++ hashedItems true items)
  | .invalid p :: _ => (if addSlash then [slash] else []) ++ (p ++ [0])

theorem pathHashLoop_eq (addSlash : Bool) (q : Bytes) : pathHashLoop addSlash q = hashedItems addSlash (pathItems q) := by
  induction q using path_induction generalizing addSlash with
  | nothing q hq =>
    rw [pathItems_nothing hq, pathHashLoop]
    split
    · rename_i h
      rw [hq] at h
      cases h
    · rename_i x h
      rw [hq] at h
      cases h
      rfl
  | tooLong q u c w hq =>
    rw [pathItems_tooLong hq, pathHashLoop]
    split
    · rfl
    · rename_i x h
      rw [hq] at h
      cases h
  | component q u c v rest hq hp hlength hne hslash hcomponent hv hpieces hret ih =>
    rw [pathItems_component hne hq, pathHashLoop]
    split
    · rename_i h
      rw [hq] at h
      cases h
    · rename_i x h
      rw [hq] at h
      cases h
      rw [dif_neg (length_pos_iff.mpr hne).ne', ih, hashedItems, Option.getD_some, take_left]

/-! ## Paths without components that are too long -/

theorem pathComponents_nothing {p : Bytes} (h : ∀ i, pathPieces i p = []) : pathComponents p = [] := by
  rw [pathComponents, h, map_nil]

theorem pathComponents_cons {p c w : Bytes} {i j : Nat} (h : pathPieces 0 p = (i, c) :: pathPieces j w) :
    pathComponents p = c :: pathComponents w := by
  rw [pathComponents, h, map_cons, Pieces.map_snd_pieces]
  rfl

theorem pathItems_of_namesFit {p : Bytes} (h : NamesFit p) : pathItems p = (pathComponents p).map .component := by
  induction p using path_induction with
  | nothing p hp hpieces =>
    rw [pathItems_nothing hp, pathComponents_nothing hpieces]
    rfl
  | tooLong p u c w hp _ hlength hpieces =>
    have hle := h c (pathComponents_cons (hpieces 0) ▸ mem_cons_self)
    omega
  | component p u c v rest hfind hp hlength hne hslash hcomponent hv hpieces hret ih =>
    have hcons := pathComponents_cons (hpieces 0)
    rw [pathItems_component hne hfind, hcons, map_cons, ih]
    intro d hd
    exact h d (hcons ▸ mem_cons_of_mem _ hd)

theorem pathCompare_eq_iff_components {a b : Bytes} (ha : NamesFit a) (hb : NamesFit b) :
    pathCompare (some a) (some b) = .eq ↔
      pathIsAbsolute a = pathIsAbsolute b ∧ pathComponents a = pathComponents b := by
  have hinjective : Function.Injective PathItem.component := fun c d h => PathItem.component.inj h
  rw [pathCompare_eq_iff, pathItems_of_namesFit ha, pathItems_of_namesFit hb, (map_injective_iff.mpr hinjective).eq_iff]

theorem pathStartswithLoop_ok {acceptDotDot : Bool} {path initial : Bytes} {x y : FoundComponent}
    (hpath : pathFindFirstComponent acceptDotDot path = .ok x)
    (hinitial : pathFindFirstComponent acceptDotDot initial = .ok y) :
    pathStartswithLoop acceptDotDot path initial =
      if y.length = 0 then some (x.ret.getD x.rest)
      else if x.length = y.length ∧ x.length ≠ 0 then
        if (x.ret.getD []).take x.length = (y.ret.getD []).take x.length then
          pathStartswithLoop acceptDotDot x.rest y.rest
        else none
      else none := by
  rw [pathStartswithLoop]
  split
  · rename_i h
    rw [hpath] at h
    cases h
  · rename_i h
    rw [hinitial] at h
    cases h
  · rename_i h h'
    rw [hpath] at h
    rw [hinitial] at h'
    cases h
    cases h'
    exact if_congr Iff.rfl rfl dite_eq_ite

/-- The test tells whether the components of one path begin with those of the other, and if so it returns a path
    with the other components, which is only empty if there are none. -/
theorem pathStartswithLoop_spec {path initial : Bytes} (hpath : NamesFit path) (hinitial : NamesFit initial) :
    match pathStartswithLoop true path initial with
    | none => ¬ pathComponents initial <+: pathComponents path
    | some r => pathComponents path = pathComponents initial ++ pathComponents r ∧
        (r = [] ↔ pathComponents r = []) := by
  have hfinds := pathFindFirstComponent_finds initial
  generalize hfind' : pathFindFirstComponent true initial = r at hfinds
  induction path using path_induction generalizing initial r with
  | nothing path hfind hpieces =>
    rw [pathComponents_nothing hpieces]
    cases hfinds with
    | nothing hpieces' =>
      rw [pathStartswithLoop_ok hfind hfind', if_pos rfl, pathComponents_nothing hpieces']
      exact ⟨(pathComponents_nothing pathPieces_nil).symm, iff_of_true rfl (pathComponents_nothing pathPieces_nil)⟩
    | tooLong u' d w' _ hlength' hpieces' =>
      have hle := hinitial d (pathComponents_cons (hpieces' 0) ▸ mem_cons_self)
      omega
    | component u' d v' rest' _ _ hne' _ _ _ hpieces' =>
      rw [pathStartswithLoop_ok hfind hfind', if_neg (length_pos_iff.mpr hne').ne', if_neg (fun h => h.2 rfl),
        pathComponents_cons (hpieces' 0)]
      exact fun h => by cases prefix_nil.mp h
  | tooLong path u c w hfind _ hlength hpieces =>
    have hle := hpath c (pathComponents_cons (hpieces 0) ▸ mem_cons_self)
    omega
  | component path u c v rest hfind hp hlength hne hslash hcomponent hv hpieces hret ih =>
    have hcons := pathComponents_cons (hpieces 0)
    cases hfinds with
    | nothing hpieces' =>
      have hcomponents : pathComponents (c ++ (v ++ rest)) = pathComponents path := by
        rw [pathComponents, pathComponents, hret, Pieces.map_snd_pieces (0 + u.length)]
      rw [pathStartswithLoop_ok hfind hfind', if_pos rfl, pathComponents_nothing hpieces']
      show pathComponents path = [] ++ pathComponents (c ++ (v ++ rest)) ∧
        (c ++ (v ++ rest) = [] ↔ pathComponents (c ++ (v ++ rest)) = [])
      rw [hcomponents, hcons]
      refine ⟨rfl, iff_of_false ?_ (cons_ne_nil _ _)⟩
      intro hnil
      exact hne (append_eq_nil_iff.mp hnil).1
    | tooLong u' d w' _ hlength' hpieces' =>
      have hle := hinitial d (pathComponents_cons (hpieces' 0) ▸ mem_cons_self)
      omega
    | component u' d v' rest' _ _ hne' _ _ _ hpieces' =>
      have hcons' := pathComponents_cons (hpieces' 0)
      rw [pathStartswithLoop_ok hfind hfind', if_neg (length_pos_iff.mpr hne').ne', hcons, hcons']
      simp only [Option.getD_some]
      by_cases hlengths : c.length = d.length ∧ c.length ≠ 0
      · rw [if_pos hlengths, take_left, hlengths.1, take_left]
        by_cases hequal : c = d
        · rw [if_pos hequal, hequal]
          have hrest := ih (fun e he => hpath e (hcons ▸ mem_cons_of_mem _ he))
            (fun e he => hinitial e (hcons' ▸ mem_cons_of_mem _ he)) _ rfl (pathFindFirstComponent_finds rest')
          cases hloop : pathStartswithLoop true rest rest' with
          | none =>
            rw [hloop] at hrest
            exact fun h => hrest (cons_prefix_cons.mp h).2
          | some s =>
            rw [hloop] at hrest
            exact ⟨congrArg (d :: ·) hrest.1, hrest.2⟩
        · rw [if_neg hequal]
          exact fun h => hequal (cons_prefix_cons.mp h).1.symm
      · rw [if_neg hlengths]
        intro h
        rw [(cons_prefix_cons.mp h).1] at hlengths
        exact hlengths ⟨rfl, (length_pos_iff.mpr hne).ne'⟩

theorem pathStartswith_eq_empty_iff {a b : Bytes} (ha : NamesFit a) (hb : NamesFit b) :
    pathStartswith a b = some [] ↔ pathIsAbsolute a = pathIsAbsolute b ∧ pathComponents a = pathComponents b := by
  have hspec := pathStartswithLoop_spec ha hb
  unfold pathStartswith pathStartswithFull
  by_cases habsolute : pathIsAbsolute a = pathIsAbsolute b
  · rw [if_neg (not_not.mpr habsolute), and_iff_right habsolute]
    cases hloop : pathStartswithLoop true a b with
    | none =>
      rw [hloop] at hspec
      refine iff_of_false (fun h => by cases h) ?_
      intro hequal
      exact hspec ⟨[], by rw [append_nil, hequal]⟩
    | some r =>
      rw [hloop] at hspec
      obtain ⟨hcomponents, hempty⟩ := hspec
      rw [Option.some_inj, hempty, hcomponents]
      exact append_right_eq_self.symm
  · rw [if_pos habsolute]
    exact iff_of_false (fun h => by cases h) (fun h => habsolute h.1)

theorem pathHashFunc_congr {a b : Bytes} (h : pathCompare (some a) (some b) = .eq) :
    pathHashFunc a = pathHashFunc b := by
  obtain ⟨habsolute, hitems⟩ := pathCompare_eq_iff.mp h
  unfold pathHashFunc
  rw [pathHashLoop_eq, pathHashLoop_eq, habsolute, hitems]

/-- Paths are keys: they are in an order, equal paths have the same hash, and paths without components that are
    too long are equal if they have the same components, which is when one is a prefix of the other with nothing
    left. -/
theorem path_keys :
    (∀ a b, pathCompare (some b) (some a) = (pathCompare (some a) (some b)).swap) ∧
      (∀ a b c, (pathCompare (some a) (some b)).isLE → (pathCompare (some b) (some c)).isLE →
        (pathCompare (some a) (some c)).isLE) ∧
      (∀ a b, pathCompare (some a) (some b) = .eq → pathHashFunc a = pathHashFunc b) ∧
      ∀ a b, NamesFit a → NamesFit b →
        (pathCompare (some a) (some b) = .eq ↔
          pathIsAbsolute a = pathIsAbsolute b ∧ pathComponents a = pathComponents b) ∧
        (pathCompare (some a) (some b) = .eq ↔ pathStartswith a b = some []) := by
  refine ⟨pathCompare_swap, fun a b c => pathCompare_trans, fun a b => pathHashFunc_congr, ?_⟩
  intro a b ha hb
  have hcompare := pathCompare_eq_iff_components ha hb
  exact ⟨hcompare, hcompare.trans (pathStartswith_eq_empty_iff ha hb).symm⟩

theorem path_keys_slashes :
    pathCompare (some (ascii "//a/./b/")) (some (ascii "/a//b/.")) = .eq ∧
      pathHashFunc (ascii "//a/./b/") = pathHashFunc (ascii "/a//b/.") ∧
      pathStartswith (ascii "//a/./b/") (ascii "/a//b/.") = some [] := by
  obtain ⟨-, -, hhash, hfit⟩ := path_keys
  have hpaths := hfit (ascii "//a/./b/") (ascii "/a//b/.") (by unfold NamesFit; decide) (by unfold NamesFit; decide)
  have hequal := hpaths.1.mpr ⟨by decide, by decide⟩
  exact ⟨hequal, hhash _ _ hequal, hpaths.2.mp hequal⟩

end Elogind
