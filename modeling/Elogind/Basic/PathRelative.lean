/-
  Elogind.Basic.PathRelative

  The relative path from one directory to another (`path_make_relative`), and where a path leads when each `..`
  removes the name before it.
-/

import Elogind.Basic.PathSimplify

namespace Elogind

open Byte Errno Lib List

/-- `PATH_MAX`, which counts the byte at the end. -/
def pathMax : Nat := 4096

/-- Where something is left of a path, it is less than there was. -/
theorem FoundComponent.length_rest_lt_of_ne {acceptDotDot : Bool} {p : Bytes} {x : FoundComponent}
    (h : pathFindFirstComponent acceptDotDot p = .ok x) (hx : ¬ x.rest.isEmpty = true) :
    x.rest.length < p.length := by
  apply FoundComponent.length_rest_lt h
  have hfinds := pathFindFirstComponent_finds p
  rw [pathFindFirstComponent_accept h] at hfinds
  cases hfinds with
  | nothing => exact absurd rfl hx
  | component u c v rest hp hlength hne => exact (length_pos_iff.mpr hne).ne'

/-! ## Valid paths -/

/-- The loop in `path_is_valid_full`, from a place in the path on. -/
def pathIsValidLoop (p : Bytes) (acceptDotDot : Bool) (e : Bytes) : Bool :=
  match h : pathFindFirstComponent acceptDotDot e with
  | .error _ => false
  | .ok x =>
    if p.length - x.rest.length ≥ pathMax then false
    else if hrest : x.rest.isEmpty then true
    else pathIsValidLoop p acceptDotDot x.rest
termination_by e.length
decreasing_by exact FoundComponent.length_rest_lt_of_ne h hrest

/-- `path_is_valid_full` -/
def pathIsValidFull (p : Bytes) (acceptDotDot : Bool) : Bool :=
  if p.isEmpty then false else pathIsValidLoop p acceptDotDot p

/-- `path_is_valid` -/
def pathIsValid (p : Bytes) : Bool := pathIsValidFull p true

theorem pathIsValidLoop_spec {p e : Bytes} (h : pathIsValidLoop p true e = true) :
    NamesFit e ∧ p.length < pathMax := by
  induction e using path_induction with
  | nothing e hfind hpieces =>
    rw [pathIsValidLoop] at h
    refine ⟨?_, ?_⟩
    · rw [NamesFit, pathComponents_nothing hpieces]
      exact fun c hc => absurd hc not_mem_nil
    · split at h
      · cases h
      · rename_i x hx
        rw [hfind] at hx
        cases hx
        split at h
        · cases h
        · rename_i hlt
          exact Nat.lt_of_not_le hlt
  | tooLong e u c w hfind _ _ _ =>
    rw [pathIsValidLoop] at h
    split at h
    · cases h
    · rename_i x hx
      rw [hfind] at hx
      cases hx
  | component e u c v rest hfind hsplit hlength hne hslash hcomponent hv hpieces hret ih =>
    have hfits : NamesFit rest → NamesFit e := by
      intro hrest
      rw [NamesFit, pathComponents_cons (hpieces 0)]
      exact forall_mem_cons.mpr ⟨hlength, hrest⟩
    rw [pathIsValidLoop] at h
    split at h
    · cases h
    · rename_i x hx
      rw [hfind] at hx
      cases hx
      split at h
      · cases h
      rename_i hlt
      split at h
      · rename_i hrest
        have hnil : rest = [] := isEmpty_iff.mp hrest
        subst hnil
        refine ⟨hfits ?_, Nat.lt_of_not_le hlt⟩
        exact fun c hc => absurd hc not_mem_nil
      · obtain ⟨hrestFit, hshort⟩ := ih h
        exact ⟨hfits hrestFit, hshort⟩

/-- In a valid path no component is too long, and neither is the path. -/
theorem pathIsValid_spec {p : Bytes} (h : pathIsValid p = true) : NamesFit p ∧ p.length < pathMax := by
  unfold pathIsValid pathIsValidFull at h
  split at h
  · cases h
  · exact pathIsValidLoop_spec h

/-! ## Making a path relative -/

/-- How the first loop in `path_make_relative` ends: with the end of `from`, or with what is left of it after a
    component in which the paths differ, and where `to` goes on. -/
inductive Parting where
  | inside (t : Option Bytes)
  | differ (left : Bytes) (t : Option Bytes)

/-- The first loop in `path_make_relative`, which strips the common part. -/
def stripCommon (fromPath toPath : Bytes) : Result Parting :=
  match h : pathFindFirstComponent true fromPath, pathFindFirstComponent true toPath with
  | .error e, _ => .error e
  | .ok _, .error e => .error e
  | .ok f, .ok t =>
    if hf : f.length = 0 then .ok (.inside (if t.length = 0 then none else t.ret))
    else if f.length ≠ t.length ∨ (f.ret.getD []).take f.length ≠ (t.ret.getD []).take f.length then
      .ok (.differ f.rest t.ret)
    else stripCommon f.rest t.rest
termination_by fromPath.length
decreasing_by exact FoundComponent.length_rest_lt h hf

/-- The second loop, which counts `n_parents`. -/
def countParents (fromPath : Bytes) (nParents : UInt32) : Result UInt32 :=
  match h : pathFindFirstComponent false fromPath with
  | .error e => .error e
  | .ok f => if hf : f.length = 0 then .ok nParents else countParents f.rest (nParents + 1)
termination_by fromPath.length
decreasing_by exact FoundComponent.length_rest_lt h hf

/-- As many `../`. -/
def dotDotSlashes : Nat → Bytes
  | 0 => []
  | n + 1 => [dot, dot, slash] ++ dotDotSlashes n

/-- The path in memory is simplified, and has to be valid then. -/
def simplifiedAndValid (p : Bytes) : Option (Result Bytes) :=
  (pathSimplify (p ++ [0])).map fun m => if pathIsValid (cString m 0) then .ok (cString m 0) else .error EINVAL

/-- `path_make_relative` after the counting.  There is no result where it writes outside of the memory that it
    allocates, whose size is computed with 32 bits as far as it is about the parents. -/
def writeParents (nParents : UInt32) (t : Bytes) : Option (Result Bytes) :=
  if t.isEmpty then
    if (nParents * 3).toNat > pathMax then some (.error EINVAL)
    else if nParents.toNat * 3 > (nParents * 3).toNat ∨ nParents = 0 then none
    else some (.ok (dotDotSlashes nParents.toNat).dropLast)
  else if nParents.toNat * 3 + (t.length + 1) > (nParents * 3 + 1).toNat + t.length then none
  else simplifiedAndValid (dotDotSlashes nParents.toNat ++ t)

/-- `path_make_relative` -/
def pathMakeRelative (fromPath toPath : Bytes) : Option (Result Bytes) :=
  if !pathIsAbsolute fromPath || !pathIsAbsolute toPath then some (.error EINVAL)
  else
    match stripCommon fromPath toPath with
    | .error e => some (.error e)
    | .ok (.inside none) => some (.ok [dot])
    | .ok (.inside (some t)) => simplifiedAndValid t
    | .ok (.differ left t) =>
      match countParents left 1 with
      | .error e => some (.error e)
      | .ok nParents => writeParents nParents (t.getD [])

/-! ## Where a path leads -/

/-- The directory that a name leads to.  A directory is the names below the root, from the last one to the first. -/
def enterDir (dir : List Bytes) (c : Bytes) : List Bytes := if c = [dot, dot] then dir.tail else c :: dir

/-- Where these names lead from a directory. -/
def follow (dir : List Bytes) (cs : List Bytes) : List Bytes := cs.foldl enterDir dir

/-- The directory that a path leads to. -/
def resolved (p : Bytes) : List Bytes := follow [] (pathComponents p)

/-- How many directories these names leave upwards from where they start. -/
def climbs : List Bytes → Nat
  | [] => 0
  | c :: cs => if c = [dot, dot] then climbs cs + 1 else climbs cs - 1

theorem follow_append (dir cs ds : List Bytes) : follow dir (cs ++ ds) = follow (follow dir cs) ds :=
  foldl_append

/-- Following names changes the last directories only, as many as the names climb. -/
theorem follow_eq (dir cs : List Bytes) : follow dir cs = follow [] cs ++ dir.drop (climbs cs) := by
  induction cs generalizing dir with
  | nil => rfl
  | cons c cs ih =>
    show follow (enterDir dir c) cs = follow (enterDir [] c) cs ++ _
    rw [ih (enterDir dir c), ih (enterDir [] c), climbs]
    unfold enterDir
    by_cases hc : c = [dot, dot]
    · rw [if_pos hc, if_pos hc, if_pos hc, drop_tail]
      simp
    · rw [if_neg hc, if_neg hc, if_neg hc, append_assoc]
      cases climbs cs with
      | zero => rfl
      | succ k => simp

theorem climbs_le (cs : List Bytes) : climbs cs ≤ cs.length := by
  induction cs with
  | nil => exact Nat.le_refl 0
  | cons c cs ih =>
    rw [climbs, length_cons]
    split
    · omega
    · omega

theorem follow_names {cs : List Bytes} (hcs : [dot, dot] ∉ cs) (dir : List Bytes) :
    follow dir cs = cs.reverse ++ dir := by
  induction cs generalizing dir with
  | nil => rfl
  | cons c cs ih =>
    rw [mem_cons, not_or] at hcs
    show follow (enterDir dir c) cs = _
    rw [ih hcs.2, enterDir, if_neg (Ne.symm hcs.1), reverse_cons, append_assoc]
    rfl

theorem follow_parents (n : Nat) (dir : List Bytes) : follow dir (List.replicate n [dot, dot]) = dir.drop n := by
  induction n generalizing dir with
  | zero => rfl
  | succ n ih =>
    show follow (enterDir dir [dot, dot]) (replicate n [dot, dot]) = _
    rw [ih, enterDir, if_pos rfl, drop_tail]

/-- Two directories lead to the same place along some names if they agree in what the names do not leave. -/
theorem follow_eq_iff (dir dir' cs : List Bytes) :
    follow dir cs = follow dir' cs ↔ dir.drop (climbs cs) = dir'.drop (climbs cs) := by
  rw [follow_eq dir, follow_eq dir', append_cancel_left_eq]

/-! ## What the loops find -/

/-- A text that begins at a component of a path. -/
def GoesOn (p t : Bytes) : Prop := (∀ c ∈ t, c ∈ p) ∧ pathIsAbsolute t = false ∧ t ≠ []

/-- What the first loop finds: the components that the paths share, and those that are left. -/
inductive Parts (p q : Bytes) : Result Parting → Prop
  | failed (e : Errno) : Parts p q (.error e)
  | same (hto : pathComponents q = pathComponents p) : Parts p q (.ok (.inside none))
  | inside (t : Bytes) (ht : GoesOn q t) (hto : pathComponents q = pathComponents p ++ pathComponents t) :
      Parts p q (.ok (.inside (some t)))
  | differ (common : List Bytes) (c left : Bytes) (t : Option Bytes) (ht : ∀ t', t = some t' → GoesOn q t')
      (hfrom : pathComponents p = common ++ c :: pathComponents left)
      (hto : pathComponents q = common ++ pathComponents (t.getD []))
      (hhead : (pathComponents (t.getD [])).head? ≠ some c) : Parts p q (.ok (.differ left t))

/-- What is found of a path that has a component. -/
theorem goesOn_component {p u c v rest : Bytes} (hp : p = u ++ (c ++ (v ++ rest))) (hne : c ≠ []) (hslash : slash ∉ c) :
    GoesOn p (c ++ (v ++ rest)) := by
  refine ⟨fun d hd => hp ▸ mem_append_right _ hd, ?_, fun h => hne (append_eq_nil_iff.mp h).1⟩
  obtain ⟨d, c, rfl⟩ := exists_cons_of_ne_nil hne
  apply decide_eq_false
  intro h
  exact hslash (Option.some.inj h ▸ mem_cons_self)

theorem GoesOn.mono {p q t : Bytes} (h : GoesOn q t) (hq : ∀ c ∈ q, c ∈ p) : GoesOn p t :=
  ⟨fun c hc => hq c (h.1 c hc), h.2⟩

/-- The components that are the same in both paths are added to what is found behind them. -/
theorem Parts.cons {p q p' q' c : Bytes} {r : Result Parting} (h : Parts p' q' r)
    (hp : pathComponents p = c :: pathComponents p') (hq : pathComponents q = c :: pathComponents q')
    (hmem : ∀ d ∈ q', d ∈ q) : Parts p q r := by
  cases h with
  | failed e => exact .failed e
  | same hto => exact .same (by rw [hp, hq, hto])
  | inside t ht hto => exact .inside t (ht.mono hmem) (by rw [hp, hq, hto, cons_append])
  | differ common d left t ht hfrom hto hhead =>
    exact .differ (c :: common) d left t (fun t' h => (ht t' h).mono hmem) (by rw [hp, hfrom, cons_append])
      (by rw [hq, hto, cons_append]) hhead

theorem stripCommon_parts (p q : Bytes) : Parts p q (stripCommon p q) := by
  induction p using path_induction generalizing q with
  | nothing p hfind hpieces =>
    rw [stripCommon]
    split
    · exact .failed _
    · exact .failed _
    · rename_i f t hf ht
      rw [hfind] at hf
      cases hf
      -- nothing is left of `p`: `q` is equal or inside
      have hfinds := pathFindFirstComponent_finds q
      rw [ht] at hfinds
      have hnone := pathComponents_nothing hpieces
      cases hfinds with
      | nothing hpieces' => exact .same (by rw [hnone, pathComponents_nothing hpieces'])
      | component u c v rest hq hlength hne hslash hcomponent hv hpieces' hret =>
        rw [if_neg (length_pos_iff.mpr hne).ne']
        apply Parts.inside _ (goesOn_component hq hne hslash)
        rw [hnone, nil_append, pathComponents, pathComponents, hret, Pieces.map_snd_pieces (0 + u.length)]
  | tooLong p u c w hfind _ _ _ =>
    rw [stripCommon]
    split
    · exact .failed _
    · exact .failed _
    · rename_i f t hf ht
      rw [hfind] at hf
      cases hf
  | component p u c v rest hfind hsplit hlength hne hslash hcomponent hv hpieces hret ih =>
    have hcons := pathComponents_cons (hpieces 0)
    have hpos := length_pos_iff.mpr hne
    rw [stripCommon]
    split
    · exact .failed _
    · exact .failed _
    · rename_i f t hf ht
      rw [hfind] at hf
      cases hf
      rw [dif_neg hpos.ne']
      have hfinds := pathFindFirstComponent_finds q
      rw [ht] at hfinds
      cases hfinds with
      | nothing hpieces' =>
        rw [if_pos (.inl hpos.ne')]
        refine .differ [] c rest none (fun t' h => by cases h) hcons ?_ ?_
        · exact (pathComponents_nothing hpieces').trans (pathComponents_nothing pathPieces_nil).symm
        · exact Option.some_ne_none c ∘ Eq.symm
      | component u' d v' rest' hq hlength' hne' hslash' hcomponent' hv' hpieces' hret' =>
        have hcons' := pathComponents_cons (hpieces' 0)
        have hgoes := goesOn_component hq hne' hslash'
        simp only [Option.getD_some, take_left]
        split
        · -- the components differ, and `..` starts here
          rename_i hdiffer
          refine .differ [] c rest (some _) (fun t' h => Option.some.inj h ▸ hgoes) hcons ?_ ?_
          · rw [Option.getD_some, nil_append, pathComponents, pathComponents, hret',
              Pieces.map_snd_pieces (0 + u'.length)]
          · have hagain : pathComponents (d ++ (v' ++ rest')) = d :: pathComponents rest' := by
              rw [← hcons', pathComponents, pathComponents, hret', Pieces.map_snd_pieces (0 + u'.length)]
            rw [Option.getD_some, hagain, head?_cons]
            intro h
            obtain rfl : d = c := Option.some.inj h
            rcases hdiffer with hdiffer | hdiffer
            · exact hdiffer rfl
            · exact hdiffer take_left.symm
        · rename_i hsame
          -- the same component: it is stripped from both
          rw [not_or, not_not, not_not] at hsame
          have heq : c = d := by
            rw [hsame.2, hsame.1, take_left]
          refine (ih rest').cons hcons (heq ▸ hcons') ?_
          intro e he
          rw [hq]
          simp [he]

theorem pathFindFirstComponent_refuses {p : Bytes} {x : FoundComponent}
    (h : pathFindFirstComponent false p = .ok x) (hx : x.length = 2) : (x.ret.getD []).take 2 ≠ [dot, dot] := by
  unfold pathFindFirstComponent at h
  simp only [Bool.not_false, Bool.true_and] at h
  split at h
  · cases h
    cases hx
  split at h
  · cases h
    cases hx
  split at h
  · cases h
  split at h
  · cases h
  · rename_i hdots
    cases h
    intro htake
    apply hdots
    rw [Bool.and_eq_true]
    exact ⟨decide_eq_true hx, decide_eq_true htake⟩

/-- The second loop refuses any `..`. -/
theorem countParents_spec {p : Bytes} {n m : UInt32} (h : countParents p n = .ok m) :
    [dot, dot] ∉ pathComponents p ∧ m.toNat = (n.toNat + (pathComponents p).length) % 2 ^ 32 := by
  induction p using path_induction generalizing n with
  | nothing p hfind hpieces =>
    rw [countParents] at h
    split at h
    · cases h
    · rename_i f hf
      have haccept := pathFindFirstComponent_accept hf
      rw [hfind] at haccept
      cases haccept
      cases h
      rw [pathComponents_nothing hpieces]
      exact ⟨not_mem_nil, (Nat.mod_eq_of_lt (UInt32.toNat_lt _)).symm⟩
  | tooLong p u c w hfind _ _ _ =>
    rw [countParents] at h
    split at h
    · cases h
    · rename_i f hf
      have haccept := pathFindFirstComponent_accept hf
      rw [hfind] at haccept
      cases haccept
  | component p u c v rest hfind hsplit hlength hne hslash hcomponent hv hpieces hret ih =>
    rw [countParents] at h
    split at h
    · cases h
    · rename_i f hf
      have haccept := pathFindFirstComponent_accept hf
      rw [hfind] at haccept
      cases haccept
      rw [dif_neg (length_pos_iff.mpr hne).ne'] at h
      obtain ⟨hrest, hm⟩ := ih h
      rw [pathComponents_cons (hpieces 0), mem_cons, not_or, length_cons]
      refine ⟨⟨?_, hrest⟩, ?_⟩
      · rintro rfl
        exact pathFindFirstComponent_refuses hf rfl rfl
      · rw [hm, UInt32.toNat_add]
        have hone : (1 : UInt32).toNat = 1 := rfl
        omega

/-! ## The texts that are returned -/

theorem pathComponents_dotDotSlashes (n : Nat) (t : Bytes) :
    pathComponents (dotDotSlashes n ++ t) = List.replicate n [dot, dot] ++ pathComponents t := by
  induction n with
  | zero => rfl
  | succ n ih =>
    have hdots : pathComponents [dot, dot] = [[dot, dot]] := by decide
    show pathComponents ([dot, dot] ++ slash :: (dotDotSlashes n ++ t)) = _
    rw [pathComponents_append, hdots, ih]
    rfl

theorem dotDotSlashes_succ (n : Nat) : dotDotSlashes (n + 1) = (dotDotSlashes n ++ [dot, dot]) ++ [slash] := by
  induction n with
  | zero => rfl
  | succ n ih =>
    show [dot, dot, slash] ++ dotDotSlashes (n + 1) = (([dot, dot, slash] ++ dotDotSlashes n) ++ [dot, dot]) ++ [slash]
    rw [ih]
    simp only [append_assoc]

/-- Without its last slash the text has the same components. -/
theorem pathComponents_dropLast {n : Nat} (hn : n ≠ 0) :
    pathComponents (dotDotSlashes n).dropLast = List.replicate n [dot, dot] := by
  obtain ⟨n, rfl⟩ := Nat.exists_eq_succ_of_ne_zero hn
  have hdots : pathComponents [dot, dot] = [[dot, dot]] := by decide
  rw [Nat.succ_eq_add_one, dotDotSlashes_succ, dropLast_concat, pathComponents_dotDotSlashes, hdots,
    replicate_succ']

theorem length_pathComponents_le (p : Bytes) : (pathComponents p).length ≤ p.length := by
  induction hn : p.length using Nat.strongRecOn generalizing p with
  | _ n ih =>
    rcases Pieces.single_or_split slash p with hsingle | ⟨c, w, rfl, hslash⟩
    · rw [pathComponents, pathPieces, Pieces.pieces_single hsingle]
      split
      · rename_i hcomponent
        rw [← hn]
        exact length_pos_iff.mpr (of_decide_eq_true hcomponent).1
      · exact Nat.zero_le _
    · rw [length_append, length_cons] at hn
      have hw := ih w.length (by omega) w rfl
      have hc : (pathComponents c).length ≤ c.length := ih c.length (by omega) c rfl
      rw [pathComponents_append, length_append]
      omega

/-- Simplifying a path that is not absolute leaves its components as they are, unless the result is not valid. -/
theorem simplifiedAndValid_spec {p r : Bytes} (hp : 0 ∉ p) (hrelative : pathIsAbsolute p = false) (hne : p ≠ [])
    (h : simplifiedAndValid p = some (.ok r)) : pathComponents r = pathComponents p ∧ r.length < pathMax := by
  obtain ⟨m, hsimplify, hm⟩ := Option.map_eq_some_iff.mp h
  split at hm
  · rename_i hvalid
    obtain ⟨hfit', hshort⟩ := pathIsValid_spec hvalid
    cases hm
    refine ⟨?_, hshort⟩
    by_cases hfit : NamesFit p
    · obtain ⟨gap, hsimplified, -⟩ := pathSimplify_eq hp hfit []
      rw [hsimplify] at hsimplified
      have hresult : cString m 0 = simplified p := by
        rw [Option.some.inj hsimplified]
        exact cString_append (zero_notMem_simplified hp) (m := [])
      have hkept : keptComponents p = pathComponents p := if_neg (by rw [hrelative]; exact Bool.false_ne_true)
      have hjoined : pathComponents (joinedComponents p) = pathComponents p := (joinedComponents_spec p).1.trans hkept
      rw [hresult, simplified, if_neg hne]
      split
      · rename_i hempty
        rw [← hjoined, hempty, pathComponents_nothing pathPieces_dot, pathComponents_nothing pathPieces_nil]
      · exact hjoined
    · obtain ⟨m', hsimplified, hlong⟩ := pathSimplify_tooLong hp hrelative hfit []
      rw [hsimplify] at hsimplified
      obtain rfl := Option.some.inj hsimplified
      exact absurd hfit' hlong
  · cases hm

theorem zero_notMem_dotDotSlashes (n : Nat) : 0 ∉ dotDotSlashes n := by
  induction n with
  | zero => exact not_mem_nil
  | succ n ih =>
    rw [dotDotSlashes, mem_append, not_or]
    exact ⟨by decide, ih⟩

/-- What is written after the counting: as many `..` as were counted, and where `to` goes on. -/
theorem writeParents_spec {n : UInt32} {t r : Bytes} (ht : 0 ∉ t) (hrelative : pathIsAbsolute t = false)
    (h : writeParents n t = some (.ok r)) :
    pathComponents r = List.replicate n.toNat [dot, dot] ++ pathComponents t ∧
      (pathComponents r).length ≤ pathMax := by
  unfold writeParents at h
  split at h
  · rename_i hempty
    split at h
    · cases h
    rename_i hsize
    split at h
    · cases h
    rename_i hwritten
    rw [not_or] at hwritten
    cases h
    have hne : n.toNat ≠ 0 := fun hzero => hwritten.2 (UInt32.toNat_inj.mp hzero)
    rw [pathComponents_dropLast hne, isEmpty_iff.mp hempty, pathComponents_nothing pathPieces_nil,
      append_nil, length_replicate]
    exact ⟨rfl, by omega⟩
  · rename_i hempty
    have hne : t ≠ [] := fun hnil => hempty (isEmpty_iff.mpr hnil)
    split at h
    · cases h
    have hzero : 0 ∉ dotDotSlashes n.toNat ++ t := by
      rw [mem_append, not_or]
      exact ⟨zero_notMem_dotDotSlashes _, ht⟩
    have hrelative' : pathIsAbsolute (dotDotSlashes n.toNat ++ t) = false := by
      cases n.toNat with
      | zero => exact hrelative
      | succ k => rfl
    obtain ⟨hcomponents, hshort⟩ := simplifiedAndValid_spec hzero hrelative'
      (fun hnil => hne (append_eq_nil_iff.mp hnil).2) h
    refine ⟨hcomponents.trans (pathComponents_dotDotSlashes _ t), ?_⟩
    exact Nat.le_of_lt (Nat.lt_of_le_of_lt (length_pathComponents_le r) hshort)

/-! ## Whether the path leads to the target -/

/-- The components that two paths share at their beginnings, and what is left of each of them. -/
structure Parted where
  common : List Bytes
  left : List Bytes
  right : List Bytes

/-- Where the components of two paths part. -/
def parted : List Bytes → List Bytes → Parted
  | c :: cs, d :: ds =>
    if c = d then
      let rest := parted cs ds
      { rest with common := c :: rest.common }
    else ⟨[], c :: cs, d :: ds⟩
  | cs, ds => ⟨[], cs, ds⟩

/-- `from` can be left by a plain series of `..`: all of `to` is below it, or the first component to be left is not
    itself a `..`, unless `to` leaves everything that the paths share anyway.  There are no more components to be left
    than 32 bits can count. -/
def LeftPlainly (fromPath toPath : Bytes) : Prop :=
  let x := parted (pathComponents fromPath) (pathComponents toPath)
  x.left = [] ∨ x.left.length < 2 ^ 32 ∧
    (x.left.head? = some [dot, dot] → (follow [] x.common).length ≤ climbs x.right)

theorem parted_eq {cs ds common left right : List Bytes} (hcs : cs = common ++ left) (hds : ds = common ++ right)
    (hparted : left = [] ∨ right.head? ≠ left.head?) : parted cs ds = ⟨common, left, right⟩ := by
  induction common generalizing cs ds with
  | nil =>
    rw [hcs, hds, nil_append, nil_append]
    cases left with
    | nil => rfl
    | cons c cs =>
      cases right with
      | nil => rfl
      | cons d ds =>
        have hne : c ≠ d := by
          rcases hparted with h | h
          · cases h
          · rintro rfl
            exact h rfl
        exact if_neg hne
  | cons c common ih =>
    rw [hcs, hds, cons_append, cons_append, parted, if_pos rfl, ih rfl rfl]

theorem pathComponents_dot : pathComponents [dot] = [] := pathComponents_nothing pathPieces_dot

/-- Following the names that are left and as many `..` as are written. -/
theorem follow_left_iff {dir rest right : List Bytes} {c : Bytes} {n : Nat} (hrest : [dot, dot] ∉ rest)
    (hn : n = (1 + rest.length) % 2 ^ 32) (hshort : n + right.length ≤ pathMax) :
    follow (follow dir (c :: rest)) (List.replicate n [dot, dot] ++ right) = follow dir right ↔
      (c :: rest).length < 2 ^ 32 ∧ (c = [dot, dot] → dir.length ≤ climbs right) := by
  have hclimbs := climbs_le right
  rw [follow_append, follow_parents, follow_eq_iff, length_cons]
  show ((follow (enterDir dir c) rest).drop n).drop _ = _ ↔ _
  rw [follow_names hrest]
  unfold pathMax at hshort
  by_cases hcount : rest.length + 1 < 2 ^ 32
  · have hn' : n = rest.length + 1 := by omega
    have hdrop : (rest.reverse ++ enterDir dir c).drop n = (enterDir dir c).drop 1 := by
      rw [hn', ← @length_reverse _ rest, drop_append, drop_of_length_le (by omega),
        nil_append, Nat.add_sub_cancel_left]
    rw [hdrop, enterDir]
    by_cases hc : c = [dot, dot]
    · rw [if_pos hc, ← drop_one, drop_drop, drop_drop]
      constructor
      · intro h
        refine ⟨hcount, fun _ => ?_⟩
        have hlength := congrArg length h
        rw [length_drop, length_drop] at hlength
        omega
      · rintro ⟨-, h⟩
        have hle := h hc
        rw [drop_of_length_le (by omega), drop_of_length_le hle]
    · rw [if_neg hc]
      exact ⟨fun _ => ⟨hcount, fun h => absurd h hc⟩, fun _ => rfl⟩
  · -- The count begins again at zero, so that most of the names are not left.
    constructor
    · intro h
      have hlength := congrArg length h
      have henter : dir.length ≤ (enterDir dir c).length + 1 := by
        unfold enterDir
        split
        · rw [length_tail]
          omega
        · rw [length_cons]
          omega
      simp only [length_drop, length_append, length_reverse] at hlength
      omega
    · exact fun h => absurd h.1 hcount

/-- The relative path `r`, followed from `fromPath`, leads to `toPath` exactly if the former can be left by a plain
    series of `..` (`LeftPlainly`). -/
theorem pathMakeRelative_leads_iff {fromPath toPath r : Bytes} (hto : 0 ∉ toPath)
    (h : pathMakeRelative fromPath toPath = some (.ok r)) :
    resolved (fromPath ++ slash :: r) = resolved toPath ↔ LeftPlainly fromPath toPath := by
  unfold resolved
  rw [pathComponents_append, follow_append]
  unfold pathMakeRelative at h
  split at h
  · cases h
  have hparts := stripCommon_parts fromPath toPath
  generalize stripCommon fromPath toPath = s at h hparts
  cases hparts with
  | failed e => cases h
  | same hcomponents =>
    cases h
    have hparted : parted (pathComponents fromPath) (pathComponents toPath) = ⟨pathComponents fromPath, [], []⟩ :=
      parted_eq (append_nil _).symm (by rw [hcomponents, append_nil]) (.inl rfl)
    rw [LeftPlainly, hparted, pathComponents_dot, hcomponents]
    exact ⟨fun _ => .inl rfl, fun _ => rfl⟩
  | inside t ht hcomponents =>
    have hparted := parted_eq (append_nil (pathComponents fromPath)).symm hcomponents (.inl rfl)
    have hresult := (simplifiedAndValid_spec (fun hzero => hto (ht.1 0 hzero)) ht.2.1 ht.2.2 h).1
    rw [LeftPlainly, hparted, hresult, hcomponents, follow_append]
    exact ⟨fun _ => .inl rfl, fun _ => rfl⟩
  | differ common c left t ht hfrom hcomponents hhead =>
    simp only at h
    split at h
    · cases h
    rename_i n hcount
    obtain ⟨hrest, hn⟩ := countParents_spec hcount
    have hgoes : 0 ∉ t.getD [] ∧ pathIsAbsolute (t.getD []) = false := by
      cases t with
      | none => exact ⟨not_mem_nil, rfl⟩
      | some t => exact ⟨fun hzero => hto ((ht t rfl).1 0 hzero), (ht t rfl).2.1⟩
    obtain ⟨hresult, hshort⟩ := writeParents_spec hgoes.1 hgoes.2 h
    have hparted := parted_eq hfrom hcomponents (.inr hhead)
    rw [hresult, length_append, length_replicate] at hshort
    have hiff := @follow_left_iff (follow [] common) _ _ c _ hrest hn hshort
    rw [LeftPlainly, hparted, hresult, hfrom, hcomponents, follow_append [] common, follow_append [] common, hiff]
    constructor
    · rintro ⟨hlength, hdots⟩
      exact .inr ⟨hlength, fun hhead' => hdots (Option.some.inj hhead')⟩
    · rintro (hnil | ⟨hlength, hdots⟩)
      · cases hnil
      · exact ⟨hlength, fun hc => hdots (congrArg some hc)⟩

theorem pathMakeRelative_leads_iff_dot :
    pathMakeRelative (ascii "/some/path/./dot") (ascii "/some/further/path") = some (.ok (ascii "../../further/path")) ∧
      resolved (ascii "/some/path/./dot" ++ slash :: ascii "../../further/path") =
        resolved (ascii "/some/further/path") := by
  have hcall : pathMakeRelative (ascii "/some/path/./dot") (ascii "/some/further/path") =
      some (.ok (ascii "../../further/path")) := by decide +kernel
  exact ⟨hcall, (pathMakeRelative_leads_iff (by decide +kernel) hcall).mpr
    (.inr ⟨by decide +kernel, by decide +kernel⟩)⟩

/-- A `..` in which the paths differ counts as a component to be left. -/
theorem pathMakeRelative_dotDot :
    ¬ ∀ fromPath toPath r : Bytes, 0 ∉ fromPath → 0 ∉ toPath → pathMakeRelative fromPath toPath = some (.ok r) →
      resolved (fromPath ++ slash :: r) = resolved toPath := by
  intro h
  have hdots := h (ascii "/a/..") (ascii "/a/b") (ascii "../b") (by decide +kernel) (by decide +kernel)
    (by decide +kernel)
  exact absurd hdots (by decide +kernel)

end Elogind
