/-
  Elogind.Basic.PathSimplify

  Simplifying a path in its own memory (`path_simplify`).  The text that is written never gets ahead of the one that
  is still read.
-/

import Elogind.Basic.PathBackward
import Mathlib.Data.List.DropRight

namespace Elogind

open Byte Errno Lib List

/-! ## Memory -/

/-- The text at an index of the memory. -/
def cString (m : Bytes) (i : Nat) : Bytes := (m.drop i).takeWhile fun c => c ≠ 0

/-- The memory with other bytes from an index on.  There is no result for an index outside of it. -/
def store (m : Bytes) (f : Nat) (s : Bytes) : Option Bytes :=
  if f + s.length ≤ m.length then some (m.take f ++ (s ++ m.drop (f + s.length))) else none

theorem cString_append {m t after : Bytes} (ht : 0 ∉ t) : cString (m ++ (t ++ 0 :: after)) m.length = t := by
  unfold cString
  rw [drop_left, takeWhile_append_of_pos]
  · rw [takeWhile_cons_of_neg (by decide), append_nil]
  · intro c hc
    apply decide_eq_true
    rintro rfl
    exact ht hc

/-- What is stored takes the place of as many bytes. -/
theorem store_append {out a rest s : Bytes} (hs : s.length ≤ a.length) :
    store (out ++ (a ++ rest)) out.length s = some (out ++ (s ++ (a.drop s.length ++ rest))) := by
  unfold store
  rw [if_pos (by rw [length_append, length_append]; omega), take_left, drop_append,
    drop_of_length_le (by omega), nil_append, Nat.add_sub_cancel_left, drop_append_of_le_length hs]

/-! ## Simplifying -/

/-- The loop in `path_simplify_full`, which goes through so many rounds at most.  It returns the memory, and the
    index `f` unless the function returns right away. -/
def pathSimplifyLoop (absolute : Bool) : Nat → Bytes → Nat → Nat → Bool → Bool → Option (Bytes × Option Nat)
  | 0, _, _, _, _, _ => none
  | n + 1, m, f, p, beginning, addSlash =>
    let slashed := if addSlash then store m f [slash] else some m
    let f' := if addSlash then f + 1 else f
    match pathFindFirstComponent true (cString m p) with
    | .ok x =>
      if x.length = 0 then some (m, some f)
      else
        let e := p + ((cString m p).length - (x.ret.getD []).length)
        let p' := p + ((cString m p).length - x.rest.length)
        if absolute && beginning && (pathStartswith (cString m e) [dot, dot]).isSome then
          pathSimplifyLoop absolute n m f p' beginning addSlash
        else
          slashed.bind fun m => (store m f' ((m.drop e).take x.length)).bind fun m =>
            pathSimplifyLoop absolute n m (f' + x.length) p' false true
    | .error _ => slashed.bind fun m => (store m f' (cString m p ++ [0])).map fun m => (m, none)

/-- `path_simplify_full`, for a path at the beginning of this memory. -/
def pathSimplifyFull (m : Bytes) (keepTrailingSlash : Bool) : Option Bytes :=
  let path := cString m 0
  if path.isEmpty then some m
  else
    let keep := keepTrailingSlash && path.getLast? = some slash
    let absolute := pathIsAbsolute path
    let start := if absolute then 1 else 0
    match pathSimplifyLoop absolute m.length m start start true false with
    | none => none
    | some (m, none) => some m
    | some (m, some f) =>
      (if f = 0 then store m f [dot] else some m).bind fun m =>
        let f := if f = 0 then f + 1 else f
        (if keep && charAt m (f - 1) ≠ slash then store m f [slash] else some m).bind fun m' =>
          store m' (if keep && charAt m (f - 1) ≠ slash then f + 1 else f) [0]

/-- `path_simplify` -/
def pathSimplify (m : Bytes) : Option Bytes := pathSimplifyFull m false

/-! ## The simplified path -/

/-- The components that are kept. -/
def keptComponents (p : Bytes) : List Bytes :=
  if pathIsAbsolute p then (pathComponents p).dropWhile fun c => c = [dot, dot] else pathComponents p

/-- A slash if the path is absolute, and the components that are kept with single slashes between them. -/
def joinedComponents (p : Bytes) : Bytes :=
  (if pathIsAbsolute p then [slash] else []) ++ [slash].intercalate (keptComponents p)

/-- The normal form of a path: there is a dot where nothing would be left, except for the empty path. -/
def simplified (p : Bytes) : Bytes :=
  if p = [] then [] else if joinedComponents p = [] then [dot] else joinedComponents p

/-- What the loop writes for these components. -/
def rendered (absolute : Bool) : Bool → Bool → List Bytes → Bytes
  | _, _, [] => []
  | beginning, addSlash, c :: cs =>
    if absolute && beginning && c = [dot, dot] then rendered absolute beginning addSlash cs
    else (if addSlash then [slash] else []) ++ (c ++ rendered absolute false true cs)

theorem namesFit_dotDot : NamesFit [dot, dot] := by
  unfold NamesFit
  decide

/-- The test for a first component `..`. -/
theorem isSome_pathStartswith_dotDot {c w : Bytes} (hne : c ≠ []) (hslash : slash ∉ c)
    (hfit : NamesFit (c ++ w)) (hcomponents : ∃ cs, pathComponents (c ++ w) = c :: cs) :
    (pathStartswith (c ++ w) [dot, dot]).isSome = decide (c = [dot, dot]) := by
  have hspec := pathStartswithLoop_spec hfit namesFit_dotDot
  have habsolute : pathIsAbsolute (c ++ w) = pathIsAbsolute [dot, dot] := by
    obtain ⟨d, c, rfl⟩ := exists_cons_of_ne_nil hne
    apply decide_eq_false
    intro h
    exact hslash (Option.some.inj h ▸ mem_cons_self)
  have hdots : pathComponents [dot, dot] = [[dot, dot]] := by decide
  obtain ⟨cs, hcs⟩ := hcomponents
  rw [hcs, hdots] at hspec
  unfold pathStartswith pathStartswithFull
  rw [if_neg (not_not.mpr habsolute)]
  cases hloop : pathStartswithLoop true (c ++ w) [dot, dot] with
  | none =>
    rw [hloop] at hspec
    apply Eq.symm
    apply decide_eq_false
    rintro rfl
    exact hspec ⟨cs, rfl⟩
  | some r =>
    rw [hloop] at hspec
    exact (decide_eq_true (cons.inj hspec.1).1).symm

/-! ## The loop -/

/-- A round reads a component: a leading `..` of an absolute path is not written, and another one is written over what is
    no longer read. -/
theorem pathSimplifyLoop_round (absolute : Bool) (after : Bytes) (n : Nat) (out : Bytes) (beginning : Bool)
    {t u c v rest : Bytes} (ht : 0 ∉ t)
    (hfind : pathFindFirstComponent true t = .ok ⟨c.length, some (c ++ (v ++ rest)), rest⟩)
    (hsplit : t = u ++ (c ++ (v ++ rest))) (hne : c ≠ []) (hv : rest ≠ [] → v ≠ [])
    (hdots : absolute = true → (pathStartswith (c ++ (v ++ rest)) [dot, dot]).isSome = decide (c = [dot, dot]))
    {gap : Bytes} {addSlash : Bool} (hroom : addSlash = true → gap ≠ []) {sep : Bytes}
    (hsep : (if addSlash then [slash] else []) = sep) :
    ∃ gap', pathSimplifyLoop absolute (n + 1) (out ++ (gap ++ (t ++ 0 :: after))) out.length (out.length + gap.length)
        beginning addSlash =
      (if absolute && beginning && c = [dot, dot] then
        pathSimplifyLoop absolute n (out ++ ((gap ++ (u ++ (c ++ v))) ++ (rest ++ 0 :: after))) out.length
          (out.length + (gap ++ (u ++ (c ++ v))).length) beginning addSlash
      else
        pathSimplifyLoop absolute n ((out ++ (sep ++ c)) ++ (gap' ++ (rest ++ 0 :: after))) (out ++ (sep ++ c)).length
          ((out ++ (sep ++ c)).length + gap'.length) false true) ∧
      gap'.length + sep.length = gap.length + u.length + v.length ∧ (rest ≠ [] → gap' ≠ []) := by
  -- what the code reads: the component behind the gap and `u`
  have hlen : t.length = u.length + (c.length + (v.length + rest.length)) := by
    rw [hsplit, length_append, length_append, length_append]
  have hcpos := length_pos_iff.mpr hne
  have hread : cString (out ++ (gap ++ (t ++ 0 :: after))) (out.length + gap.length) = t := by
    rw [← append_assoc, ← length_append]
    exact cString_append ht
  have hwhole : out ++ (gap ++ (t ++ 0 :: after)) =
      (out ++ (gap ++ u)) ++ ((c ++ (v ++ rest)) ++ 0 :: after) := by
    rw [hsplit]
    simp only [append_assoc]
  have he : out.length + gap.length + (t.length - (c ++ (v ++ rest)).length) = (out ++ (gap ++ u)).length := by
    simp only [length_append]
    omega
  have hp' : out.length + gap.length + (t.length - rest.length) =
      out.length + gap.length + u.length + c.length + v.length := by omega
  have hfirst : cString (out ++ (gap ++ (t ++ 0 :: after))) (out ++ (gap ++ u)).length = c ++ (v ++ rest) := by
    rw [hwhole]
    refine cString_append fun h => ht ?_
    rw [hsplit]
    exact mem_append_right _ h
  have htest : (absolute && beginning && (pathStartswith (c ++ (v ++ rest)) [dot, dot]).isSome) =
      (absolute && beginning && decide (c = [dot, dot])) := by
    cases absolute with
    | false => rfl
    | true => rw [hdots rfl]
  -- the slash, if any, fits into the gap
  have hsepLength : sep.length ≤ gap.length := by
    rw [← hsep]
    cases addSlash with
    | false => exact Nat.zero_le _
    | true => exact length_pos_iff.mpr (hroom rfl)
  have hslashed : (if addSlash then store (out ++ (gap ++ (t ++ 0 :: after))) out.length [slash]
      else some (out ++ (gap ++ (t ++ 0 :: after)))) =
        some (out ++ (sep ++ (gap.drop sep.length ++ (t ++ 0 :: after)))) := by
    cases addSlash with
    | false =>
      rw [← hsep]
      rfl
    | true =>
      obtain rfl := hsep
      exact store_append hsepLength
  have hf' : (if addSlash then out.length + 1 else out.length) = (out ++ sep).length := by
    rw [← hsep, length_append]
    cases addSlash with
    | false => rfl
    | true => rfl
  have hdropLength : (gap.drop sep.length).length + sep.length = gap.length := by
    rw [length_drop, Nat.sub_add_cancel hsepLength]
  -- writing the slash leaves the component as it was, and moving it keeps what comes after it
  have hcomponent' : ((out ++ (sep ++ (gap.drop sep.length ++ (t ++ 0 :: after)))).drop
      (out ++ (gap ++ u)).length).take c.length = c := by
    have hm : out ++ (sep ++ (gap.drop sep.length ++ (t ++ 0 :: after))) =
        (out ++ (sep ++ (gap.drop sep.length ++ u))) ++ (c ++ (v ++ (rest ++ 0 :: after))) := by
      rw [hsplit]
      simp only [append_assoc]
    have hindex : (out ++ (gap ++ u)).length = (out ++ (sep ++ (gap.drop sep.length ++ u))).length := by
      simp only [length_append]
      omega
    rw [hm, hindex, drop_left, take_left]
  have hstore : store (out ++ (sep ++ (gap.drop sep.length ++ (t ++ 0 :: after)))) (out ++ sep).length c =
      some ((out ++ (sep ++ c)) ++
        (((gap.drop sep.length ++ (u ++ c)).drop c.length ++ v) ++ (rest ++ 0 :: after))) := by
    have hm : out ++ (sep ++ (gap.drop sep.length ++ (t ++ 0 :: after))) =
        (out ++ sep) ++ ((gap.drop sep.length ++ (u ++ c)) ++ (v ++ (rest ++ 0 :: after))) := by
      rw [hsplit]
      simp only [append_assoc]
    rw [hm, store_append (by simp only [length_append]; omega)]
    simp only [append_assoc]
  have hgapLength : ((gap.drop sep.length ++ (u ++ c)).drop c.length ++ v).length + sep.length =
      gap.length + u.length + v.length := by
    simp only [length_append, length_drop]
    omega
  refine ⟨(gap.drop sep.length ++ (u ++ c)).drop c.length ++ v, ?_, hgapLength,
    fun hrest h => hv hrest (append_eq_nil_iff.mp h).2⟩
  rw [pathSimplifyLoop, hread, hfind]
  simp only [if_neg hcpos.ne', Option.getD_some, he, hp', hfirst, htest]
  split
  · -- A leading `..` of an absolute path is not read again, and nothing is written.
    rw [hsplit]
    simp only [append_assoc, length_append, Nat.add_assoc]
  · have hindex : (out ++ sep).length + c.length = (out ++ (sep ++ c)).length := by
      simp only [length_append, Nat.add_assoc]
    have hnext : out.length + gap.length + u.length + c.length + v.length =
        (out ++ (sep ++ c)).length + ((gap.drop sep.length ++ (u ++ c)).drop c.length ++ v).length := by
      rw [length_append, length_append]
      omega
    rw [hslashed, Option.bind_some, hf', hcomponent', hstore, Option.bind_some, hindex, hnext]

/-- From an index on where this text is, the loop writes its components over what is before it: `out` is written
    already and `gap` no longer read. -/
theorem pathSimplifyLoop_spec {absolute : Bool} {t after : Bytes} (ht : 0 ∉ t) (hfit : NamesFit t) {n : Nat}
    (hn : t.length < n) {out gap : Bytes} {beginning addSlash : Bool} (hroom : addSlash = true → t ≠ [] → gap ≠ []) :
    ∃ gap', pathSimplifyLoop absolute n (out ++ (gap ++ (t ++ 0 :: after))) out.length (out.length + gap.length)
        beginning addSlash =
          some ((out ++ rendered absolute beginning addSlash (pathComponents t)) ++ (gap' ++ 0 :: after),
            some (out ++ rendered absolute beginning addSlash (pathComponents t)).length) ∧
      (rendered absolute beginning addSlash (pathComponents t)).length + gap'.length = gap.length + t.length := by
  induction t using path_induction generalizing n out gap beginning addSlash with
  | nothing t hfind hpieces =>
    obtain ⟨n, rfl⟩ : ∃ k, n = k + 1 := ⟨n - 1, by omega⟩
    have hread : cString (out ++ (gap ++ (t ++ 0 :: after))) (out.length + gap.length) = t := by
      rw [← append_assoc, ← length_append]
      exact cString_append ht
    refine ⟨gap ++ t, ?_, ?_⟩
    · rw [pathSimplifyLoop, hread, hfind, pathComponents_nothing hpieces, rendered, append_nil, append_assoc]
      rfl
    · rw [pathComponents_nothing hpieces, rendered, length_append]
      exact Nat.zero_add _
  | tooLong t u c w _ _ hlength hpieces =>
    have hle := hfit c (pathComponents_cons (hpieces 0) ▸ mem_cons_self)
    omega
  | component t u c v rest hfind hsplit hlength hne hslash hcomponent hv hpieces hret ih =>
    obtain ⟨n, rfl⟩ : ∃ k, n = k + 1 := ⟨n - 1, by omega⟩
    have hcons := pathComponents_cons (hpieces 0)
    have hlen : t.length = u.length + (c.length + (v.length + rest.length)) := by
      rw [hsplit, length_append, length_append, length_append]
    have hcpos := length_pos_iff.mpr hne
    have hrestNul : 0 ∉ rest := fun h => ht (by rw [hsplit]; simp [h])
    have hrestFit : NamesFit rest := fun d hd => hfit d (hcons ▸ mem_cons_of_mem _ hd)
    have htne : t ≠ [] := fun h => by
      rw [h, length_nil] at hlen
      omega
    have hcomponents : pathComponents (c ++ (v ++ rest)) = c :: pathComponents rest := by
      rw [← hcons, pathComponents, pathComponents, hret, Pieces.map_snd_pieces (0 + u.length)]
    have hdots := isSome_pathStartswith_dotDot (w := v ++ rest) hne hslash
      (fun d hd => hfit d (by rw [hcons, ← hcomponents]; exact hd)) ⟨_, hcomponents⟩
    obtain ⟨gap', hround, hgap', hne'⟩ := pathSimplifyLoop_round absolute after n out beginning ht hfind hsplit hne hv (fun _ => hdots) (fun h => hroom h htne) rfl
    rw [hround, hcons, rendered]
    split
    · obtain ⟨gap'', hloop, hlength'⟩ := @ih hrestNul hrestFit n (by omega) out (gap ++ (u ++ (c ++ v))) beginning
        addSlash (fun _ _ h => by
          simp only [append_eq_nil_iff] at h
          exact hne h.2.2.1)
      refine ⟨gap'', hloop, ?_⟩
      rw [hlength', hlen]
      simp only [length_append]
      omega
    · obtain ⟨gap'', hloop, hlength'⟩ := @ih hrestNul hrestFit n (by omega)
        (out ++ ((if addSlash then [slash] else []) ++ c)) gap' false true fun _ => hne'
      rw [hloop]
      refine ⟨gap'', ?_, ?_⟩
      · simp only [append_assoc]
      · rw [length_append, length_append]
        omega

/-- The components on both sides of a slash. -/
theorem pathComponents_append (p q : Bytes) :
    pathComponents (p ++ slash :: q) = pathComponents p ++ pathComponents q := by
  rw [pathComponents, pathPieces, Pieces.pieces_append, map_append, Pieces.map_snd_pieces (0 + p.length + 1)]
  rfl

/-- From a component on that is too long, the loop copies what is left of a path that is not absolute. -/
theorem pathSimplifyLoop_tooLong {t after : Bytes} (ht : 0 ∉ t) (hlong : ¬ NamesFit t) {n : Nat} (hn : t.length < n)
    {out gap : Bytes} {beginning addSlash : Bool} (hroom : addSlash = true → gap ≠ []) :
    ∃ w gap', pathSimplifyLoop false n (out ++ (gap ++ (t ++ 0 :: after))) out.length (out.length + gap.length)
        beginning addSlash = some ((out ++ ((if addSlash then [slash] else []) ++ w)) ++ 0 :: gap', none) ∧
      0 ∉ w ∧ ¬ NamesFit w := by
  induction t using path_induction generalizing n out gap beginning addSlash with
  | nothing t hfind hpieces =>
    refine absurd ?_ hlong
    rw [NamesFit, pathComponents_nothing hpieces]
    exact fun c hc => absurd hc not_mem_nil
  | tooLong t u c w hfind _ _ _ =>
    obtain ⟨n, rfl⟩ : ∃ k, n = k + 1 := ⟨n - 1, by omega⟩
    have hread : ∀ o g : Bytes, cString (o ++ (g ++ (t ++ 0 :: after))) (o.length + g.length) = t := by
      intro o g
      rw [← append_assoc, ← length_append]
      exact cString_append ht
    -- The text with its end is moved to where the next component would be written.
    have hmove : ∀ o g : Bytes, ∃ gap', store (o ++ (g ++ (t ++ 0 :: after))) o.length (t ++ [0]) =
        some ((o ++ t) ++ 0 :: gap') := by
      intro o g
      have hm : o ++ (g ++ (t ++ 0 :: after)) = o ++ ((g ++ (t ++ [0])) ++ after) := by
        simp only [append_assoc, singleton_append]
      have hle : (t ++ [0]).length ≤ (g ++ (t ++ [0])).length := by
        rw [@length_append _ g]
        exact Nat.le_add_left _ _
      refine ⟨(g ++ (t ++ [0])).drop (t ++ [0]).length ++ after, ?_⟩
      rw [hm, store_append hle]
      simp only [append_assoc, singleton_append]
    rw [pathSimplifyLoop, hread, hfind]
    cases addSlash with
    | false =>
      obtain ⟨gap', hstore⟩ := hmove out gap
      refine ⟨t, gap', ?_, ht, hlong⟩
      simp only [Bool.false_eq_true, if_false, Option.bind_some, hread, hstore, Option.map_some, nil_append]
    | true =>
      obtain ⟨gap', hstore⟩ := hmove (out ++ [slash]) (gap.drop 1)
      have hgap : [slash].length ≤ gap.length := length_pos_iff.mpr (hroom rfl)
      have hslashed : store (out ++ (gap ++ (t ++ 0 :: after))) out.length [slash] =
          some ((out ++ [slash]) ++ (gap.drop 1 ++ (t ++ 0 :: after))) := by
        rw [store_append hgap, append_assoc]
        rfl
      have hindex : out.length + gap.length = (out ++ [slash]).length + (gap.drop 1).length := by
        rw [length_append, length_drop, length_singleton]
        rw [length_singleton] at hgap
        omega
      have hindex' : out.length + 1 = (out ++ [slash]).length := by
        rw [length_append, length_singleton]
      refine ⟨t, gap', ?_, ht, hlong⟩
      simp only [if_true, hslashed, Option.bind_some, hindex, hread, hindex', hstore, Option.map_some]
      simp only [append_assoc]
  | component t u c v rest hfind hsplit hlength hne hslash hcomponent hv hpieces hret ih =>
    obtain ⟨n, rfl⟩ : ∃ k, n = k + 1 := ⟨n - 1, by omega⟩
    have hcons := pathComponents_cons (hpieces 0)
    have hlt : rest.length < t.length :=
      FoundComponent.length_rest_lt hfind (length_pos_iff.mpr hne).ne'
    have hmem : ∀ d ∈ rest, d ∈ t := fun d hd => by
      rw [hsplit]
      simp [hd]
    have hrestLong : ¬ NamesFit rest := by
      intro hfit
      apply hlong
      rw [NamesFit, hcons]
      exact forall_mem_cons.mpr ⟨hlength, hfit⟩
    have hrestNe : rest ≠ [] := by
      rintro rfl
      apply hrestLong
      exact fun c hc => absurd hc not_mem_nil
    obtain ⟨gap', hround, -, hne'⟩ := pathSimplifyLoop_round false after n out beginning ht hfind hsplit hne hv (fun h => by cases h) hroom rfl
    obtain ⟨w, gap'', hloop, hw, hwLong⟩ := @ih (fun h => ht (hmem 0 h)) hrestLong n (by omega)
      (out ++ ((if addSlash then [slash] else []) ++ c)) gap' false true fun _ => hne' hrestNe
    refine ⟨c ++ slash :: w, gap'', ?_, ?_, ?_⟩
    · rw [hround, if_neg (by simp), hloop]
      simp only [append_assoc, if_true, singleton_append]
    · have hc : 0 ∉ c := fun h => ht (by rw [hsplit]; simp [h])
      rw [mem_append, mem_cons]
      rintro (h | h | h)
      · exact hc h
      · exact absurd h (by decide)
      · exact hw h
    · intro hfit
      apply hwLong
      intro d hd
      exact hfit d (by rw [pathComponents_append]; exact mem_append_right _ hd)

/-! ## The result -/

theorem rendered_slashed (absolute : Bool) (cs : List Bytes) :
    rendered absolute false true cs = cs.flatMap fun c => slash :: c := by
  induction cs with
  | nil => rfl
  | cons c cs ih =>
    rw [rendered, if_neg (by simp), ih]
    rfl

theorem rendered_first (absolute beginning : Bool) (c : Bytes) (cs : List Bytes)
    (hc : absolute = true → beginning = true → c ≠ [dot, dot]) :
    rendered absolute beginning false (c :: cs) = [slash].intercalate (c :: cs) := by
  have hintercalate : ∀ (c : Bytes) (cs : List Bytes),
      [slash].intercalate (c :: cs) = c ++ cs.flatMap fun c => slash :: c := by
    intro c cs
    induction cs generalizing c with
    | nil => simp
    | cons d cs ih =>
      rw [intercalate_cons_cons, ih, flatMap_cons, append_assoc]
      rfl
  have hkept : ¬ (absolute && beginning && decide (c = [dot, dot])) = true := by
    intro h
    rw [Bool.and_eq_true, Bool.and_eq_true] at h
    exact hc h.1.1 h.1.2 (of_decide_eq_true h.2)
  rw [rendered, if_neg hkept, rendered_slashed, hintercalate]
  rfl

/-- What the loop writes altogether. -/
theorem rendered_eq (absolute : Bool) (cs : List Bytes) :
    rendered absolute true false cs =
      [slash].intercalate (if absolute then cs.dropWhile fun c => c = [dot, dot] else cs) := by
  cases absolute with
  | false =>
    cases cs with
    | nil => rfl
    | cons c cs => exact rendered_first false true c cs (fun h => by cases h)
  | true =>
    induction cs with
    | nil => rfl
    | cons c cs ih =>
      by_cases hc : c = [dot, dot]
      · rw [rendered, if_pos (by simp [hc]), ih, if_pos rfl, if_pos rfl, dropWhile_cons_of_pos (by simp [hc])]
      · rw [rendered_first true true c cs (fun _ _ => hc), if_pos rfl, dropWhile_cons_of_neg (by simp [hc])]

/-- The path without its leading slash has the same components. -/
theorem pathComponents_slash (p : Bytes) : pathComponents (slash :: p) = pathComponents p := by
  rw [pathComponents, pathPieces_slash, Pieces.map_snd_pieces]
  rfl

/-- The text that is read after the leading slash, which is kept. -/
theorem exists_start (p : Bytes) :
    ∃ out t, p = out ++ t ∧ out = (if pathIsAbsolute p then [slash] else []) ∧
      out.length = (if pathIsAbsolute p then 1 else 0) ∧ pathComponents t = pathComponents p := by
  by_cases habsolute : pathIsAbsolute p = true
  · obtain ⟨t, rfl⟩ := head?_eq_some_iff.mp (of_decide_eq_true habsolute)
    exact ⟨[slash], t, rfl, rfl, rfl, (pathComponents_slash t).symm⟩
  · rw [if_neg habsolute, if_neg habsolute]
    exact ⟨[], p, rfl, rfl, rfl, rfl⟩

/-- The end of the text is written. -/
theorem store_zero (text gap after : Bytes) :
    ∃ gap', store (text ++ (gap ++ 0 :: after)) text.length [0] = some (text ++ 0 :: (gap' ++ after)) ∧
      gap'.length = gap.length := by
  have hm : gap ++ 0 :: after = (gap ++ [0]) ++ after := by rw [append_assoc, singleton_append]
  refine ⟨(gap ++ [0]).drop 1, ?_, ?_⟩
  · rw [hm, store_append (by rw [length_append]; exact Nat.le_add_left _ _)]
    rfl
  · rw [length_drop, length_append]
    exact Nat.add_sub_cancel _ _

/-- The path is simplified in its own memory: what is left of it is no longer read, and nothing changes after
    it. -/
theorem pathSimplify_eq {p : Bytes} (hp : 0 ∉ p) (hfit : NamesFit p) (after : Bytes) :
    ∃ gap, pathSimplify (p ++ 0 :: after) = some (simplified p ++ 0 :: (gap ++ after)) ∧
      (simplified p).length + gap.length = p.length := by
  have hread : cString (p ++ 0 :: after) 0 = p := cString_append hp (m := [])
  by_cases hnil : p = []
  · rw [hnil]
    exact ⟨[], rfl, rfl⟩
  obtain ⟨out, t, hsplit, hout, houtLength, hcomponents⟩ := exists_start p
  have hnotEmpty : ¬ p.isEmpty = true := fun h => hnil (isEmpty_iff.mp h)
  have hfuel : t.length < (p ++ 0 :: after).length := by
    rw [hsplit, length_append, length_append, length_cons]
    omega
  have htFit : NamesFit t := by
    rw [NamesFit, hcomponents]
    exact hfit
  obtain ⟨gap, hloop, hlength⟩ := @pathSimplifyLoop_spec (pathIsAbsolute p) t after
    (fun h => hp (by rw [hsplit]; exact mem_append_right _ h)) htFit _ hfuel out [] true false
    (fun h => by cases h)
  have hwritten : out ++ rendered (pathIsAbsolute p) true false (pathComponents t) = joinedComponents p := by
    rw [rendered_eq, hout, hcomponents]
    rfl
  rw [hwritten] at hloop
  have hstart : p ++ 0 :: after = out ++ ([] ++ (t ++ 0 :: after)) := by
    rw [hsplit, append_assoc]
    rfl
  have hlengths : (joinedComponents p).length + gap.length = p.length := by
    have hjoined := congrArg length hwritten
    have hwhole := congrArg length hsplit
    rw [length_append] at hjoined hwhole
    rw [length_nil] at hlength
    omega
  rw [length_nil, Nat.add_zero, ← hstart, houtLength] at hloop
  unfold pathSimplify pathSimplifyFull
  simp only [hread, if_neg hnotEmpty, hloop, Bool.false_and, Bool.false_eq_true, if_false, Option.bind_some]
  unfold simplified
  rw [if_neg hnil]
  by_cases hempty : joinedComponents p = []
  · rw [if_pos hempty, hempty]
    have hgap : 1 ≤ gap.length := by
      rw [hempty, length_nil, Nat.zero_add] at hlengths
      rw [hlengths]
      exact length_pos_iff.mpr hnil
    have hdot : store ([] ++ (gap ++ 0 :: after)) 0 [dot] = some ([dot] ++ (gap.drop 1 ++ 0 :: after)) :=
      store_append hgap
    obtain ⟨gap', hzero, hgap'⟩ := store_zero [dot] (gap.drop 1) after
    refine ⟨gap', ?_, ?_⟩
    · rw [length_nil, if_pos rfl, if_pos rfl, hdot, Option.bind_some]
      exact hzero
    · rw [hgap', length_drop, length_singleton, ← hlengths, hempty, length_nil]
      omega
  · rw [if_neg hempty]
    have hne : (joinedComponents p).length ≠ 0 := fun h => hempty (length_eq_zero_iff.mp h)
    obtain ⟨gap', hzero, hgap'⟩ := store_zero (joinedComponents p) gap after
    refine ⟨gap', ?_, ?_⟩
    · rw [if_neg hne, if_neg hne, Option.bind_some]
      exact hzero
    · rw [hgap', hlengths]

/-- A component that is too long is still there afterwards. -/
theorem pathSimplify_tooLong {p : Bytes} (hp : 0 ∉ p) (hrelative : pathIsAbsolute p = false) (hlong : ¬ NamesFit p)
    (after : Bytes) : ∃ m, pathSimplify (p ++ 0 :: after) = some m ∧ ¬ NamesFit (cString m 0) := by
  have hread : cString (p ++ 0 :: after) 0 = p := cString_append hp (m := [])
  have hnotEmpty : ¬ p.isEmpty = true := by
    intro h
    apply hlong
    rw [NamesFit, isEmpty_iff.mp h, pathComponents_nothing pathPieces_nil]
    exact fun c hc => absurd hc not_mem_nil
  have hfuel : p.length < (p ++ 0 :: after).length := by
    rw [length_append, length_cons]
    omega
  obtain ⟨w, gap, hloop, hw, hwLong⟩ := @pathSimplifyLoop_tooLong p after hp hlong _ hfuel [] [] true false
    (fun h => by cases h)
  refine ⟨w ++ 0 :: gap, ?_, ?_⟩
  · unfold pathSimplify pathSimplifyFull
    simp only [hread, if_neg hnotEmpty, hrelative, Bool.false_eq_true, if_false]
    simp only [nil_append, length_nil, Nat.add_zero, Bool.false_eq_true, if_false] at hloop
    rw [hloop]
  · have hresult : cString (w ++ 0 :: gap) 0 = w := cString_append hw (m := [])
    rw [hresult]
    exact hwLong

/-! ## Simplifying again -/

theorem isComponent_of_mem {p c : Bytes} (hc : c ∈ pathComponents p) :
    slash ∉ c ∧ isComponent c = true ∧ ∃ s t, p = s ++ c ++ t := by
  obtain ⟨e, he, rfl⟩ := mem_map.mp hc
  obtain ⟨⟨s, t, hsplit, -⟩, hslash, hcomponent⟩ := Pieces.of_mem_pieces he
  exact ⟨hslash, hcomponent, s, t, hsplit⟩

theorem mem_of_mem_keptComponents {p c : Bytes} (hc : c ∈ keptComponents p) : c ∈ pathComponents p := by
  unfold keptComponents at hc
  split at hc
  · exact (dropWhile_sublist _).subset hc
  · exact hc

theorem pathComponents_intercalate (p : Bytes) :
    pathComponents ([slash].intercalate (keptComponents p)) = keptComponents p := by
  apply Pieces.map_snd_pieces_intercalate _ isComponent_nil
  intro c hc
  obtain ⟨hslash, hcomponent, -⟩ := isComponent_of_mem (mem_of_mem_keptComponents hc)
  exact ⟨hslash, hcomponent⟩

/-- The normal form has the components that are kept, and is absolute if the path is. -/
theorem joinedComponents_spec (p : Bytes) :
    pathComponents (joinedComponents p) = keptComponents p ∧
      pathIsAbsolute (joinedComponents p) = pathIsAbsolute p := by
  unfold joinedComponents
  by_cases habsolute : pathIsAbsolute p = true
  · rw [if_pos habsolute, habsolute, singleton_append, pathComponents_slash, pathComponents_intercalate]
    exact ⟨rfl, rfl⟩
  · rw [if_neg habsolute, nil_append, pathComponents_intercalate, Bool.eq_false_iff.mpr habsolute]
    refine ⟨rfl, ?_⟩
    cases hkept : keptComponents p with
    | nil => rfl
    | cons c cs =>
      obtain ⟨hslash, hcomponent, -⟩ := isComponent_of_mem (mem_of_mem_keptComponents (hkept ▸ mem_cons_self))
      obtain ⟨d, c, rfl⟩ := exists_cons_of_ne_nil (of_decide_eq_true hcomponent).1
      apply decide_eq_false
      intro hhead
      have hd : d = slash := by
        cases cs with
        | nil =>
          exact Option.some.inj hhead
        | cons e cs =>
          exact Option.some.inj hhead
      exact hslash (hd ▸ mem_cons_self)

theorem joinedComponents_joinedComponents (p : Bytes) :
    joinedComponents (joinedComponents p) = joinedComponents p := by
  obtain ⟨hcomponents, habsolute⟩ := joinedComponents_spec p
  have hkept : keptComponents (joinedComponents p) = keptComponents p := by
    rw [keptComponents, hcomponents, habsolute, keptComponents]
    split
    · exact dropWhile_idempotent _ _
    · rfl
  rw [joinedComponents, habsolute, hkept]
  rfl

theorem simplified_simplified (p : Bytes) : simplified (simplified p) = simplified p := by
  unfold simplified
  by_cases hnil : p = []
  · rw [if_pos hnil, if_pos rfl]
  · rw [if_neg hnil]
    by_cases hempty : joinedComponents p = []
    · rw [if_pos hempty]
      decide
    · rw [if_neg hempty, if_neg hempty, joinedComponents_joinedComponents, if_neg hempty]

theorem namesFit_simplified {p : Bytes} (hfit : NamesFit p) : NamesFit (simplified p) := by
  unfold simplified
  split
  · exact fun c hc => absurd hc not_mem_nil
  · split
    · exact fun c hc => absurd hc not_mem_nil
    · rw [NamesFit, (joinedComponents_spec p).1]
      exact fun c hc => hfit c (mem_of_mem_keptComponents hc)

theorem zero_notMem_joinedComponents {p : Bytes} (hp : 0 ∉ p) : 0 ∉ joinedComponents p := by
  have hkept : ∀ c ∈ keptComponents p, 0 ∉ c := by
    intro c hc hzero
    obtain ⟨-, -, s, t, rfl⟩ := isComponent_of_mem (mem_of_mem_keptComponents hc)
    exact hp (mem_append_left _ (mem_append_right _ hzero))
  have hintercalate : ∀ cs : List Bytes, (∀ c ∈ cs, 0 ∉ c) → 0 ∉ [slash].intercalate cs := by
    intro cs hcs
    induction cs with
    | nil => exact not_mem_nil
    | cons c cs ih =>
      have hrest := ih fun d hd => hcs d (mem_cons_of_mem _ hd)
      cases cs with
      | nil =>
        rw [intercalate_singleton]
        exact hcs c mem_cons_self
      | cons d cs =>
        rw [intercalate_cons_cons, append_assoc, mem_append, mem_append, not_or, not_or]
        exact ⟨hcs c mem_cons_self, by decide, hrest⟩
  unfold joinedComponents
  rw [mem_append, not_or]
  refine ⟨?_, hintercalate _ hkept⟩
  split
  · decide
  · exact not_mem_nil

theorem zero_notMem_simplified {p : Bytes} (hp : 0 ∉ p) : 0 ∉ simplified p := by
  unfold simplified
  split
  · exact not_mem_nil
  · split
    · decide
    · exact zero_notMem_joinedComponents hp

/-- The texts at the places that are found are the components. -/
theorem texts_of_extents (p : Bytes) :
    ((pathPieces 0 p).map extentOf).map (fun e => (p.drop e.1).take e.2) = pathComponents p := by
  rw [map_map]
  apply map_congr_left
  intro e he
  obtain ⟨⟨s, t, hsplit, hplace⟩, -⟩ := Pieces.of_mem_pieces he
  rw [Nat.zero_add] at hplace
  show (p.drop e.1).take e.2.length = e.2
  rw [hplace, hsplit, append_assoc, drop_left, take_left]

/-- Reading a path backward finds the components that reading it forward finds, at the same places, and simplifying
    it in its own memory leaves those of them that are kept with single slashes between them, after the leading
    slash if there is one.  Simplifying once is enough. -/
theorem path_walks_and_simplify {p after : Bytes} (hp : 0 ∉ p) (hfit : NamesFit p) :
    (∃ l, componentsForward p p = .ok l ∧ componentsBackward p none = .ok l.reverse ∧
        l.map (fun e => (p.drop e.1).take e.2) = pathComponents p) ∧
      ∃ m, pathSimplify (p ++ 0 :: after) = some m ∧ m.drop (p.length + 1) = after ∧
        cString m 0 = simplified p ∧ (simplified p).length ≤ p.length ∧ pathSimplify m = some m := by
  obtain ⟨hforward, hbackward⟩ := componentsBackward_eq_reverse hfit
  refine ⟨⟨_, hforward, hbackward, texts_of_extents p⟩, ?_⟩
  obtain ⟨gap, hsimplify, hlength⟩ := pathSimplify_eq hp hfit after
  have hzero := zero_notMem_simplified hp
  refine ⟨_, hsimplify, ?_, cString_append hzero (m := []), by omega, ?_⟩
  · have hm : simplified p ++ 0 :: (gap ++ after) = (simplified p ++ 0 :: gap) ++ after := by
      rw [append_assoc, cons_append]
    have hindex : p.length + 1 = (simplified p ++ 0 :: gap).length := by
      rw [length_append, length_cons]
      omega
    rw [hm, hindex, drop_left]
  · obtain ⟨gap', hagain, hlength'⟩ := pathSimplify_eq hzero (namesFit_simplified hfit) (gap ++ after)
    rw [simplified_simplified] at hagain hlength'
    obtain rfl : gap' = [] := length_eq_zero_iff.mp (by omega)
    exact hagain

/-- A path with slashes and dots at both ends. -/
theorem path_walks_and_simplify_dots :
    ∃ m, pathSimplify (ascii "//.//a///./b..//." ++ 0 :: []) = some m ∧ cString m 0 = ascii "/a/b.." := by
  obtain ⟨-, m, hsimplify, -, hresult, -⟩ :=
    @path_walks_and_simplify (ascii "//.//a///./b..//.") [] (by decide) (by unfold NamesFit; decide)
  exact ⟨m, hsimplify, hresult.trans (by decide)⟩

/-- The empty path is not simplified to a dot. -/
theorem pathSimplify_empty :
    ¬ ∀ p : Bytes, 0 ∉ p → NamesFit p → (pathSimplify (p ++ [0])).map (cString · 0) =
      some (if joinedComponents p = [] then [dot] else joinedComponents p) := by
  intro h
  have hempty := h [] (by decide) (by unfold NamesFit; decide)
  exact absurd hempty (by decide)

end Elogind
