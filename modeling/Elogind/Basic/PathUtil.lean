/-
  Elogind.Basic.PathUtil

  Reading a path component by component (path-util.c).  A pointer into a path is the rest of the text from
  there on, and where two pointers are compared it is an index.
-/

import Elogind.Basic.Errno
import Elogind.Basic.StringUtil
import Elogind.Lib.Pieces

namespace Elogind

open Byte Errno Lib List

/-- `NAME_MAX` -/
def nameMax : Nat := 255

/-! ## The first component -/

/-- `skip_slash_or_dot` -/
def skipSlashOrDot : Bytes → Bytes
  | [] => []
  | [c] => if c = slash then [] else [c]
  | c :: d :: p =>
    if c = slash then skipSlashOrDot (d :: p)
    else if c = dot ∧ d = slash then skipSlashOrDot p
    else c :: d :: p

/-- What `path_find_first_component` returns: the number, `*ret` and `*p`. -/
structure FoundComponent where
  length : Nat
  ret : Option Bytes
  rest : Bytes

/-- `path_find_first_component`.  On an error neither of the pointers changes. -/
def pathFindFirstComponent (acceptDotDot : Bool) (q : Bytes) : Result FoundComponent :=
  let first := skipSlashOrDot q
  if first.isEmpty then .ok ⟨0, none, first⟩
  else if first = [dot] then .ok ⟨0, none, first.tail⟩
  else
    let endFirst := first.dropWhile fun c => c ≠ slash
    let len := first.length - endFirst.length
    if len > nameMax then .error EINVAL
    else if !acceptDotDot && len = 2 && first.take 2 = [dot, dot] then .error EINVAL
    else
      let next := skipSlashOrDot endFirst
      .ok ⟨len, some first, if next = [dot] then next.tail else next⟩

/-- `path_is_absolute` -/
def pathIsAbsolute (p : Bytes) : Bool := p.head? = some slash

/-! ## Components -/

/-- A part of a path that names something. -/
def isComponent (c : Bytes) : Bool := c ≠ [] ∧ c ≠ [dot]

/-- The components of a path that begins here, with the places at which they begin. -/
abbrev pathPieces (i : Nat) (p : Bytes) : List (Nat × Bytes) := Pieces.pieces slash isComponent i p

/-- The components of a path. -/
def pathComponents (p : Bytes) : List Bytes := (pathPieces 0 p).map Prod.snd

/-- None of the components is too long. -/
def NamesFit (p : Bytes) : Prop := ∀ c ∈ pathComponents p, c.length ≤ nameMax

theorem isComponent_nil : isComponent [] = false := by decide

theorem pathPieces_slash (i : Nat) (p : Bytes) : pathPieces i (slash :: p) = pathPieces (i + 1) p :=
  Pieces.pieces_cons_sep isComponent_nil i p

theorem pathPieces_dot_slash (i : Nat) (p : Bytes) : pathPieces i (dot :: slash :: p) = pathPieces (i + 2) p := by
  have happend : pathPieces i ([dot] ++ slash :: p) = pathPieces i [dot] ++ pathPieces (i + 1 + 1) p :=
    Pieces.pieces_append i [dot] p
  exact happend

theorem pathPieces_dot (i : Nat) : pathPieces i [dot] = [] := by
  rfl

theorem pathPieces_nil (i : Nat) : pathPieces i [] = [] := by
  rfl

/-- What is skipped has no components in it, and after it there is neither a slash nor a dot with a slash. -/
theorem skipSlashOrDot_spec (p : Bytes) :
    ∃ u, p = u ++ skipSlashOrDot p ∧ (∀ i, pathPieces i p = pathPieces (i + u.length) (skipSlashOrDot p)) ∧
      (skipSlashOrDot p).head? ≠ some slash ∧ ∀ q, skipSlashOrDot p ≠ dot :: slash :: q := by
  induction p using skipSlashOrDot.induct with
  | case1 => exact ⟨[], rfl, fun _ => rfl, by decide, by intro q h; cases h⟩
  | case2 =>
    exact ⟨[slash], rfl, fun i => pathPieces_slash i [], by decide, by intro q h; cases h⟩
  | case3 c hc =>
    rw [skipSlashOrDot, if_neg hc]
    exact ⟨[], rfl, fun _ => rfl, fun h => hc (Option.some.inj h), by intro q h; cases h⟩
  | case4 d p ih =>
    rw [skipSlashOrDot, if_pos rfl]
    obtain ⟨u, hp, hpieces, hrest⟩ := ih
    refine ⟨slash :: u, congrArg (slash :: ·) hp, ?_, hrest⟩
    intro i
    rw [pathPieces_slash, hpieces, length_cons, Nat.add_assoc, Nat.add_comm 1]
  | case5 c d p hc hdot ih =>
    obtain ⟨rfl, rfl⟩ := hdot
    rw [skipSlashOrDot, if_neg hc, if_pos ⟨rfl, rfl⟩]
    obtain ⟨u, hp, hpieces, hrest⟩ := ih
    refine ⟨dot :: slash :: u, congrArg (dot :: slash :: ·) hp, ?_, hrest⟩
    intro i
    rw [pathPieces_dot_slash, hpieces, length_cons, length_cons, Nat.add_assoc, Nat.add_comm 2]
  | case6 c d p hc hdot =>
    rw [skipSlashOrDot, if_neg hc, if_neg hdot]
    refine ⟨[], rfl, fun _ => rfl, fun h => hc (Option.some.inj h), ?_⟩
    intro q h
    cases h
    exact hdot ⟨rfl, rfl⟩

theorem pathPieces_component {c : Bytes} (hslash : slash ∉ c) (hcomponent : isComponent c = true) {w : Bytes}
    (hw : w = [] ∨ w.head? = some slash) (i : Nat) :
    pathPieces i (c ++ w) = (i, c) :: pathPieces (i + c.length) w := by
  rcases hw with rfl | hw
  · rw [append_nil, pathPieces, Pieces.pieces_single hslash, if_pos hcomponent, pathPieces_nil]
  · obtain ⟨w, rfl⟩ := head?_eq_some_iff.mp hw
    rw [pathPieces, Pieces.pieces_append, Pieces.pieces_single hslash, if_pos hcomponent, pathPieces_slash]
    rfl

/-- What `path_find_first_component` finds: a component, with what is skipped before and after it. -/
inductive FindsFirst (p : Bytes) : Result FoundComponent → Prop
  | nothing (hpieces : ∀ i, pathPieces i p = []) : FindsFirst p (.ok ⟨0, none, []⟩)
  | tooLong (u c w : Bytes) (hp : p = u ++ c ++ w) (hlength : nameMax < c.length)
      (hpieces : ∀ i, pathPieces i p = (i + u.length, c) :: pathPieces (i + u.length + c.length) w) :
      FindsFirst p (.error EINVAL)
  | component (u c v rest : Bytes) (hp : p = u ++ (c ++ (v ++ rest))) (hlength : c.length ≤ nameMax) (hne : c ≠ [])
      (hslash : slash ∉ c) (hcomponent : isComponent c = true) (hv : rest ≠ [] → v ≠ [])
      (hpieces : ∀ i, pathPieces i p =
        (i + u.length, c) :: pathPieces (i + u.length + c.length + v.length) rest)
      (hret : ∀ i, pathPieces i p = pathPieces (i + u.length) (c ++ (v ++ rest))) :
      FindsFirst p (.ok ⟨c.length, some (c ++ (v ++ rest)), rest⟩)

/-- A text begins with what comes before the first slash or the end. -/
theorem exists_component (p : Bytes) :
    ∃ c w, p = c ++ w ∧ slash ∉ c ∧ (w = [] ∨ w.head? = some slash) := by
  rcases Pieces.single_or_split slash p with hsingle | ⟨c, w, rfl, hslash⟩
  · exact ⟨p, [], (append_nil p).symm, hsingle, .inl rfl⟩
  · exact ⟨c, slash :: w, rfl, hslash, .inr rfl⟩

theorem dropWhile_component {c w : Bytes} (hslash : slash ∉ c) (hw : w = [] ∨ w.head? = some slash) :
    (c ++ w).dropWhile (fun d => decide (d ≠ slash)) = w := by
  rw [dropWhile_append_of_pos]
  · rcases hw with rfl | hw
    · rfl
    · obtain ⟨q, rfl⟩ := head?_eq_some_iff.mp hw
      exact dropWhile_cons_of_neg (by decide)
  · intro d hd
    apply decide_eq_true
    rintro rfl
    exact hslash hd

/-- What is skipped after a component is not empty where something follows it. -/
theorem skipAfter (w : Bytes) (hw : w = [] ∨ w.head? = some slash) :
    ∃ v rest, w = v ++ rest ∧ (∀ i, pathPieces i w = pathPieces (i + v.length) rest) ∧ (rest ≠ [] → v ≠ []) ∧
      (if skipSlashOrDot w = [dot] then (skipSlashOrDot w).tail else skipSlashOrDot w) = rest := by
  obtain ⟨v, hsplit, hpieces, hhead, -⟩ := skipSlashOrDot_spec w
  generalize skipSlashOrDot w = next at hsplit hpieces hhead
  by_cases hdot : next = [dot]
  · rw [if_pos hdot, hdot]
    refine ⟨w, [], (append_nil w).symm, ?_, fun h => absurd rfl h, rfl⟩
    intro i
    rw [hpieces, hdot, pathPieces_dot, pathPieces_nil]
  · rw [if_neg hdot]
    refine ⟨v, next, hsplit, hpieces, ?_, rfl⟩
    rintro hnext rfl
    rw [nil_append] at hsplit
    rcases hw with hw | hw
    · exact hnext (hsplit.symm.trans hw)
    · exact hhead (hsplit ▸ hw)

theorem pathFindFirstComponent_finds (p : Bytes) : FindsFirst p (pathFindFirstComponent true p) := by
  obtain ⟨u, hp, hpieces, hhead, hdotSlash⟩ := skipSlashOrDot_spec p
  unfold pathFindFirstComponent
  generalize skipSlashOrDot p = first at hp hpieces hhead hdotSlash
  by_cases hempty : first.isEmpty
  · rw [if_pos hempty, isEmpty_iff.mp hempty]
    apply FindsFirst.nothing
    intro i
    rw [hpieces, isEmpty_iff.mp hempty, pathPieces_nil]
  rw [if_neg hempty]
  by_cases hdot : first = [dot]
  · rw [if_pos hdot, hdot]
    apply FindsFirst.nothing
    intro i
    rw [hpieces, hdot, pathPieces_dot]
  rw [if_neg hdot]
  -- The first component ends where `strchrnul` finds a slash or the end.
  obtain ⟨c, w, rfl, hslash, hw⟩ := exists_component first
  simp only [dropWhile_component hslash hw, length_append, Nat.add_sub_cancel]
  have hne : c ≠ [] := by
    rintro rfl
    rcases hw with rfl | hw
    · exact hempty rfl
    · exact hhead hw
  have hcomponent : isComponent c = true := by
    refine decide_eq_true ⟨hne, ?_⟩
    rintro rfl
    rcases hw with rfl | hw
    · exact hdot rfl
    · obtain ⟨q, rfl⟩ := head?_eq_some_iff.mp hw
      exact hdotSlash q rfl
  have hpieces' : ∀ i, pathPieces i p = (i + u.length, c) :: pathPieces (i + u.length + c.length) w := fun i => by
    rw [hpieces, pathPieces_component hslash hcomponent hw]
  by_cases hlength : c.length > nameMax
  · rw [if_pos hlength]
    exact .tooLong u c w (by rw [hp, append_assoc]) hlength hpieces'
  rw [if_neg hlength, if_neg (by simp)]
  obtain ⟨v, rest, rfl, hrest, hv, hnext⟩ := skipAfter w hw
  rw [hnext]
  exact .component u c v rest hp (Nat.le_of_not_lt hlength) hne hslash hcomponent hv
    (fun i => by rw [hpieces', hrest]) hpieces

/-- Where a component is found without accepting `..`, it is found as well when accepting it. -/
theorem pathFindFirstComponent_accept {acceptDotDot : Bool} {p : Bytes} {x : FoundComponent}
    (h : pathFindFirstComponent acceptDotDot p = .ok x) : pathFindFirstComponent true p = .ok x := by
  cases acceptDotDot with
  | true => exact h
  | false =>
    unfold pathFindFirstComponent at h ⊢
    simp only at h ⊢
    split at h
    · rename_i hempty
      rw [if_pos hempty]
      exact h
    rename_i hempty
    rw [if_neg hempty]
    split at h
    · rename_i hdot
      rw [if_pos hdot]
      exact h
    rename_i hdot
    rw [if_neg hdot]
    split at h
    · cases h
    rename_i hlength
    rw [if_neg hlength, if_neg (by simp)]
    split at h
    · cases h
    · exact h

/-- After a component there is less to read. -/
theorem FoundComponent.length_rest_lt {acceptDotDot : Bool} {p : Bytes} {x : FoundComponent}
    (h : pathFindFirstComponent acceptDotDot p = .ok x) (hx : x.length ≠ 0) : x.rest.length < p.length := by
  have hfinds := pathFindFirstComponent_finds p
  rw [pathFindFirstComponent_accept h] at hfinds
  cases hfinds with
  | nothing => exact absurd rfl hx
  | component u c v rest hp hlength hne =>
    have hpos := length_pos_iff.mpr hne
    show rest.length < p.length
    rw [hp, length_append, length_append, length_append]
    omega

end Elogind
