/-
  Elogind.Basic.PathBackward

  Reading a path from its end on (`path_find_last_component`).  The components that are found this way are those
  that are found from the beginning on, at the same places.
-/

import Elogind.Basic.PathOrder

namespace Elogind

open Byte Errno Lib List

/-! ## The last component -/

/-- The character at an index, which is zero at the end. -/
def charAt (path : Bytes) (i : Nat) : UInt8 := path.getD i 0

/-- `skip_slash_or_dot_backward`, from an index on. -/
def skipSlashOrDotBackward (path : Bytes) : Nat → Option Nat
  | 0 => if charAt path 0 = slash then none else if charAt path 0 = dot then none else some 0
  | q + 1 =>
    if charAt path (q + 1) = slash then skipSlashOrDotBackward path q
    else if charAt path q = slash ∧ charAt path (q + 1) = dot then skipSlashOrDotBackward path q
    else some (q + 1)

/-- The slash before a component, seen from this index on. -/
def slashBackward (path : Bytes) : Nat → Option Nat
  | 0 => if charAt path 0 = slash then some 0 else none
  | q + 1 => if charAt path (q + 1) = slash then some (q + 1) else slashBackward path q

/-- The index after the one that is given by a pointer, or the beginning. -/
def indexAfter : Option Nat → Nat
  | none => 0
  | some q => q + 1

/-- What `path_find_last_component` returns: the number, `*ret` and `*next`. -/
structure FoundLastComponent where
  length : Nat
  ret : Option Nat
  next : Nat

/-- `path_find_last_component`, after the arguments are checked, from the last index that is read. -/
def pathFindLastFrom (path : Bytes) (acceptDotDot : Bool) (q : Nat) : Result FoundLastComponent :=
  match skipSlashOrDotBackward path q with
  | none => .ok ⟨0, none, 0⟩
  | some q =>
    if q = 0 ∧ charAt path q = dot then .ok ⟨0, none, 0⟩
    else
      let lastEnd := q + 1
      let before := slashBackward path q
      let lastBegin := indexAfter before
      let len := lastEnd - lastBegin
      if len > nameMax then .error EINVAL
      else if !acceptDotDot && len = 2 && (path.drop lastBegin).take 2 = [dot, dot] then .error EINVAL
      else .ok ⟨len, some lastBegin, indexAfter (before.bind (skipSlashOrDotBackward path))⟩

/-- `path_find_last_component`, where the argument `next` is not null itself. -/
def pathFindLastComponent (path : Bytes) (acceptDotDot : Bool) (next : Option Nat) : Result FoundLastComponent :=
  if path.isEmpty then .ok ⟨0, none, 0⟩
  else
    match next with
    | none => pathFindLastFrom path acceptDotDot (path.length - 1)
    | some n =>
      if n > path.length then .error EINVAL
      else if n = 0 then .ok ⟨0, none, 0⟩
      else if charAt path n ≠ 0 ∧ charAt path n ≠ slash then .error EINVAL
      else pathFindLastFrom path acceptDotDot (n - 1)

/-! ## What is skipped -/

variable {path : Bytes} {q i : Nat}

theorem take_succ_eq (hq : q < path.length) : path.take (q + 1) = path.take q ++ [charAt path q] := by
  rw [take_succ_eq_append_getElem hq, charAt, getD_eq_getElem?_getD, getElem?_eq_getElem hq,
    Option.getD_some]

/-- At an index where a component ends. -/
structure EndsComponent (path : Bytes) (q : Nat) : Prop where
  notSlash : charAt path q ≠ slash
  notDot : ¬ (charAt path q = dot ∧ (q = 0 ∨ charAt path (q - 1) = slash))

/-- What is skipped has no components in it, and is followed by a slash. -/
theorem skipSlashOrDotBackward_spec (hq : q < path.length) :
    match skipSlashOrDotBackward path q with
    | none => pathPieces 0 (path.take (q + 1)) = []
    | some q' => q' ≤ q ∧ pathPieces 0 (path.take (q + 1)) = pathPieces 0 (path.take (q' + 1)) ∧
        EndsComponent path q' ∧ (q' < q → charAt path (q' + 1) = slash) := by
  induction q with
  | zero =>
    rw [take_succ_eq hq, take_zero, nil_append, skipSlashOrDotBackward]
    by_cases hslash : charAt path 0 = slash
    · rw [if_pos hslash, hslash]
      exact (pathPieces_slash 0 []).trans (pathPieces_nil _)
    · by_cases hdot : charAt path 0 = dot
      · rw [if_neg hslash, if_pos hdot, hdot]
        exact pathPieces_dot 0
      · rw [if_neg hslash, if_neg hdot]
        refine ⟨Nat.le_refl 0, ?_, ⟨hslash, fun h => hdot h.1⟩, fun h => absurd h (Nat.lt_irrefl 0)⟩
        rw [take_succ_eq hq]
        rfl
  | succ q ih =>
    have hrest := ih (by omega)
    rw [skipSlashOrDotBackward]
    by_cases hslash : charAt path (q + 1) = slash
    · rw [if_pos hslash]
      have hpieces : pathPieces 0 (path.take (q + 1 + 1)) = pathPieces 0 (path.take (q + 1)) := by
        rw [take_succ_eq hq, hslash]
        exact Pieces.pieces_concat_sep isComponent_nil 0 _
      cases hskip : skipSlashOrDotBackward path q with
      | none =>
        rw [hskip] at hrest
        exact hpieces.trans hrest
      | some q' =>
        rw [hskip] at hrest
        obtain ⟨hle, hsame, hends, hnext⟩ := hrest
        refine ⟨by omega, hpieces.trans hsame, hends, ?_⟩
        intro _
        rcases Nat.lt_or_eq_of_le hle with hlt | rfl
        · exact hnext hlt
        · exact hslash
    rw [if_neg hslash]
    by_cases hdot : charAt path q = slash ∧ charAt path (q + 1) = dot
    · rw [if_pos hdot]
      have hpieces : pathPieces 0 (path.take (q + 1 + 1)) = pathPieces 0 (path.take (q + 1)) := by
        rw [take_succ_eq hq, take_succ_eq (by omega), hdot.1, hdot.2, append_assoc, singleton_append]
        show Pieces.pieces _ _ _ _ = Pieces.pieces _ _ _ _
        rw [Pieces.pieces_append, Pieces.pieces_concat_sep isComponent_nil]
        exact (congrArg _ (pathPieces_dot _)).trans (append_nil _)
      cases hskip : skipSlashOrDotBackward path q with
      | none =>
        rw [hskip] at hrest
        exact hpieces.trans hrest
      | some q' =>
        rw [hskip] at hrest
        obtain ⟨hle, hsame, hends, hnext⟩ := hrest
        refine ⟨by omega, hpieces.trans hsame, hends, ?_⟩
        intro _
        rcases Nat.lt_or_eq_of_le hle with hlt | rfl
        · exact hnext hlt
        · exact absurd hdot.1 hends.notSlash
    · rw [if_neg hdot]
      refine ⟨Nat.le_refl _, rfl, ⟨hslash, ?_⟩, fun h => absurd h (Nat.lt_irrefl _)⟩
      rintro ⟨hchar, hzero | hbefore⟩
      · omega
      · exact hdot ⟨hbefore, hchar⟩

/-- The slash before a component. -/
theorem slashBackward_spec (hq : q < path.length) :
    match slashBackward path q with
    | none => slash ∉ path.take (q + 1)
    | some b => b ≤ q ∧ charAt path b = slash ∧ ∃ c, path.take (q + 1) = path.take b ++ slash :: c ∧ slash ∉ c := by
  induction q with
  | zero =>
    rw [slashBackward]
    by_cases hslash : charAt path 0 = slash
    · rw [if_pos hslash]
      exact ⟨Nat.le_refl 0, hslash, [], by rw [take_succ_eq hq, hslash], not_mem_nil⟩
    · rw [if_neg hslash]
      show slash ∉ path.take (0 + 1)
      rw [take_succ_eq hq]
      exact fun h => hslash (mem_singleton.mp h).symm
  | succ q ih =>
    rw [slashBackward]
    by_cases hslash : charAt path (q + 1) = slash
    · rw [if_pos hslash]
      exact ⟨Nat.le_refl _, hslash, [], by rw [take_succ_eq hq, hslash], not_mem_nil⟩
    · rw [if_neg hslash]
      have hrest := ih (by omega)
      cases hbefore : slashBackward path q with
      | none =>
        rw [hbefore] at hrest
        show slash ∉ path.take (q + 1 + 1)
        rw [take_succ_eq hq, mem_append, not_or]
        exact ⟨hrest, fun h => hslash (mem_singleton.mp h).symm⟩
      | some b =>
        rw [hbefore] at hrest
        obtain ⟨hle, hchar, c, hsplit, hc⟩ := hrest
        refine ⟨by omega, hchar, c ++ [charAt path (q + 1)], ?_, ?_⟩
        · rw [take_succ_eq hq, hsplit, append_assoc, cons_append]
        · rw [mem_append, not_or]
          exact ⟨hc, fun h => hslash (mem_singleton.mp h).symm⟩

/-! ## What is found -/

/-- Where a component ends that is read backward: there is a slash or the end of the path. -/
def IsBoundary (path : Bytes) (n : Nat) : Prop := n = 0 ∨ n = path.length ∨ n < path.length ∧ charAt path n = slash

/-- What `path_find_last_component` finds before an index: a component with what comes before it. -/
inductive FindsLast (path : Bytes) (n : Nat) : Result FoundLastComponent → Prop
  | nothing (hpieces : pathPieces 0 (path.take n) = []) : FindsLast path n (.ok ⟨0, none, 0⟩)
  | tooLong (i j : Nat) (c : Bytes) (hlength : nameMax < c.length)
      (hpieces : pathPieces 0 (path.take n) = pathPieces 0 (path.take j) ++ [(i, c)]) :
      FindsLast path n (.error EINVAL)
  | component (i j : Nat) (c : Bytes) (hlength : c.length ≤ nameMax) (hne : c ≠ []) (hlt : j < n)
      (hboundary : IsBoundary path j)
      (hpieces : pathPieces 0 (path.take n) = pathPieces 0 (path.take j) ++ [(i, c)]) :
      FindsLast path n (.ok ⟨c.length, some i, j⟩)

/-- What ends like a component is one. -/
theorem isComponent_of_endsComponent {c : Bytes} (hends : EndsComponent path q) (hq : q < path.length)
    (hi : i ≤ q) (hsplit : path.take (q + 1) = path.take i ++ c)
    (hbefore : i = 0 ∨ charAt path (i - 1) = slash) : c.length = q + 1 - i ∧ isComponent c = true := by
  have hlength := congrArg length hsplit
  rw [length_append, length_take, length_take, Nat.min_eq_left (by omega),
    Nat.min_eq_left (by omega)] at hlength
  refine ⟨by omega, decide_eq_true ⟨?_, ?_⟩⟩
  · rintro rfl
    rw [length_nil] at hlength
    omega
  · rintro rfl
    rw [length_singleton] at hlength
    obtain rfl : i = q := by omega
    rw [take_succ_eq hq] at hsplit
    exact hends.notDot ⟨singleton_inj.mp (append_cancel_left hsplit), hbefore⟩

/-- Before the slash in front of a component, too, everything that is skipped has no components in it. -/
theorem skipBefore {b : Nat} (hb : b < path.length) (hslash : charAt path b = slash) :
    indexAfter (skipSlashOrDotBackward path b) ≤ b ∧
      IsBoundary path (indexAfter (skipSlashOrDotBackward path b)) ∧
      pathPieces 0 (path.take b) = pathPieces 0 (path.take (indexAfter (skipSlashOrDotBackward path b))) := by
  have hskip := skipSlashOrDotBackward_spec hb
  have hconcat : pathPieces 0 (path.take (b + 1)) = pathPieces 0 (path.take b) := by
    rw [take_succ_eq hb, hslash]
    exact Pieces.pieces_concat_sep isComponent_nil 0 _
  cases hend : skipSlashOrDotBackward path b with
  | none =>
    rw [hend] at hskip
    refine ⟨Nat.zero_le b, .inl rfl, ?_⟩
    rw [← hconcat]
    exact hskip.trans (pathPieces_nil 0).symm
  | some e =>
    rw [hend] at hskip
    obtain ⟨hle, hsame, hends, hnext⟩ := hskip
    have hlt : e < b := by
      rcases Nat.lt_or_eq_of_le hle with hlt | rfl
      · exact hlt
      · exact absurd hslash hends.notSlash
    have hlength : e + 1 < path.length := by omega
    exact ⟨hlt, .inr (.inr ⟨hlength, hnext hlt⟩), hconcat.symm.trans hsame⟩

theorem pathFindLastFrom_finds (hq : q < path.length) :
    FindsLast path (q + 1) (pathFindLastFrom path true q) := by
  have hskip := skipSlashOrDotBackward_spec hq
  unfold pathFindLastFrom
  cases hend : skipSlashOrDotBackward path q with
  | none =>
    rw [hend] at hskip
    exact .nothing hskip
  | some e =>
    rw [hend] at hskip
    obtain ⟨hle, hsame, hends, -⟩ := hskip
    have he : e < path.length := by omega
    have hnot : ¬ (e = 0 ∧ charAt path e = dot) := fun h => hends.notDot ⟨h.2, .inl h.1⟩
    have hslash := slashBackward_spec he
    simp only [if_neg hnot, Bool.not_true, Bool.false_and, Bool.false_eq_true, if_false]
    cases hbefore : slashBackward path e with
    | none =>
      rw [hbefore] at hslash
      obtain ⟨hlength, hcomponent⟩ := isComponent_of_endsComponent hends he (Nat.zero_le e)
        (c := path.take (e + 1)) rfl (.inl rfl)
      have hpieces : pathPieces 0 (path.take (q + 1)) = pathPieces 0 (path.take 0) ++ [(0, path.take (e + 1))] := by
        rw [hsame, pathPieces, Pieces.pieces_single hslash, if_pos hcomponent, take_zero, pathPieces_nil]
        rfl
      have hlen : e + 1 - indexAfter none = (path.take (e + 1)).length := hlength.symm
      rw [hlen]
      split
      · rename_i hlong
        exact .tooLong 0 0 _ hlong hpieces
      · rename_i hfits
        refine .component 0 0 _ (Nat.le_of_not_lt hfits) ?_ (by omega) (.inl rfl) hpieces
        intro hnil
        rw [hnil, length_nil] at hlength
        omega
    | some b =>
      rw [hbefore] at hslash
      obtain ⟨hbe, hchar, c, hsplit, hc⟩ := hslash
      have hb : b < path.length := by omega
      have hsplit' : path.take (e + 1) = path.take (b + 1) ++ c := by
        rw [hsplit, take_succ_eq hb, hchar, append_assoc, singleton_append]
      have hne : b ≠ e := by
        rintro rfl
        exact hends.notSlash hchar
      obtain ⟨hlength, hcomponent⟩ := isComponent_of_endsComponent hends he (by omega) hsplit' (.inr hchar)
      obtain ⟨hjb, hboundary, hrest⟩ := skipBefore hb hchar
      have hpieces : pathPieces 0 (path.take (q + 1)) =
          pathPieces 0 (path.take (indexAfter (skipSlashOrDotBackward path b))) ++ [(b + 1, c)] := by
        rw [hsame, hsplit, ← hrest]
        show Pieces.pieces _ _ _ _ = _
        rw [Pieces.pieces_append, Pieces.pieces_single hc, if_pos hcomponent, length_take,
          Nat.min_eq_left (by omega), Nat.zero_add]
      have hlen : e + 1 - indexAfter (some b) = c.length := hlength.symm
      rw [hlen]
      split
      · rename_i hlong
        exact .tooLong _ _ _ hlong hpieces
      · rename_i hfits
        refine .component (b + 1) (indexAfter (skipSlashOrDotBackward path b)) c (Nat.le_of_not_lt hfits) ?_ (by omega)
          hboundary hpieces
        rintro rfl
        rw [length_nil] at hlength
        omega

theorem pathFindLastComponent_finds {n : Nat} (hn : IsBoundary path n) (hle : n ≤ path.length) :
    FindsLast path n (pathFindLastComponent path true (some n)) := by
  unfold pathFindLastComponent
  split
  · rename_i hempty
    rw [isEmpty_iff.mp hempty]
    exact .nothing (by rw [take_nil, pathPieces_nil])
  · simp only
    rw [if_neg (by omega)]
    by_cases hzero : n = 0
    · rw [if_pos hzero, hzero]
      exact .nothing (pathPieces_nil 0)
    · have hchar : ¬ (charAt path n ≠ 0 ∧ charAt path n ≠ slash) := by
        rintro ⟨hnul, hslash⟩
        rcases hn with hn | hn | hn
        · exact hzero hn
        · apply hnul
          rw [charAt, hn, getD_eq_getElem?_getD, getElem?_eq_none (Nat.le_refl _)]
          rfl
        · exact hslash hn.2
      rw [if_neg hzero, if_neg hchar]
      have hfinds := @pathFindLastFrom_finds path (n - 1) (by omega)
      rw [Nat.sub_add_cancel (by omega)] at hfinds
      exact hfinds

/-- At first the path is read from its end on. -/
theorem pathFindLastComponent_none (path : Bytes) :
    pathFindLastComponent path true none = pathFindLastComponent path true (some path.length) := by
  unfold pathFindLastComponent
  split
  · rfl
  · rename_i hempty
    have hne : path.length ≠ 0 := fun h => hempty (isEmpty_iff.mpr (length_eq_zero_iff.mp h))
    have hchar : charAt path path.length = 0 := by
      rw [charAt, getD_eq_getElem?_getD, getElem?_eq_none (Nat.le_refl _)]
      rfl
    simp only
    rw [if_neg (Nat.lt_irrefl _), if_neg hne, if_neg (fun h => h.1 hchar)]

/-- Each component is before the place at which it was looked for. -/
theorem FoundLastComponent.next_lt {next : Option Nat} {x : FoundLastComponent}
    (h : pathFindLastComponent path true next = .ok x) (hret : x.ret = some i) :
    x.next < next.getD (path.length + 1) := by
  have hfrom : ∀ {q : Nat}, q < path.length → pathFindLastFrom path true q = .ok x → x.next < q + 1 := by
    intro q hq hx
    have hfinds := pathFindLastFrom_finds hq
    rw [hx] at hfinds
    cases hfinds with
    | nothing => cases hret
    | component i j c hlength hne hlt => exact hlt
  unfold pathFindLastComponent at h
  split at h
  · cases h
    cases hret
  rename_i hempty
  have hpos : 0 < path.length := length_pos_iff.mpr fun h => hempty (isEmpty_iff.mpr h)
  split at h
  · have hlt := hfrom (by omega) h
    show x.next < path.length + 1
    omega
  · split at h
    · cases h
    split at h
    · cases h
      cases hret
    split at h
    · cases h
    · rename_i n hle hne _
      have hlt := hfrom (by omega) h
      show x.next < n
      omega

/-! ## All components -/

/-- What is found from the beginning on: the places of components and their lengths. -/
def componentsForward (path p : Bytes) : Result (List (Nat × Nat)) :=
  match h : pathFindFirstComponent true p with
  | .error er => .error er
  | .ok x =>
    if hx : x.length = 0 then .ok []
    else (componentsForward path x.rest).map ((path.length - (x.ret.getD []).length, x.length) :: ·)
termination_by p.length
decreasing_by exact FoundComponent.length_rest_lt h hx

/-- What is found from the end on. -/
def componentsBackward (path : Bytes) (next : Option Nat) : Result (List (Nat × Nat)) :=
  match h : pathFindLastComponent path true next with
  | .error er => .error er
  | .ok x =>
    match hret : x.ret with
    | none => .ok []
    | some i => (componentsBackward path (some x.next)).map ((i, x.length) :: ·)
termination_by next.getD (path.length + 1)
decreasing_by exact FoundLastComponent.next_lt h hret

theorem componentsBackward_ok {next : Option Nat} {x : FoundLastComponent}
    (h : pathFindLastComponent path true next = .ok x) :
    componentsBackward path next =
      match x.ret with
      | none => .ok []
      | some i => (componentsBackward path (some x.next)).map ((i, x.length) :: ·) := by
  rw [componentsBackward]
  split
  · rename_i h'
    rw [h] at h'
    cases h'
  · rename_i y h'
    rw [h] at h'
    cases h'
    cases x.ret with
    | none => rfl
    | some i => rfl

/-- The place of a component and its length. -/
def extentOf (e : Nat × Bytes) : Nat × Nat := (e.1, e.2.length)

theorem componentsForward_eq {p : Bytes} (hi : path.length = i + p.length) (hp : NamesFit p) :
    componentsForward path p = .ok ((pathPieces i p).map extentOf) := by
  induction p using path_induction generalizing i with
  | nothing p hfind hpieces =>
    rw [componentsForward, hpieces]
    split
    · rename_i h
      rw [hfind] at h
      cases h
    · rename_i x h
      rw [hfind] at h
      cases h
      rfl
  | tooLong p u c w _ _ hlength hpieces =>
    have hle := hp c (pathComponents_cons (hpieces 0) ▸ mem_cons_self)
    omega
  | component p u c v rest hfind hsplit hlength hne hslash hcomponent hv hpieces hret ih =>
    have hrest := ih (i := i + u.length + c.length + v.length)
      (by
        rw [hi, hsplit, length_append, length_append, length_append]
        omega)
      (fun d hd => hp d (pathComponents_cons (hpieces 0) ▸ mem_cons_of_mem _ hd))
    rw [componentsForward]
    split
    · rename_i h
      rw [hfind] at h
      cases h
    · rename_i x h
      rw [hfind] at h
      cases h
      rw [dif_neg (length_pos_iff.mpr hne).ne', hrest, hpieces]
      have hplace : path.length - (c ++ (v ++ rest)).length = i + u.length := by
        rw [hi, hsplit, length_append]
        omega
      exact congrArg (fun j => Except.ok ((j, c.length) :: _)) hplace

theorem componentsBackward_eq {n : Nat} (hn : IsBoundary path n) (hle : n ≤ path.length)
    (hpath : NamesFit (path.take n)) :
    componentsBackward path (some n) = .ok ((pathPieces 0 (path.take n)).reverse.map extentOf) := by
  induction n using Nat.strongRecOn with
  | _ n ih =>
    have hfinds := pathFindLastComponent_finds hn hle
    generalize hr : pathFindLastComponent path true (some n) = r at hfinds
    have hmem : ∀ {i j : Nat} {c : Bytes},
        pathPieces 0 (path.take n) = pathPieces 0 (path.take j) ++ [(i, c)] →
        c.length ≤ nameMax ∧ NamesFit (path.take j) := by
      intro i j c hpieces
      have hcomponents : pathComponents (path.take n) = pathComponents (path.take j) ++ [c] := by
        rw [pathComponents, hpieces, map_append]
        rfl
      rw [NamesFit, hcomponents] at hpath
      exact ⟨hpath c (mem_append_right _ mem_cons_self), fun d hd => hpath d (mem_append_left _ hd)⟩
    cases hfinds with
    | nothing hpieces =>
      rw [hpieces, componentsBackward_ok hr]
      rfl
    | tooLong i j c hlength hpieces =>
      have hfits := (hmem hpieces).1
      omega
    | component i j c hlength hne hlt hboundary hpieces =>
      have hrest := ih j hlt hboundary (by omega) (hmem hpieces).2
      rw [componentsBackward_ok hr, hpieces, reverse_append, map_append, reverse_singleton]
      show (componentsBackward path (some j)).map ((i, c.length) :: ·) = _
      rw [hrest]
      rfl

/-- Reading from the end on finds what reading from the beginning on finds, in reverse order. -/
theorem componentsBackward_eq_reverse {p : Bytes} (hp : NamesFit p) :
    componentsForward p p = .ok ((pathPieces 0 p).map extentOf) ∧
      componentsBackward p none = .ok ((pathPieces 0 p).map extentOf).reverse := by
  refine ⟨componentsForward_eq (Nat.zero_add _).symm hp, ?_⟩
  have hwhole : p.take p.length = p := take_length
  have hfrom := @componentsBackward_eq p p.length (.inr (.inl rfl)) (Nat.le_refl _) (hwhole.symm ▸ hp)
  rw [hwhole, map_reverse] at hfrom
  have hfirst := pathFindLastComponent_none p
  rw [← hfrom]
  cases hfind : pathFindLastComponent p true (some p.length) with
  | error er =>
    rw [componentsBackward] at hfrom
    split at hfrom
    · cases hfrom
    · rename_i x h
      rw [hfind] at h
      cases h
  | ok x => rw [componentsBackward_ok (hfirst.trans hfind), componentsBackward_ok hfind]

end Elogind
