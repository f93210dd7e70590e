/-
  Elogind.Login.CgroupUtil

  The names of sessions as cgroups (cgroup-util.c).  A process belongs to the session whose name comes first in the
  path of its cgroup, after the root path.

  There is no result where an assertion does not hold.  Memory never runs out.
-/

import Elogind.Basic.BusLabel
import Elogind.Basic.PathOrder
import Elogind.Login.Session

namespace Elogind

open Byte Errno Lib List

/-! ## Escaping names -/

/-- `filename_part_is_valid` -/
def filenamePartIsValid (p : Bytes) : Bool := slash ∉ p ∧ p.length ≤ nameMax

/-- `filename_is_valid` -/
def filenameIsValid (p : Bytes) : Bool := !p.isEmpty && !(p = [dot] || p = [dot, dot]) && filenamePartIsValid p

/-- `cgroup_controller_table`, up to `_CGROUP_CONTROLLER_MAX`: there is nothing for the firewall and the devices of
    BPF, which are left out of the table but not of the enumeration. -/
def cgroupControllerTable : List (Option Bytes) :=
  [some (ascii "cpu"), some (ascii "cpuacct"), some (ascii "cpuset"), some (ascii "io"), some (ascii "blkio"),
    some (ascii "memory"), some (ascii "devices"), some (ascii "pids"), none, none, some (ascii "bpf-foreign"),
    some (ascii "bpf-socket-bind"), some (ascii "bpf-restrict-network-interfaces")]

/-- The loop in `cg_needs_escape`.  `startswith` asserts that there is something to look for. -/
def needsEscapeLoop (p : Bytes) : List (Option Bytes) → Option Bool
  | [] => some false
  | none :: _ => none
  | some c :: cs =>
    match startswith p c with
    | none => needsEscapeLoop p cs
    | some q => if q.head? = some dot then some true else needsEscapeLoop p cs

/-- `cg_needs_escape` -/
def cgNeedsEscape (p : Bytes) : Option Bool :=
  if !filenameIsValid p then some true
  else if p.head? = some underscore ∨ p.head? = some dot then some true
  else if p = ascii "notify_on_release" ∨ p = ascii "release_agent" ∨ p = ascii "tasks" then some true
  else if (startswith p (ascii "cgroup.")).isSome then some true
  else needsEscapeLoop p cgroupControllerTable

/-- `cg_escape` -/
def cgEscape (p : Bytes) : Option (Result Bytes) :=
  (cgNeedsEscape p).map fun needed =>
    if needed then if !filenameIsValid (underscore :: p) then .error EINVAL else .ok (underscore :: p)
    else .ok p

/-- `cg_unescape` -/
def cgUnescape (p : Bytes) : Bytes := if p.head? = some underscore then p.tail else p

/-! ## Paths -/

/-- `cg_shift_path`, where the root path is given. -/
def cgShiftPath (cgroup root : Bytes) : Bytes :=
  match pathStartswith cgroup root with
  | none => cgroup
  | some p =>
    if p ≠ [] ∧ p.length < cgroup.length then cgroup.drop (cgroup.length - p.length - 1) else cgroup

/-- `cg_path_get_session` -/
def cgPathGetSession (path : Bytes) : Option (Result Bytes) :=
  match path with
  | [] => some (.error ENXIO)
  | c :: e =>
    if c ≠ slash then none
    else if e.takeWhile (fun d => d ≠ slash) = [] then some (.error ENXIO)
    else
      let start := cgUnescape (e.takeWhile fun d => d ≠ slash)
      if start.head? = none then some (.error ENXIO)
      else if !sessionIdValid start then some (.error ENXIO)
      else some (.ok start)

/-! ## Names that can be escaped -/

/-- The names of the kernel in a cgroup, as far as they are known. -/
def isKernelName (n : Bytes) : Bool :=
  n = ascii "notify_on_release" || n = ascii "release_agent" || n = ascii "tasks" ||
    (ascii "cgroup.").isPrefixOf n || cgroupControllerTable.any fun c => c.any fun c => (c ++ [dot]).isPrefixOf n

/-- The controllers before the gap in the table. -/
def controllersBeforeGap : List Bytes :=
  [ascii "cpu", ascii "cpuacct", ascii "cpuset", ascii "io", ascii "blkio", ascii "memory", ascii "devices",
    ascii "pids"]

/-- The names that are known to need escaping before the gap in the table is reached. -/
def isKnownBeforeGap (p : Bytes) : Bool :=
  p.head? = some underscore || p.head? = some dot ||
    (p = ascii "notify_on_release" || p = ascii "release_agent" || p = ascii "tasks") ||
    (ascii "cgroup.").isPrefixOf p || controllersBeforeGap.any fun c => (c ++ [dot]).isPrefixOf p

theorem startswith_dot (p c : Bytes) :
    (match startswith p c with
      | none => false
      | some q => decide (q.head? = some dot)) = (c ++ [dot]).isPrefixOf p := by
  unfold startswith
  by_cases hstart : c.isPrefixOf p = true
  · obtain ⟨q, rfl⟩ := isPrefixOf_iff_prefix.mp hstart
    rw [if_pos hstart, drop_left, Bool.eq_iff_iff, decide_eq_true_iff, isPrefixOf_iff_prefix,
      prefix_append_right_inj, singleton_prefix_iff_head?_eq_some]
  · rw [if_neg hstart]
    apply Eq.symm
    rw [Bool.eq_false_iff]
    intro h
    exact hstart (List.isPrefixOf_iff_prefix.mpr ((prefix_append c [dot]).trans (List.isPrefixOf_iff_prefix.mp h)))

/-- Where there is nothing in the table, the loop only gets so far. -/
theorem needsEscapeLoop_gap (p : Bytes) (cs : List Bytes) (rest : List (Option Bytes)) :
    needsEscapeLoop p (cs.map some ++ none :: rest) =
      if (cs.any fun c => (c ++ [dot]).isPrefixOf p) = true then some true else none := by
  induction cs with
  | nil => rfl
  | cons c cs ih =>
    rw [map_cons, cons_append, needsEscapeLoop, any_cons, ← startswith_dot, ih]
    cases startswith p c with
    | none => rfl
    | some q =>
      by_cases hdot : q.head? = some dot
      · simp [hdot]
      · simp [hdot]

theorem cgNeedsEscape_eq {p : Bytes} (hvalid : filenameIsValid p = true) :
    cgNeedsEscape p = if isKnownBeforeGap p = true then some true else none := by
  have htable : cgroupControllerTable = controllersBeforeGap.map some ++ none ::
      [none, some (ascii "bpf-foreign"), some (ascii "bpf-socket-bind"),
        some (ascii "bpf-restrict-network-interfaces")] := rfl
  have hcgroup : (startswith p (ascii "cgroup.")).isSome = (ascii "cgroup.").isPrefixOf p := by
    unfold startswith
    cases (ascii "cgroup.").isPrefixOf p with
    | false | true => rfl
  unfold cgNeedsEscape isKnownBeforeGap
  rw [hvalid, hcgroup, htable, needsEscapeLoop_gap, if_neg (by decide)]
  by_cases hfirst : p.head? = some underscore ∨ p.head? = some dot
  · rcases hfirst with hfirst | hfirst <;> simp [hfirst]
  rw [if_neg hfirst]
  rw [not_or] at hfirst
  by_cases hname : p = ascii "notify_on_release" ∨ p = ascii "release_agent" ∨ p = ascii "tasks"
  · rcases hname with hname | hname | hname <;> simp [hname]
  rw [if_neg hname]
  rw [not_or, not_or] at hname
  by_cases hstart : (ascii "cgroup.").isPrefixOf p = true
  · simp [hstart]
  rw [if_neg hstart]
  simp only [hfirst, hname, hstart, decide_false, Bool.false_or, Bool.or_self]

/-- A file name that can still be escaped is so with an underscore before it. -/
theorem filenameIsValid_underscore {p : Bytes} (hslash : slash ∉ p) (hlength : p.length < nameMax) :
    filenameIsValid (underscore :: p) = true := by
  have hpart : filenamePartIsValid (underscore :: p) = true := by
    refine decide_eq_true ⟨?_, ?_⟩
    · rw [mem_cons, not_or]
      exact ⟨by decide, hslash⟩
    · rw [length_cons]
      omega
  unfold filenameIsValid
  rw [hpart]
  simp [underscore, dot]

theorem cgEscape_eq {p : Bytes} (hne : p ≠ []) (hslash : slash ∉ p) (hlength : p.length < nameMax) :
    cgEscape p = if isKnownBeforeGap p = true then some (.ok (underscore :: p)) else none := by
  have hescaped := filenameIsValid_underscore hslash hlength
  have hneeded : cgNeedsEscape p = if isKnownBeforeGap p = true then some true else none := by
    by_cases hvalid : filenameIsValid p = true
    · exact cgNeedsEscape_eq hvalid
    · -- The only names that are no file names and yet can be escaped are `.` and `..`.
      have hpart : filenamePartIsValid p = true := decide_eq_true ⟨hslash, by omega⟩
      have hdots : p = [dot] ∨ p = [dot, dot] := by
        unfold filenameIsValid at hvalid
        rw [hpart] at hvalid
        simpa [hne, or_iff_not_imp_left] using hvalid
      have hknown : isKnownBeforeGap p = true := by
        rcases hdots with rfl | rfl
        · decide
        · decide
      unfold cgNeedsEscape
      rw [if_pos hknown, Bool.eq_false_iff.mpr hvalid]
      rfl
  unfold cgEscape
  rw [hneeded, hescaped]
  by_cases hknown : isKnownBeforeGap p = true
  · rw [if_pos hknown, if_pos hknown]
    rfl
  · rw [if_neg hknown, if_neg hknown]
    rfl

/-- What is escaped is not longer than a file name. -/
theorem length_lt_of_cgEscape {p n : Bytes} (h : cgEscape p = some (.ok n)) : p.length < nameMax := by
  obtain ⟨needed, hneeded, h⟩ := Option.map_eq_some_iff.mp h
  cases needed with
  | true =>
    by_cases hvalid : filenameIsValid (underscore :: p) = true
    · unfold filenameIsValid at hvalid
      rw [Bool.and_eq_true] at hvalid
      exact (of_decide_eq_true hvalid.2).2
    · rw [if_pos rfl, Bool.eq_false_iff.mpr hvalid] at h
      cases h
  | false =>
    by_cases hvalid : filenameIsValid p = true
    · rw [cgNeedsEscape_eq hvalid] at hneeded
      split at hneeded
      · cases hneeded
      · cases hneeded
    · unfold cgNeedsEscape at hneeded
      rw [Bool.eq_false_iff.mpr hvalid] at hneeded
      cases hneeded

/-- No name of the kernel begins with an underscore. -/
theorem isKernelName_underscore (p : Bytes) : isKernelName (underscore :: p) = false := rfl

/-- The name survives: it is escaped without failing an assertion, to a file name that is not one of the kernel's,
    and unescaping gives it back. -/
def SurvivesEscaping (p : Bytes) : Prop :=
  ∃ n, cgEscape p = some (.ok n) ∧ filenameIsValid n = true ∧ isKernelName n = false ∧ cgUnescape n = p

theorem survivesEscaping_iff {p : Bytes} (hne : p ≠ []) (hslash : slash ∉ p) (hlength : p.length < nameMax) :
    SurvivesEscaping p ↔ isKnownBeforeGap p = true := by
  unfold SurvivesEscaping
  rw [cgEscape_eq hne hslash hlength]
  by_cases hknown : isKnownBeforeGap p = true
  · rw [if_pos hknown]
    exact iff_of_true ⟨_, rfl, filenameIsValid_underscore hslash hlength, isKernelName_underscore p, rfl⟩ hknown
  · rw [if_neg hknown]
    refine iff_of_false ?_ hknown
    rintro ⟨n, hn, -⟩
    cases hn

/-! ## Sessions in the tree -/

/-- The path of the root cgroup: it is absolute or empty, and none of its components is too long. -/
structure IsRootPath (root : Bytes) : Prop where
  absolute : root = [] ∨ pathIsAbsolute root = true
  fit : NamesFit root

/-- The test for a prefix returns what is in the path from the component on that comes after those of the
    prefix. -/
theorem pathStartswithLoop_place {path initial c : Bytes} {i j : Nat} {before rest : List (Nat × Bytes)}
    (hpieces : pathPieces i path = before ++ (j, c) :: rest) (hinitial : before.map Prod.snd = pathComponents initial)
    (hfit : NamesFit initial) (hc : c.length ≤ nameMax) :
    ∃ u r, pathStartswithLoop true path initial = some r ∧ path = u ++ r ∧ j = i + u.length := by
  have hfinds := pathFindFirstComponent_finds initial
  generalize hfind' : pathFindFirstComponent true initial = f at hfinds
  induction path using path_induction generalizing i initial before f with
  | nothing path hfind hnone =>
    rw [hnone] at hpieces
    exact absurd hpieces.symm (by simp)
  | tooLong path u d w hfind _ hlength hpath =>
    rw [hpath] at hpieces
    cases before with
    | nil =>
      obtain ⟨h, -⟩ := cons.inj hpieces
      cases h
      omega
    | cons e before =>
      obtain ⟨rfl, -⟩ := cons.inj hpieces
      have hle := hfit d (hinitial ▸ mem_cons_self)
      omega
  | component path u d v tail hfind hp hlength hne hslash hcomponent hv hpath hret ih =>
    rw [hpath] at hpieces
    cases before with
    | nil =>
      obtain ⟨h, -⟩ := cons.inj hpieces
      cases h
      refine ⟨u, c ++ (v ++ tail), ?_, hp, rfl⟩
      cases hfinds with
      | nothing => rw [pathStartswithLoop_ok hfind hfind', if_pos rfl, Option.getD_some]
      | tooLong u' e w' _ _ hpieces' | component u' e v' tail' _ _ _ _ _ _ hpieces' =>
        have hcons := pathComponents_cons (hpieces' 0)
        rw [← hinitial] at hcons
        cases hcons
    | cons e before =>
      obtain ⟨rfl, hrest⟩ := cons.inj hpieces
      cases hfinds with
      | nothing hpieces' =>
        rw [pathComponents_nothing hpieces'] at hinitial
        cases hinitial
      | tooLong u' e w' _ hlength' hpieces' =>
        have hle := hfit e (pathComponents_cons (hpieces' 0) ▸ mem_cons_self)
        omega
      | component u' e v' tail' _ _ hne' _ _ _ hpieces' =>
        have hcons := pathComponents_cons (hpieces' 0)
        rw [hcons] at hinitial
        obtain ⟨hsame, hinitial'⟩ := cons.inj hinitial
        obtain rfl : d = e := hsame
        have hposition := (length_pos_iff.mpr hne).ne'
        rw [pathStartswithLoop_ok hfind hfind', if_neg hposition, if_pos ⟨rfl, hposition⟩, Option.getD_some,
          Option.getD_some, take_left, take_left, if_pos rfl]
        obtain ⟨s, r, hloop, hsplit, hj⟩ := ih hrest hinitial'
          (fun g hg => hfit g (hcons ▸ mem_cons_of_mem _ hg)) _ rfl (pathFindFirstComponent_finds tail')
        refine ⟨u ++ (d ++ (v ++ s)), r, hloop, ?_, ?_⟩
        · rw [hp, hsplit]
          simp only [append_assoc]
        · simp only [length_append]
          omega

/-- Below the root path, the path is shifted to the slash after it. -/
theorem cgShiftPath_below {root c w : Bytes} (hroot : IsRootPath root) (hslash : slash ∉ c)
    (hcomponent : isComponent c = true) (hc : c.length ≤ nameMax) (hw : w = [] ∨ w.head? = some slash) :
    cgShiftPath (root ++ slash :: (c ++ w)) root = slash :: (c ++ w) := by
  have hne : c ≠ [] := (of_decide_eq_true hcomponent).1
  unfold cgShiftPath pathStartswith pathStartswithFull
  by_cases habsolute : pathIsAbsolute (root ++ slash :: (c ++ w)) ≠ pathIsAbsolute root
  · rcases hroot.absolute with rfl | habsolute'
    · rfl
    · exfalso
      apply habsolute
      obtain ⟨root, rfl⟩ := head?_eq_some_iff.mp (of_decide_eq_true habsolute')
      rfl
  · rw [if_neg habsolute]
    have hpieces : pathPieces 0 (root ++ slash :: (c ++ w)) =
        pathPieces 0 root ++ (root.length + 1, c) :: pathPieces (root.length + 1 + c.length) w := by
      show Pieces.pieces _ _ _ _ = _
      rw [Pieces.pieces_append, Nat.zero_add]
      exact congrArg _ (pathPieces_component hslash hcomponent hw _)
    obtain ⟨u, r, hloop, hsplit, hplace⟩ := pathStartswithLoop_place hpieces rfl hroot.fit hc
    rw [Nat.zero_add] at hplace
    have hsplit' : (root ++ [slash]) ++ (c ++ w) = u ++ r := by
      rw [← hsplit, append_assoc, singleton_append]
    obtain ⟨rfl, rfl⟩ := append_inj hsplit' (by rw [length_append, ← hplace]; rfl)
    rw [hloop]
    have hlength : (root ++ slash :: (c ++ w)).length - (c ++ w).length - 1 = root.length := by
      rw [length_append, length_cons]
      omega
    show (if c ++ w ≠ [] ∧ (c ++ w).length < (root ++ slash :: (c ++ w)).length then _ else _) = _
    rw [if_pos, hlength, drop_left]
    refine ⟨fun h => hne (append_eq_nil_iff.mp h).1, ?_⟩
    rw [@length_append UInt8 root (slash :: (c ++ w)), length_cons]
    omega

/-- The root path itself is left as it is. -/
theorem cgShiftPath_self {root : Bytes} (hroot : IsRootPath root) : cgShiftPath root root = root := by
  unfold cgShiftPath
  rw [(pathStartswith_eq_empty_iff hroot.fit hroot.fit).mpr ⟨rfl, rfl⟩]
  exact if_neg fun h => h.1 rfl

/-- The name of the session is the first component, unescaped. -/
theorem cgPathGetSession_eq {n w : Bytes} (hslash : slash ∉ n) (hw : w = [] ∨ w.head? = some slash) :
    cgPathGetSession (slash :: (n ++ w)) =
      if sessionIdValid (cgUnescape n) = true then some (.ok (cgUnescape n)) else some (.error ENXIO) := by
  have htake : (n ++ w).takeWhile (fun d => decide (d ≠ slash)) = n := by
    have hsplit := takeWhile_append_dropWhile (p := fun d => decide (d ≠ slash)) (l := n ++ w)
    rw [dropWhile_component hslash hw] at hsplit
    exact append_cancel_right hsplit
  unfold cgPathGetSession
  simp only [ne_eq, not_true_eq_false, if_false]
  rw [htake]
  by_cases hnil : n = []
  · rw [if_pos hnil, hnil]
    rfl
  rw [if_neg hnil]
  cases hstart : cgUnescape n with
  | nil => rfl
  | cons d start =>
    cases sessionIdValid (d :: start) with
    | false | true => rfl

/-- A session id has letters and digits only. -/
theorem not_special_of_sessionIdValid {s : Bytes} (hs : sessionIdValid s = true) :
    s ≠ [] ∧ slash ∉ s ∧ dot ∉ s ∧ underscore ∉ s := by
  unfold sessionIdValid at hs
  rw [Bool.and_eq_true, all_eq_true] at hs
  refine ⟨?_, ?_, ?_, ?_⟩
  · rintro rfl
    exact absurd hs.1 (by decide)
  · exact fun h => absurd (hs.2 _ h) (by decide)
  · exact fun h => absurd (hs.2 _ h) (by decide)
  · exact fun h => absurd (hs.2 _ h) (by decide)

/-- Only one of the names that are known to need escaping is a session id. -/
theorem isKnownBeforeGap_of_sessionIdValid {s : Bytes} (hs : sessionIdValid s = true) :
    isKnownBeforeGap s = true ↔ s = ascii "tasks" := by
  obtain ⟨hne, hslash, hdot, hunderscore⟩ := not_special_of_sessionIdValid hs
  have hfirst : ∀ c : UInt8, s.head? = some c → c ∈ s := fun c hc => mem_of_head? hc
  have hstart : ∀ n : Bytes, dot ∈ n → n.isPrefixOf s = false := by
    intro n hn
    rw [Bool.eq_false_iff]
    intro h
    exact hdot ((List.isPrefixOf_iff_prefix.mp h).subset hn)
  constructor
  · intro hknown
    unfold isKnownBeforeGap at hknown
    rw [Bool.or_eq_true, Bool.or_eq_true, Bool.or_eq_true, Bool.or_eq_true, Bool.or_eq_true, Bool.or_eq_true] at hknown
    rcases hknown with (((h | h) | (h | h) | h) | h) | h
    · exact absurd (hfirst _ (of_decide_eq_true h)) hunderscore
    · exact absurd (hfirst _ (of_decide_eq_true h)) hdot
    · rw [of_decide_eq_true h] at hunderscore
      exact absurd (by decide) hunderscore
    · rw [of_decide_eq_true h] at hunderscore
      exact absurd (by decide) hunderscore
    · exact of_decide_eq_true h
    · rw [hstart _ (by decide)] at h
      cases h
    · obtain ⟨c, -, hc⟩ := any_eq_true.mp h
      rw [hstart _ (mem_append_right _ mem_cons_self)] at hc
      cases hc
  · rintro rfl
    decide

/-- The session is found below the root path. -/
def SessionFound (root s w : Bytes) : Prop :=
  ∃ n, cgEscape s = some (.ok n) ∧
    cgPathGetSession (cgShiftPath (root ++ slash :: (n ++ w)) root) = some (.ok s)

theorem sessionFound_iff {root s w : Bytes} (hroot : IsRootPath root) (hs : sessionIdValid s = true)
    (hw : w = [] ∨ w.head? = some slash) : SessionFound root s w ↔ s = ascii "tasks" := by
  obtain ⟨hne, hslash, -, -⟩ := not_special_of_sessionIdValid hs
  unfold SessionFound
  by_cases hlength : s.length < nameMax
  swap
  · refine iff_of_false ?_ ?_
    · rintro ⟨n, hn, -⟩
      exact hlength (length_lt_of_cgEscape hn)
    · rintro rfl
      exact hlength (by decide)
  rw [cgEscape_eq hne hslash hlength, ← isKnownBeforeGap_of_sessionIdValid hs]
  by_cases hknown : isKnownBeforeGap s = true
  · rw [if_pos hknown]
    refine iff_of_true ⟨_, rfl, ?_⟩ hknown
    have hescaped : slash ∉ underscore :: s := by
      rw [mem_cons, not_or]
      exact ⟨by decide, hslash⟩
    have hcomponent : isComponent (underscore :: s) = true := by
      refine decide_eq_true ⟨cons_ne_nil _ _, ?_⟩
      intro h
      exact absurd (cons.inj h).1 (by decide)
    rw [cgShiftPath_below hroot hescaped hcomponent hlength hw, cgPathGetSession_eq hescaped hw]
    exact if_pos hs
  · rw [if_neg hknown]
    refine iff_of_false ?_ hknown
    rintro ⟨n, hn, -⟩
    cases hn

/-- The first component after the leading slash of the root path, which may be empty. -/
def firstOfRoot (root : Bytes) : Bytes := root.tail.takeWhile fun d => d ≠ slash

/-- No session is reported for the root path itself exactly if what comes first in it is not one. -/
theorem noSession_iff {root : Bytes} (hroot : IsRootPath root) :
    cgPathGetSession (cgShiftPath root root) = some (.error ENXIO) ↔
      sessionIdValid (cgUnescape (firstOfRoot root)) = false := by
  rw [cgShiftPath_self hroot]
  rcases hroot.absolute with rfl | habsolute
  · exact iff_of_true rfl rfl
  · obtain ⟨e, rfl⟩ := head?_eq_some_iff.mp (of_decide_eq_true habsolute)
    obtain ⟨n, w, rfl, hslash, hw⟩ := exists_component e
    have htake : firstOfRoot (slash :: (n ++ w)) = n := by
      have hsplit := takeWhile_append_dropWhile (p := fun d => decide (d ≠ slash)) (l := n ++ w)
      rw [dropWhile_component hslash hw] at hsplit
      exact append_cancel_right hsplit
    rw [cgPathGetSession_eq hslash hw, htake]
    cases sessionIdValid (cgUnescape n) with
    | false => exact iff_of_true rfl rfl
    | true => exact iff_of_false (fun h => by cases h) (fun h => by cases h)

/-- A name survives exactly if it is known to need escaping before the gap in the table of controllers, which for a
    session id leaves a single one; and no session is reported for the root cgroup exactly if the first component
    of its path is not a session id. -/
theorem sessions_in_tree {p root s w : Bytes} (hne : p ≠ []) (hslash : slash ∉ p) (hlength : p.length < nameMax)
    (hroot : IsRootPath root) (hs : sessionIdValid s = true) (hw : w = [] ∨ w.head? = some slash) :
    (SurvivesEscaping p ↔ isKnownBeforeGap p = true) ∧ (SessionFound root s w ↔ s = ascii "tasks") ∧
      (cgPathGetSession (cgShiftPath root root) = some (.error ENXIO) ↔
        sessionIdValid (cgUnescape (firstOfRoot root)) = false) :=
  ⟨survivesEscaping_iff hne hslash hlength, sessionFound_iff hroot hs hw, noSession_iff hroot⟩

theorem isRootPath_elogind : IsRootPath (ascii "/elogind") where
  absolute := .inr (by decide)
  fit := by
    unfold NamesFit
    decide

/-- The root path `/elogind`, below which the session `tasks` is found, and which is taken for a session itself. -/
theorem sessions_in_tree_elogind :
    SurvivesEscaping (ascii "cpu.x") ∧ SessionFound (ascii "/elogind") (ascii "tasks") (ascii "/x") ∧
      cgPathGetSession (cgShiftPath (ascii "/elogind") (ascii "/elogind")) ≠ some (.error ENXIO) := by
  obtain ⟨hname, hsession, hroot⟩ := @sessions_in_tree (ascii "cpu.x") (ascii "/elogind") (ascii "tasks") (ascii "/x")
    (by decide) (by decide) (by decide) isRootPath_elogind (by decide) (.inr (by decide))
  exact ⟨hname.mpr (by decide), hsession.mpr rfl, fun h => absurd (hroot.mp h) (by decide)⟩

/-- Escaping the name `c1` fails an assertion, and the root cgroup `/elogind` is taken for a session. -/
theorem cgEscape_c1 :
    cgEscape (ascii "c1") = none ∧
      cgPathGetSession (cgShiftPath (ascii "/elogind") (ascii "/elogind")) = some (.ok (ascii "elogind")) := by
  refine ⟨by decide, ?_⟩
  rw [cgShiftPath_self isRootPath_elogind]
  decide

end Elogind
