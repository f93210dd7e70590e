/-
  Elogind.Login.CgroupPid

  The cgroup of a process (`cg_pid_get_path` in cgroup-util.c), as it is found in the lines of `/proc/PID/cgroup`.

  There is no result where the code reads behind the end of a line.  Memory never runs out, and reading never fails
  once the file is open.
-/

import Elogind.Basic.BusLabel
import Elogind.Basic.ParseUtil
import Elogind.Basic.StringUtil
import Mathlib.Data.List.TakeWhile

namespace Elogind

open Byte Errno List

-- for what is checked for each byte
set_option maxRecDepth 2000

namespace Errno

def EUNATCH : Errno := ⟨49, by decide⟩
def ENODATA : Errno := ⟨61, by decide⟩

end Errno

/-! ## Lines -/

/-- `INT_MAX` -/
def intMax : Nat := 2 ^ 31 - 1

/-- `EndOfLineMarker` -/
inductive EndOfLineMarker where
  | zero
  | ten
  | thirteen
  deriving DecidableEq

/-- `categorize_eol` without flags. -/
def categorizeEol (c : UInt8) : Option EndOfLineMarker :=
  if c = newline then some .ten
  else if c = carriageReturn then some .thirteen
  else if c = 0 then some .zero
  else none

/-- What `read_line` reads: the line, the number of bytes and what is left of the file. -/
structure ReadLine where
  line : Bytes
  count : Nat
  rest : Bytes

/-- The loop in `read_line_full` without flags, after these markers, characters and bytes. -/
def readLineLoop (limit : Nat) (previous : List EndOfLineMarker) (n count : Nat) : Bytes → Result ReadLine
  | [] => if n ≥ limit ∨ count ≥ intMax then .error ENOBUFS else .ok ⟨[], count, []⟩
  | c :: cs =>
    if n ≥ limit ∨ count ≥ intMax then .error ENOBUFS
    else
      match categorizeEol c with
      | none =>
        if .zero ∈ previous ∨ previous ≠ [] then .ok ⟨[], count, c :: cs⟩
        else (readLineLoop limit previous (n + 1) (count + 1) cs).map fun x => { x with line := c :: x.line }
      | some eol =>
        if .zero ∈ previous ∨ eol ∈ previous then .ok ⟨[], count, c :: cs⟩
        else readLineLoop limit (eol :: previous) n (count + 1) cs

/-- `read_line` -/
def readLine (limit : Nat) (file : Bytes) : Result ReadLine := readLineLoop limit [] 0 0 file

/-! ## Words -/

/-- `extract_first_word` with `EXTRACT_DONT_COALESCE_SEPARATORS` as its only flag: the word, and where the next one
    is looked for.  The first argument tells whether there was a backslash. -/
def extractSeparatedWord (separator : UInt8) : Bool → Bytes → Result (Bytes × Option Bytes)
  | true, [] => .error EINVAL
  | false, [] => .ok ([], none)
  | true, c :: s => (extractSeparatedWord separator false s).map fun x => (c :: x.1, x.2)
  | false, c :: s =>
    if c = backslash then extractSeparatedWord separator true s
    else if c = separator then .ok ([], some s)
    else (extractSeparatedWord separator false s).map fun x => (c :: x.1, x.2)

/-- The loop in `string_contains_word_strv` with a separator and a single word, which goes through so many words at
    most. -/
def stringContainsWordLoop (separator : UInt8) (word : Bytes) : Nat → Option Bytes → Result Bool
  | _, none => .ok false
  | 0, _ => .ok false
  | n + 1, some s =>
    match extractSeparatedWord separator false s with
    | .error e => .error e
    | .ok (w, s) => if w = word then .ok true else stringContainsWordLoop separator word n s

/-- `string_contains_word` -/
def stringContainsWord (s : Bytes) (separator : UInt8) (word : Bytes) : Result Bool :=
  stringContainsWordLoop separator word (s.length + 1) (some s)

/-! ## The hierarchies -/

section

variable (name : Bytes)

/-- `SYSTEMD_CGROUP_CONTROLLER`, for the name of the controller that is configured. -/
def systemdCgroupController : Bytes := underscore :: name

/-- `SYSTEMD_CGROUP_CONTROLLER_LEGACY` -/
def systemdCgroupControllerLegacy : Bytes := ascii "name=" ++ name

/-- `SYSTEMD_CGROUP_CONTROLLER_HYBRID` -/
def systemdCgroupControllerHybrid : Bytes := ascii "name=" ++ name

/-- `CONTROLLER_VALID` -/
def isControllerChar (c : UInt8) : Bool := isAsciiDigit c || isAlpha c || c = underscore

/-- `cg_controller_is_valid` -/
def cgControllerIsValid (p : Bytes) : Bool :=
  if p = systemdCgroupController name then true
  else
    let p := (startswith p (ascii "name=")).getD p
    !(p = [] || p.head? = some underscore) && p.all isControllerChar && p.length ≤ 255

/-- `CGroupUnified`, as far as it is known. -/
inductive CGroupUnified where
  | none
  | systemd
  | all
  deriving DecidableEq

/-- `cg_unified_controller`, where `cg_unified_cached` returns this. -/
def cgUnifiedController (cached : Result CGroupUnified) (controller : Bytes) : Result Bool :=
  match cached with
  | .error e => .error e
  | .ok .none => .ok false
  | .ok .all => .ok true
  | .ok .systemd => .ok (controller = systemdCgroupControllerHybrid name)

/-! ## The cgroup of a process -/

/-- `strchr` -/
def strchr (s : Bytes) (c : UInt8) : Option Bytes :=
  match s.dropWhile fun d => d ≠ c with
  | [] => .none
  | e => some e

/-- What the unified hierarchy makes of a line: the path, if there is one in it.  Behind the name of the hybrid
    controller two more characters are skipped. -/
def unifiedLine (line : Bytes) : Option (Option Bytes) :=
  match startswith line (ascii "0:") with
  | some e => some ((strchr e colon).map List.tail)
  | .none =>
    match startswith line (ascii "1:" ++ systemdCgroupControllerHybrid name) with
    | .none => some .none
    | some e =>
      if e.length < 2 then .none
      else some (((strchr (e.drop 2) colon).bind (strchr · colon)).map List.tail)

/-- What a legacy hierarchy makes of a line. -/
def legacyLine (controllerStr line : Bytes) : Result (Option Bytes) :=
  match (strchr line colon).bind fun l => (strchr l.tail colon).map fun e => (l.tail, e) with
  | .none => .ok .none
  | some (l, e) =>
    (stringContainsWord (l.take (l.length - e.length)) comma controllerStr).map fun found =>
      if found then some e.tail else .none

/-- A path without the suffix that tells about a zombie. -/
def withoutDeleted (path : Bytes) : Bytes :=
  if (ascii " (deleted)").isSuffixOf path then path.take (path.length - (ascii " (deleted)").length) else path

/-- What is done to a path that is found. -/
def takeCgroupPath (path : Bytes) : Result Bytes :=
  if (startswith path (ascii "/../")).isSome then .error EUNATCH else .ok (withoutDeleted path)

/-- The loop in `cg_pid_get_path`, which reads so many lines at most. -/
def cgPidGetPathLoop (unified : Bool) (controllerStr : Bytes) : Nat → Bytes → Option (Result Bytes)
  | 0, _ => .none
  | n + 1, file =>
    match readLine longLineMax file with
    | .error e => some (.error e)
    | .ok x =>
      if x.count = 0 then some (.error ENODATA)
      else
        match if unified then (unifiedLine name x.line).map .ok else some (legacyLine controllerStr x.line) with
        | .none => .none
        | some (.error e) => some (.error e)
        | some (.ok .none) => cgPidGetPathLoop unified controllerStr n x.rest
        | some (.ok (some path)) => some (takeCgroupPath path)

/-- `controller_str`, which is used for legacy hierarchies. -/
def controllerStr (controller : Bytes) : Bytes :=
  if controller = systemdCgroupController name then systemdCgroupControllerLegacy name else controller

/-- `cg_pid_get_path`, where `cg_unified_cached` returns this and opening the file has this result. -/
def cgPidGetPath (cached : Result CGroupUnified) (controller : Option Bytes) (file : Result Bytes) :
    Option (Result Bytes) :=
  if controller.any fun c => !cgControllerIsValid name c then some (.error EINVAL)
  else
    let controller := controller.getD (systemdCgroupController name)
    match cgUnifiedController name cached controller with
    | .error e => some (.error e)
    | .ok unified =>
      match file with
      | .error e => some (.error (if e = ENOENT then ESRCH else e))
      | .ok file => cgPidGetPathLoop name unified (controllerStr name controller) (file.length + 1) file

end

/-! ## The file -/

/-- A line of the file. -/
structure CgroupLine where
  hierarchy : Nat
  controllers : Bytes
  path : Bytes
  deriving DecidableEq

namespace CgroupLine

/-- The text of the line. -/
def text (l : CgroupLine) : Bytes := decimal l.hierarchy ++ colon :: (l.controllers ++ colon :: l.path)

/-- A line as it is written: the controllers are names with commas between them, the path is absolute, and none of the
    characters at which a line could end or that would be unescaped are in it. -/
structure WellFormed (l : CgroupLine) : Prop where
  controllers_plain : ∀ c ∈ l.controllers, c ≠ colon ∧ c ≠ backslash ∧ categorizeEol c = none
  path_absolute : l.path.head? = some slash
  path_plain : ∀ c ∈ l.path, categorizeEol c = none
  text_short : l.text.length < longLineMax

end CgroupLine

/-- The text of the file. -/
def cgroupFile (ls : List CgroupLine) : Bytes := ls.flatMap fun l => l.text ++ [newline]

/-- Whether a line is about the hierarchy that is asked for. -/
def Designates (name : Bytes) (unified : Bool) (controllerStr : Bytes) (l : CgroupLine) : Prop :=
  if unified then l.hierarchy = 0 ∨ l.hierarchy = 1 ∧ l.controllers = systemdCgroupControllerHybrid name
  else controllerStr ∈ l.controllers.splitOn comma

instance (name : Bytes) (unified : Bool) (controllerStr : Bytes) (l : CgroupLine) :
    Decidable (Designates name unified controllerStr l) :=
  inferInstanceAs (Decidable (if unified then l.hierarchy = 0 ∨ l.hierarchy = 1 ∧ _ = _ else _ ∈ _))

/-- The path in the first line that is about the hierarchy.  It is refused where it leads out of the namespace. -/
def designatedPath (name : Bytes) (unified : Bool) (controllerStr : Bytes) (ls : List CgroupLine) : Result Bytes :=
  match ls.find? fun l => Designates name unified controllerStr l with
  | none => .error ENODATA
  | some l => takeCgroupPath l.path

/-! ## Reading the lines -/

/-- A line is read up to its end, if the next one does not begin with another one. -/
theorem readLine_line {l rest : Bytes} (hl : ∀ c ∈ l, categorizeEol c = none) (hshort : l.length < longLineMax)
    (hrest : ∀ c ∈ rest.head?, categorizeEol c = none) :
    readLine longLineMax (l ++ newline :: rest) = .ok ⟨l, l.length + 1, rest⟩ := by
  have hloop : ∀ n count, n + l.length < longLineMax → count + l.length + 1 < intMax →
      readLineLoop longLineMax [] n count (l ++ newline :: rest) = .ok ⟨l, count + l.length + 1, rest⟩ := by
    induction l with
    | nil =>
      intro n count hn hcount
      have hten : categorizeEol newline = some .ten := by decide
      rw [nil_append, readLineLoop, if_neg (by omega), hten]
      simp only
      rw [if_neg (by rintro (h | h) <;> exact absurd h not_mem_nil)]
      cases rest with
      | nil =>
        rw [readLineLoop, if_neg (by omega)]
        rfl
      | cons c cs =>
        rw [readLineLoop, if_neg (by omega), hrest c rfl]
        rfl
    | cons c l ih =>
      intro n count hn hcount
      rw [length_cons] at hn hcount hshort
      have hnone := hl c mem_cons_self
      have hrec := ih (fun d hd => hl d (mem_cons_of_mem _ hd)) (by omega) (n + 1) (count + 1) (by omega)
        (by omega)
      rw [cons_append, readLineLoop, if_neg (by omega), hnone]
      have hcount' : count + 1 + l.length + 1 = count + (l.length + 1) + 1 := by omega
      rw [if_neg (by rintro (h | h) <;> simp at h), hrec, length_cons, hcount']
      rfl
  have hmax : longLineMax + 1 < intMax := by decide
  rw [readLine, hloop 0 0 (by omega) (by omega), Nat.zero_add]

theorem categorizeEol_of_isDigit {c : UInt8} (h : isDigit 10 c = true) :
    categorizeEol c = none ∧ c ≠ colon := by
  have hall : ∀ c, isDigit 10 c = true → categorizeEol c = none ∧ c ≠ colon := by decide +kernel
  exact hall c h

theorem colon_notMem_decimal (n : Nat) : colon ∉ decimal n := fun h =>
  (categorizeEol_of_isDigit (isDigit_of_mem_decimal h)).2 rfl

theorem decimal_injective {m n : Nat} (h : decimal m = decimal n) : m = n := by
  have hm := readDigits_decimal m
  rw [h, readDigits_decimal] at hm
  exact (congrArg Prod.fst hm).symm

namespace CgroupLine

variable {l : CgroupLine}

theorem WellFormed.text_plain (h : l.WellFormed) : ∀ c ∈ l.text, categorizeEol c = none := by
  intro c hc
  unfold text at hc
  rw [mem_append, mem_cons, mem_append, mem_cons] at hc
  rcases hc with hc | rfl | hc | rfl | hc
  · exact (categorizeEol_of_isDigit (isDigit_of_mem_decimal hc)).1
  · decide
  · exact (h.controllers_plain c hc).2.2
  · decide
  · exact h.path_plain c hc

end CgroupLine

theorem head_cgroupFile {ls : List CgroupLine} (h : ∀ l ∈ ls, l.WellFormed) :
    ∀ c ∈ (cgroupFile ls).head?, categorizeEol c = none := by
  intro c hc
  cases ls with
  | nil => cases hc
  | cons l ls =>
    obtain ⟨d, ds, hd⟩ := exists_cons_of_ne_nil (decimal_ne_nil l.hierarchy)
    have htext := (h l mem_cons_self).text_plain
    unfold cgroupFile at hc
    rw [flatMap_cons] at hc
    unfold CgroupLine.text at hc htext
    rw [hd] at hc htext
    obtain rfl : d = c := Option.some.inj hc
    exact htext d mem_cons_self

/-! ## What is found in a line -/

theorem strchr_append {c : UInt8} {s : Bytes} (hs : c ∉ s) (t : Bytes) : strchr (s ++ c :: t) c = some (c :: t) := by
  unfold strchr
  rw [dropWhile_append_of_pos, dropWhile_cons_of_neg (by simp)]
  intro d hd
  apply decide_eq_true
  rintro rfl
  exact hs hd

/-- Words before a separator tell where the texts differ. -/
theorem append_cons_prefix_iff {c : UInt8} {s s' t t' : Bytes} (hs : c ∉ s) (hs' : c ∉ s') :
    (s' ++ c :: t') <+: (s ++ c :: t) ↔ s = s' ∧ t' <+: t := by
  induction s generalizing s' with
  | nil =>
    cases s' with
    | nil => simp
    | cons d s' =>
      rw [mem_cons, not_or] at hs'
      refine iff_of_false ?_ (fun h => by cases h.1)
      intro h
      exact hs'.1 (cons_prefix_cons.mp h).1.symm
  | cons d s ih =>
    rw [mem_cons, not_or] at hs
    cases s' with
    | nil =>
      refine iff_of_false ?_ (fun h => by cases h.1)
      intro h
      exact hs.1 (cons_prefix_cons.mp h).1
    | cons e s' =>
      rw [mem_cons, not_or] at hs'
      rw [cons_append, cons_append, cons_prefix_cons, ih hs.2 hs'.2, cons.injEq, and_assoc,
        eq_comm]

theorem startswith_eq_some {s initial rest : Bytes} (h : s = initial ++ rest) : startswith s initial = some rest := by
  unfold startswith
  rw [h, if_pos (List.isPrefixOf_iff_prefix.mpr (prefix_append _ _)), drop_left]

theorem startswith_eq_none {s initial : Bytes} (h : ¬ initial <+: s) : startswith s initial = none :=
  if_neg fun hp => h (List.isPrefixOf_iff_prefix.mp hp)

/-- A word is extracted up to the separator. -/
theorem extractSeparatedWord_eq {separator : UInt8} {s : Bytes} (hs : ∀ c ∈ s, c ≠ backslash) :
    extractSeparatedWord separator false s =
      .ok (s.takeWhile (fun c => c ≠ separator), (strchr s separator).map List.tail) := by
  induction s with
  | nil => rfl
  | cons c s ih =>
    rw [extractSeparatedWord, if_neg (hs c mem_cons_self)]
    by_cases hc : c = separator
    · rw [if_pos hc, takeWhile_cons_of_neg (by simpa using hc)]
      unfold strchr
      rw [dropWhile_cons_of_neg (by simpa using hc)]
      rfl
    · rw [if_neg hc, ih fun d hd => hs d (mem_cons_of_mem _ hd), takeWhile_cons_of_pos (by simpa using hc)]
      unfold strchr
      rw [dropWhile_cons_of_pos (by simpa using hc)]
      rfl

theorem stringContainsWordLoop_eq {separator : UInt8} {word s : Bytes} (hs : ∀ c ∈ s, c ≠ backslash) {n : Nat}
    (hn : s.length < n) :
    stringContainsWordLoop separator word n (some s) = .ok (decide (word ∈ s.splitOn separator)) := by
  induction n generalizing s with
  | zero => exact absurd hn (Nat.not_lt_zero _)
  | succ n ih =>
    rw [stringContainsWordLoop, extractSeparatedWord_eq hs]
    simp only
    by_cases hsep : separator ∈ s
    · obtain ⟨v, w, rfl, hv⟩ := eq_append_cons_of_mem hsep
      have htake : (v ++ separator :: w).takeWhile (fun c => decide (c ≠ separator)) = v := by
        rw [takeWhile_append_of_pos, takeWhile_cons_of_neg (by simp), append_nil]
        intro d hd
        apply decide_eq_true
        rintro rfl
        exact hv hd
      rw [length_append, length_cons] at hn
      rw [htake, strchr_append hv, splitOn_append_cons_self_of_not_mem hv, Option.map_some, tail_cons]
      by_cases hword : v = word
      · rw [if_pos hword, hword, decide_eq_true mem_cons_self]
      · rw [if_neg hword, ih (fun d hd => hs d (by simp [hd])) (by omega)]
        congr 1
        rw [decide_eq_decide, mem_cons, or_iff_right (Ne.symm hword)]
    · have htake : s.takeWhile (fun c => decide (c ≠ separator)) = s := by
        rw [takeWhile_eq_self_iff]
        intro d hd
        apply decide_eq_true
        rintro rfl
        exact hsep hd
      have hchr : strchr s separator = none := by
        unfold strchr
        rw [dropWhile_eq_nil_iff.mpr]
        intro d hd
        apply decide_eq_true
        rintro rfl
        exact hsep hd
      rw [htake, hchr, splitOn_eq_singleton hsep, Option.map_none]
      by_cases hword : s = word
      · rw [if_pos hword, hword, decide_eq_true mem_cons_self]
      · rw [if_neg hword, stringContainsWordLoop, decide_eq_false]
        rw [mem_singleton]
        exact Ne.symm hword

/-- The word is looked for among the words between separators. -/
theorem stringContainsWord_eq {separator : UInt8} {word s : Bytes} (hs : ∀ c ∈ s, c ≠ backslash) :
    stringContainsWord s separator word = .ok (decide (word ∈ s.splitOn separator)) :=
  stringContainsWordLoop_eq hs (Nat.lt_succ_self _)

/-- What is before a separator and what is behind it. -/
theorem strchr_tail {c : UInt8} {s : Bytes} (hs : c ∉ s) (t : Bytes) : (strchr (s ++ c :: t) c).map List.tail = some t := by
  rw [strchr_append hs]
  rfl

namespace CgroupLine

variable {l : CgroupLine}

theorem WellFormed.colon_notMem (h : l.WellFormed) : colon ∉ l.controllers := fun hc =>
  (h.controllers_plain colon hc).1 rfl

/-- In a line of a legacy hierarchy the controller is looked for among the controllers. -/
theorem WellFormed.legacyLine_eq (h : l.WellFormed) (controllerStr : Bytes) :
    legacyLine controllerStr l.text =
      .ok (if controllerStr ∈ l.controllers.splitOn comma then some l.path else none) := by
  have htake : (l.controllers ++ colon :: l.path).take
      ((l.controllers ++ colon :: l.path).length - (colon :: l.path).length) = l.controllers := by
    rw [length_append, Nat.add_sub_cancel, take_left]
  unfold legacyLine text
  rw [strchr_append (colon_notMem_decimal _), Option.bind_some, tail_cons, strchr_append h.colon_notMem,
    Option.map_some]
  simp only
  rw [htake, stringContainsWord_eq fun c hc => (h.controllers_plain c hc).2.1, tail_cons]
  by_cases hmem : controllerStr ∈ l.controllers.splitOn comma
  · rw [decide_eq_true hmem, if_pos hmem]
    rfl
  · rw [decide_eq_false hmem, if_neg hmem]
    rfl

/-- Whether the line is about a hierarchy, with what follows. -/
theorem prefix_text_iff (n : Nat) (w : Bytes) :
    (decimal n ++ colon :: w) <+: l.text ↔ l.hierarchy = n ∧ w <+: l.controllers ++ colon :: l.path := by
  unfold text
  rw [append_cons_prefix_iff (colon_notMem_decimal _) (colon_notMem_decimal _)]
  exact and_congr_left' ⟨decimal_injective, congrArg decimal⟩

theorem WellFormed.unifiedLine_zero (h : l.WellFormed) (name : Bytes) (hzero : l.hierarchy = 0) :
    unifiedLine name l.text = some (some l.path) := by
  have hstart : startswith l.text (ascii "0:") = some (l.controllers ++ colon :: l.path) := by
    apply startswith_eq_some
    unfold text
    rw [hzero]
    rfl
  unfold unifiedLine
  rw [hstart]
  simp only
  rw [strchr_tail h.colon_notMem]

theorem unifiedLine_other {name : Bytes} (hne : l.hierarchy ≠ 0)
    (hhybrid : ¬ (ascii "1:" ++ systemdCgroupControllerHybrid name) <+: l.text) :
    unifiedLine name l.text = some none := by
  have hzero : ¬ ascii "0:" <+: l.text := by
    have hiff := @prefix_text_iff l 0 []
    exact fun hp => hne (hiff.mp hp).1
  unfold unifiedLine
  rw [startswith_eq_none hzero, startswith_eq_none hhybrid]

end CgroupLine

/-! ## The path that is found -/

section

variable {name : Bytes} {unified : Bool} {controllerStr : Bytes}

/-- A line of the hybrid controller begins with its name. -/
theorem not_designates {l : CgroupLine} (hne : l.hierarchy ≠ 0)
    (hhybrid : ¬ (ascii "1:" ++ systemdCgroupControllerHybrid name) <+: l.text) :
    ¬ Designates name true controllerStr l := by
  rintro (hzero | ⟨hone, hcontrollers⟩)
  · exact hne hzero
  · apply hhybrid
    have hiff := @CgroupLine.prefix_text_iff l 1 (systemdCgroupControllerHybrid name)
    exact hiff.mpr ⟨hone, hcontrollers ▸ prefix_append _ _⟩

/-- The lines are searched one after the other. -/
theorem cgPidGetPathLoop_eq {ls : List CgroupLine} (hls : ∀ l ∈ ls, l.WellFormed)
    (hhybrid : unified = true → ∀ l ∈ ls.takeWhile (fun l => l.hierarchy ≠ 0),
      ¬ (ascii "1:" ++ systemdCgroupControllerHybrid name) <+: l.text) {n : Nat} (hn : (cgroupFile ls).length < n) :
    cgPidGetPathLoop name unified controllerStr n (cgroupFile ls) =
      some (designatedPath name unified controllerStr ls) := by
  induction ls generalizing n with
  | nil =>
    obtain ⟨n, rfl⟩ : ∃ k, n = k + 1 := ⟨n - 1, by omega⟩
    rfl
  | cons l ls ih =>
    obtain ⟨n, rfl⟩ : ∃ k, n = k + 1 := ⟨n - 1, by omega⟩
    have hl := hls l mem_cons_self
    have hls' : ∀ m ∈ ls, m.WellFormed := fun m hm => hls m (mem_cons_of_mem _ hm)
    have hfile : cgroupFile (l :: ls) = l.text ++ newline :: cgroupFile ls := by
      unfold cgroupFile
      rw [flatMap_cons, append_assoc]
      rfl
    have hlength : (cgroupFile ls).length < n := by
      rw [hfile, length_append, length_cons] at hn
      omega
    rw [cgPidGetPathLoop, hfile, readLine_line hl.text_plain hl.text_short (head_cgroupFile hls')]
    simp only
    rw [if_neg (Nat.succ_ne_zero _)]
    unfold designatedPath
    by_cases hfound : Designates name unified controllerStr l
    · rw [find?_cons_of_pos (by simpa using hfound)]
      cases unified with
      | false =>
        have hmem : controllerStr ∈ l.controllers.splitOn comma := hfound
        rw [if_neg Bool.false_ne_true, hl.legacyLine_eq, if_pos hmem]
      | true =>
        have hzero : l.hierarchy = 0 := by
          by_contra hne
          have hmem : l ∈ (l :: ls).takeWhile (fun l => decide (l.hierarchy ≠ 0)) := by
            rw [takeWhile_cons_of_pos (by simpa using hne)]
            exact mem_cons_self
          exact not_designates hne (hhybrid rfl l hmem) hfound
        rw [if_pos rfl, hl.unifiedLine_zero name hzero]
        rfl
    · rw [find?_cons_of_neg (by simpa using hfound)]
      cases unified with
      | false =>
        have hmem : controllerStr ∉ l.controllers.splitOn comma := hfound
        rw [if_neg Bool.false_ne_true, hl.legacyLine_eq, if_neg hmem]
        exact ih hls' (fun h => by cases h) hlength
      | true =>
        have hne : l.hierarchy ≠ 0 := fun hzero => hfound (.inl hzero)
        have htake : (l :: ls).takeWhile (fun l => decide (l.hierarchy ≠ 0)) =
            l :: ls.takeWhile (fun l => decide (l.hierarchy ≠ 0)) := takeWhile_cons_of_pos (by simpa using hne)
        rw [htake] at hhybrid
        rw [if_pos rfl, CgroupLine.unifiedLine_other hne (hhybrid rfl l mem_cons_self)]
        exact ih hls' (fun _ m hm => hhybrid rfl m (mem_cons_of_mem _ hm)) hlength

/-- Without the suffix the path still begins with a slash. -/
theorem head_withoutDeleted {p : Bytes} (hp : p.head? = some slash) : (withoutDeleted p).head? = some slash := by
  unfold withoutDeleted
  split
  · rename_i hsuffix
    obtain ⟨q, rfl⟩ := isSuffixOf_iff_suffix.mp hsuffix
    rw [length_append, Nat.add_sub_cancel, take_left]
    cases q with
    | nil => exact absurd hp (by decide)
    | cons c q => exact hp
  · exact hp

/-- What `cg_pid_get_path` returns for a line that is about the hierarchy. -/
def pathOfLine : Option CgroupLine → Result Bytes
  | none => .error ENODATA
  | some l => if ascii "/../" <+: l.path then .error EUNATCH else .ok (withoutDeleted l.path)

theorem designatedPath_eq (ls : List CgroupLine) :
    designatedPath name unified controllerStr ls =
      pathOfLine (ls.find? fun l => Designates name unified controllerStr l) := by
  unfold designatedPath pathOfLine
  split
  · rfl
  · rename_i l _
    unfold takeCgroupPath startswith
    by_cases hp : ascii "/../" <+: l.path
    · rw [if_pos (List.isPrefixOf_iff_prefix.mpr hp), if_pos hp]
      rfl
    · rw [if_neg fun h => hp (List.isPrefixOf_iff_prefix.mp h), if_neg hp]
      rfl

/-- The path that is returned is the one in the first line that is about the hierarchy, without the suffix that tells
    about a zombie.  There is an error where there is no such line, or where the path leads out of the namespace. -/
theorem cgPidGetPath_designated {mode : CGroupUnified} {controller : Option Bytes} {ls : List CgroupLine}
    (hvalid : ∀ c, controller = some c → cgControllerIsValid name c = true)
    (hmode : cgUnifiedController name (.ok mode) (controller.getD (systemdCgroupController name)) = .ok unified)
    (hls : ∀ l ∈ ls, l.WellFormed)
    (hhybrid : unified = true → ∀ l ∈ ls.takeWhile (fun l => l.hierarchy ≠ 0),
      ¬ (ascii "1:" ++ systemdCgroupControllerHybrid name) <+: l.text) :
    cgPidGetPath name (.ok mode) controller (.ok (cgroupFile ls)) =
        some (pathOfLine (ls.find? fun l => Designates name unified
          (Elogind.controllerStr name (controller.getD (systemdCgroupController name))) l)) ∧
      ∀ p, cgPidGetPath name (.ok mode) controller (.ok (cgroupFile ls)) = some (.ok p) → p.head? = some slash := by
  have hany : ¬ (controller.any fun c => !cgControllerIsValid name c) = true := by
    cases controller with
    | none => exact Bool.false_ne_true
    | some c => simp [hvalid c rfl]
  have hresult : cgPidGetPath name (.ok mode) controller (.ok (cgroupFile ls)) =
      some (pathOfLine (ls.find? fun l => Designates name unified
        (Elogind.controllerStr name (controller.getD (systemdCgroupController name))) l)) := by
    unfold cgPidGetPath
    rw [if_neg hany]
    simp only [hmode]
    rw [cgPidGetPathLoop_eq hls hhybrid (Nat.lt_succ_self _), designatedPath_eq]
  refine ⟨hresult, ?_⟩
  intro p hp
  rw [hresult] at hp
  cases hfound : ls.find? fun l => Designates name unified
      (Elogind.controllerStr name (controller.getD (systemdCgroupController name))) l with
  | none =>
    rw [hfound] at hp
    cases hp
  | some l =>
    rw [hfound] at hp
    unfold pathOfLine at hp
    simp only [Option.some.injEq] at hp
    split at hp
    · cases hp
    · cases hp
      exact head_withoutDeleted (hls l (mem_of_find?_eq_some hfound)).path_absolute

end

/-- A zombie in a cgroup whose name has a colon in it. -/
theorem cgPidGetPath_designated_colon :
    cgPidGetPath (ascii "elogind") (.ok .all) none
        (.ok (cgroupFile [⟨1, ascii "name=systemd", ascii "/"⟩, ⟨0, [], ascii "/c1:a (deleted)"⟩])) =
      some (.ok (ascii "/c1:a")) := by
  have hlines : ∀ l ∈ [CgroupLine.mk 1 (ascii "name=systemd") (ascii "/"), ⟨0, [], ascii "/c1:a (deleted)"⟩],
      l.WellFormed := by
    intro l hl
    rw [mem_cons, mem_singleton] at hl
    rcases hl with rfl | rfl
    · exact ⟨by decide +kernel, by decide +kernel, by decide +kernel, by decide +kernel⟩
    · exact ⟨by decide +kernel, by decide +kernel, by decide +kernel, by decide +kernel⟩
  have hpath := (@cgPidGetPath_designated (ascii "elogind") true .all none _ (fun c h => by cases h) rfl hlines
    (fun _ => by decide +kernel)).1
  rw [hpath]
  decide +kernel

/-- A path that leads out of the namespace is not returned. -/
theorem cgPidGetPath_outsideNamespace :
    ¬ ∀ (name : Bytes) (mode : CGroupUnified) (controller : Option Bytes) (unified : Bool) (ls : List CgroupLine)
      (l : CgroupLine), (∀ c, controller = some c → cgControllerIsValid name c = true) →
      cgUnifiedController name (.ok mode) (controller.getD (systemdCgroupController name)) = .ok unified →
      (∀ l ∈ ls, l.WellFormed) → ls.find? (fun l => Designates name unified
        (controllerStr name (controller.getD (systemdCgroupController name))) l) = some l →
      cgPidGetPath name (.ok mode) controller (.ok (cgroupFile ls)) = some (.ok (withoutDeleted l.path)) := by
  intro h
  have hpath := h (ascii "elogind") .all none true [⟨0, [], ascii "/../a"⟩] ⟨0, [], ascii "/../a"⟩
    (fun c h => by cases h) rfl
    (fun l hl => by
      rw [mem_singleton.mp hl]
      exact ⟨by decide +kernel, by decide +kernel, by decide +kernel, by decide +kernel⟩)
    (by decide +kernel)
  have herror : cgPidGetPath (ascii "elogind") (.ok .all) none (.ok (cgroupFile [⟨0, [], ascii "/../a"⟩])) =
      some (.error EUNATCH) := by decide +kernel
  rw [herror] at hpath
  cases Option.some.inj hpath

end Elogind
