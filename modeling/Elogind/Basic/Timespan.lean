/-
  Elogind.Basic.Timespan

  Spans of time as texts: how they are written (`format_timespan`) and read (`parse_time` and `parse_sec`, all of them
  in time-util.c).

  There is no result where a computation does not fit into 64 bits.
-/

import Elogind.Basic.BusLabel
import Elogind.Basic.ParseUtil
import Elogind.Basic.StringUtil
import Elogind.Basic.TimeUtil
import Mathlib.Data.List.Find
import Mathlib.Data.List.TakeWhile

namespace Elogind

open Byte Errno List

-- for what is checked for each byte
set_option maxRecDepth 2000

/-! ## Units -/

/-- `USEC_PER_SEC` -/
def usecPerSec : Nat := 1000000

/-- `USEC_PER_MSEC` -/
def usecPerMsec : Nat := 1000

/-- `USEC_PER_MINUTE` -/
def usecPerMinute : Nat := 60 * usecPerSec

/-- `USEC_PER_HOUR` -/
def usecPerHour : Nat := 60 * usecPerMinute

/-- `USEC_PER_DAY` -/
def usecPerDay : Nat := 24 * usecPerHour

/-- `USEC_PER_WEEK` -/
def usecPerWeek : Nat := 7 * usecPerDay

/-- `USEC_PER_MONTH` -/
def usecPerMonth : Nat := 2629800 * usecPerSec

/-- `USEC_PER_YEAR` -/
def usecPerYear : Nat := 31557600 * usecPerSec

/-! ## Writing -/

/-- The units that are written. -/
def timespanTable : List (Bytes × Nat) :=
  [(ascii "y", usecPerYear), (ascii "month", usecPerMonth), (ascii "w", usecPerWeek), (ascii "d", usecPerDay),
    (ascii "h", usecPerHour), (ascii "min", usecPerMinute), (ascii "s", usecPerSec), (ascii "ms", usecPerMsec),
    (ascii "us", 1)]

/-- How often `for (usec_t cc = …; cc > 1; cc /= 10)` is run. -/
def countTens (cc : Nat) : Nat := if cc > 1 then countTens (cc / 10) + 1 else 0

/-- A number with zeros before it, up to this width. -/
def padded (width n : Nat) : Bytes := List.replicate (width - (decimal n).length) 48 ++ decimal n

/-- The loop in `format_timespan`, for the text that is written already and the room that is left for it. -/
def formatTimespanLoop (accuracy : Nat) : List (Bytes × Nat) → Nat → Nat → Bool → Bytes → Bytes
  | [], _, _, _, out => out
  | (suffix, usec) :: table, t, l, something, out =>
    if t = 0 then out
    else if t < accuracy ∧ something then out
    else if t < usec then formatTimespanLoop accuracy table t l something out
    else if l ≤ 1 then out
    else
      let a := t / usec
      let b := t % usec
      -- Whether this could be shown in dot notation, and how many digits there would be.
      let tens := countTens accuracy
      let dotted := decide (t < usecPerMinute ∧ b > 0)
      let j := countTens usec - tens
      let b := if dotted then b / 10 ^ tens else b
      let done := dotted && decide (j > 0)
      let text := (if out.isEmpty then [] else [space]) ++
        (decimal a ++ ((if done then dot :: padded j b else []) ++ suffix))
      formatTimespanLoop accuracy table (if done then 0 else b) (l - min text.length (l - 1)) true
        (out ++ text.take (min text.length (l - 1)))

/-- `format_timespan`, for a buffer of this size. -/
def formatTimespan (l t accuracy : Nat) : Bytes :=
  if t = usecInfinity then (ascii "infinity").take (l - 1)
  else if t = 0 then (ascii "0").take (l - 1)
  else formatTimespanLoop accuracy timespanTable t l false []

/-! ## Reading -/

/-- The units that are read. -/
def multiplierTable : List (Bytes × Nat) :=
  [(ascii "seconds", usecPerSec), (ascii "second", usecPerSec), (ascii "sec", usecPerSec), (ascii "s", usecPerSec),
    (ascii "minutes", usecPerMinute), (ascii "minute", usecPerMinute), (ascii "min", usecPerMinute),
    (ascii "months", usecPerMonth), (ascii "month", usecPerMonth), (ascii "M", usecPerMonth),
    (ascii "msec", usecPerMsec), (ascii "ms", usecPerMsec), (ascii "m", usecPerMinute),
    (ascii "hours", usecPerHour), (ascii "hour", usecPerHour), (ascii "hr", usecPerHour), (ascii "h", usecPerHour),
    (ascii "days", usecPerDay), (ascii "day", usecPerDay), (ascii "d", usecPerDay),
    (ascii "weeks", usecPerWeek), (ascii "week", usecPerWeek), (ascii "w", usecPerWeek),
    (ascii "years", usecPerYear), (ascii "year", usecPerYear), (ascii "y", usecPerYear),
    (ascii "usec", 1), (ascii "us", 1),
    -- the Greek letter and the sign for micro
    ([0xce, 0xbc, 115], 1), ([0xc2, 0xb5, 115], 1)]

/-- `extract_multiplier`: what is left of the text, and the unit. -/
def extractMultiplier (p : Bytes) (unit : Nat) : Bytes × Nat :=
  match multiplierTable.find? fun i => i.1.isPrefixOf p with
  | some i => (p.drop i.1.length, i.2)
  | none => (p, unit)

/-- `strtoll` with base 10: the number, and what is left of the text. -/
def strtoll (p : Bytes) : Result (Int × Bytes) :=
  match strtoul 10 p with
  | none => .ok (0, p)
  | some (neg, l, rest) =>
    if neg then if l > 2 ^ 63 then .error ERANGE else .ok (-(l : Int), rest)
    else if l ≥ 2 ^ 63 then .error ERANGE
    else .ok (l, rest)

/-- A number of 64 bits. -/
def fits64 (n : Nat) : Option Nat := if n < 2 ^ 64 then some n else none

/-- `if (k >= USEC_INFINITY - usec) return -ERANGE; usec += k;` -/
def addUsec (usec k : Nat) : Option (Result Nat) :=
  if k ≥ usecInfinity - usec then some (.error ERANGE) else (fits64 (usec + k)).map .ok

/-- The digits after a dot, of which the first one counts for this many microseconds.  What is left of the text is
    returned with the sum. -/
def parseFraction : Bytes → Nat → Nat → Option (Result (Nat × Bytes))
  | [], _, usec => some (.ok (usec, []))
  | c :: b, m, usec =>
    if isAsciiDigit c then
      match (fits64 ((c.toNat - 48) * m)).bind (addUsec usec) with
      | none => none
      | some (.error e) => some (.error e)
      | some (.ok usec) => parseFraction b (m / 10) usec
    else some (.ok (usec, c :: b))

/-- The loop in `parse_time`, which goes through so many rounds at most. -/
def parseTimeLoop (defaultUnit : Nat) : Nat → Bytes → Nat → Bool → Option (Result Nat)
  | 0, _, _, _ => none
  | n + 1, p, usec, something =>
    let p := p.dropWhile isWhitespace
    if p = [] then some (if something then .ok usec else .error EINVAL)
    else if p.head? = some dash then some (.error ERANGE)
    else
      match strtoll p with
      | .error e => some (.error e)
      | .ok (l, e) =>
        if l < 0 then some (.error ERANGE)
        else if e.head? ≠ some dot ∧ e.length = p.length then some (.error EINVAL)
        else
          let p := if e.head? = some dot then e.tail.dropWhile isAsciiDigit else e
          let s := extractMultiplier (p.dropWhile isWhitespace) defaultUnit
          if s.1.length = p.length ∧ s.1 ≠ [] then some (.error EINVAL)
          else if l.toNat ≥ usecInfinity / s.2 then some (.error ERANGE)
          else
            match (fits64 (l.toNat * s.2)).bind (addUsec usec) with
            | none => none
            | some (.error e) => some (.error e)
            | some (.ok usec) =>
              if e.head? = some dot then
                match parseFraction e.tail (s.2 / 10) usec with
                | none => none
                | some (.error e) => some (.error e)
                | some (.ok (usec, b)) =>
                  if b.length = e.tail.length then some (.error EINVAL)
                  else parseTimeLoop defaultUnit n s.1 usec true
              else parseTimeLoop defaultUnit n s.1 usec true

/-- `parse_time`.  Each round reads something, so that these rounds should be enough. -/
def parseTime (t : Bytes) (defaultUnit : Nat) : Option (Result Nat) :=
  let p := t.dropWhile isWhitespace
  match startswith p (ascii "infinity") with
  | some s => some (if s.dropWhile isWhitespace ≠ [] then .error EINVAL else .ok usecInfinity)
  | none => parseTimeLoop defaultUnit (t.length + 1) p 0 false

/-- `parse_sec` -/
def parseSec (t : Bytes) : Option (Result Nat) := parseTime t usecPerSec

/-! ## What is read is finite -/

theorem length_readDigits_le (base : Nat) (s : Bytes) (acc : Nat) : (readDigits base s acc).2.length ≤ s.length := by
  induction s generalizing acc with
  | nil => exact Nat.le_refl _
  | cons c s ih =>
    rw [readDigits]
    split
    · exact Nat.le_refl _
    · split
      · exact (ih _).trans (Nat.le_succ _)
      · exact Nat.le_refl _

theorem strtoulBase_ten (s : Bytes) : strtoulBase 10 s = (10, s) := by
  unfold strtoulBase
  split
  · split
    · exact if_neg (by decide)
    · exact if_neg (by decide)
  · exact if_neg (by decide)
  · exact if_neg (by decide)

theorem length_strtoll_le {p e : Bytes} {l : Int} (h : strtoll p = .ok (l, e)) : e.length ≤ p.length := by
  unfold strtoll at h
  split at h
  · cases h
    exact Nat.le_refl _
  · rename_i neg n rest hread
    have hrest : rest.length ≤ p.length := by
      have hspace : (p.dropWhile isSpace).length ≤ p.length := (dropWhile_sublist _).length_le
      unfold strtoul at hread
      simp only [strtoulBase_ten] at hread
      generalize p.dropWhile isSpace = q at hread hspace
      split at hread
      · cases hread
      · rename_i c cs hcons
        split at hread
        · cases hread
          have hdigits := length_readDigits_le 10 (c :: cs) 0
          have hsign : (c :: cs).length ≤ q.length := by
            rw [← hcons]
            split
            · exact (drop_sublist 1 q).length_le
            · exact Nat.le_refl _
          omega
        · cases hread
    split at h
    · split at h
      · cases h
      · cases h
        exact hrest
    · split at h
      · cases h
      · cases h
        exact hrest

theorem length_extractMultiplier_le (p : Bytes) (unit : Nat) : (extractMultiplier p unit).1.length ≤ p.length := by
  unfold extractMultiplier
  split
  · exact (drop_sublist _ p).length_le
  · exact Nat.le_refl _

/-- A unit that is read is either one of the table or the one that is given. -/
theorem extractMultiplier_unit (p : Bytes) {unit : Nat} (hpos : 0 < unit) (hlt : unit < 2 ^ 64) :
    0 < (extractMultiplier p unit).2 ∧ (extractMultiplier p unit).2 < 2 ^ 64 := by
  have htable : ∀ i ∈ multiplierTable, 0 < i.2 ∧ i.2 < 2 ^ 64 := by decide +kernel
  unfold extractMultiplier
  split
  · rename_i i hfind
    exact htable i (mem_of_find?_eq_some hfind)
  · exact ⟨hpos, hlt⟩

theorem fits64_of_lt {n : Nat} (h : n < 2 ^ 64) : fits64 n = some n := if_pos h

/-- A sum that is not refused is below infinity. -/
theorem addUsec_finite {usec : Nat} (husec : usec < usecInfinity) (k : Nat) :
    ∃ r, addUsec usec k = some r ∧ ∀ v, r = .ok v → v < usecInfinity := by
  unfold addUsec
  by_cases hk : k ≥ usecInfinity - usec
  · rw [if_pos hk]
    exact ⟨_, rfl, fun v h => by cases h⟩
  · have hlt : usec + k < usecInfinity := by omega
    rw [if_neg hk, fits64_of_lt (Nat.lt_of_lt_of_le hlt (by decide))]
    refine ⟨_, rfl, fun v h => ?_⟩
    cases h
    exact hlt

theorem parseFraction_finite {b : Bytes} {m usec : Nat} (hm : 9 * m < 2 ^ 64) (husec : usec < usecInfinity) :
    ∃ r, parseFraction b m usec = some r ∧ ∀ v b', r = .ok (v, b') → v < usecInfinity := by
  induction b generalizing m usec with
  | nil =>
    refine ⟨_, rfl, fun v b' h => ?_⟩
    cases h
    exact husec
  | cons c b ih =>
    rw [parseFraction]
    by_cases hdigit : isAsciiDigit c = true
    · have hall : ∀ c, isAsciiDigit c = true → c.toNat - 48 ≤ 9 := by decide +kernel
      have hmul := Nat.mul_le_mul_right m (hall c hdigit)
      rw [if_pos hdigit, fits64_of_lt (by omega), Option.bind_some]
      obtain ⟨r, hr, hfinite⟩ := addUsec_finite husec ((c.toNat - 48) * m)
      rw [hr]
      cases r with
      | error e => exact ⟨_, rfl, fun v b' h => by cases h⟩
      | ok v => exact ih (by omega) (hfinite v rfl)
    · rw [if_neg hdigit]
      refine ⟨_, rfl, fun v b' h => ?_⟩
      cases h
      exact husec

/-- With enough rounds the loop ends.  No computation is too large for 64 bits, and the result is below infinity. -/
theorem parseTimeLoop_finite {unit : Nat} (hpos : 0 < unit) (hlt : unit < 2 ^ 64) {n : Nat} {p : Bytes} {usec : Nat}
    {something : Bool} (hn : p.length < n) (husec : usec < usecInfinity) :
    ∃ r, parseTimeLoop unit n p usec something = some r ∧ ∀ v, r = .ok v → v < usecInfinity := by
  induction n generalizing p usec something with
  | zero => exact absurd hn (Nat.not_lt_zero _)
  | succ n ih =>
    have herror : ∀ e : Errno, ∃ r : Result Nat, some (.error e) = some r ∧ ∀ v, r = .ok v → v < usecInfinity :=
      fun e => ⟨_, rfl, fun v h => by cases h⟩
    have hspace : (p.dropWhile isWhitespace).length ≤ p.length := (dropWhile_sublist _).length_le
    rw [parseTimeLoop]
    generalize p.dropWhile isWhitespace = p at hspace
    simp only
    split
    · refine ⟨_, rfl, fun v h => ?_⟩
      split at h
      · cases h
        exact husec
      · cases h
    split
    · exact herror _
    split
    · exact herror _
    rename_i l e hstrtoll
    have he := length_strtoll_le hstrtoll
    split
    · exact herror _
    split
    · exact herror _
    rename_i hread
    -- The number or the dot after it is behind the text that is left.
    have hshorter : (if e.head? = some dot then e.tail.dropWhile isAsciiDigit else e).length < p.length := by
      split
      · rename_i hdot
        obtain ⟨w, rfl⟩ := head?_eq_some_iff.mp hdot
        have hdigits : (w.dropWhile isAsciiDigit).length ≤ w.length := (dropWhile_sublist _).length_le
        rw [length_cons] at he
        show (w.dropWhile isAsciiDigit).length < p.length
        omega
      · rename_i hdot
        exact Nat.lt_of_le_of_ne he fun heq => hread ⟨hdot, heq⟩
    generalize (if e.head? = some dot then e.tail.dropWhile isAsciiDigit else e) = q at hshorter
    have hmultiplier := extractMultiplier_unit (q.dropWhile isWhitespace) hpos hlt
    have hleft := length_extractMultiplier_le (q.dropWhile isWhitespace) unit
    have hspace' : (q.dropWhile isWhitespace).length ≤ q.length := (dropWhile_sublist _).length_le
    generalize extractMultiplier (q.dropWhile isWhitespace) unit = s at hmultiplier hleft
    split
    · exact herror _
    split
    · exact herror _
    rename_i hsmall
    have hproduct : l.toNat * s.2 < usecInfinity :=
      Nat.lt_of_lt_of_le (Nat.mul_lt_mul_of_pos_right (Nat.lt_of_not_le hsmall) hmultiplier.1)
        (Nat.div_mul_le_self _ _)
    rw [fits64_of_lt (Nat.lt_of_lt_of_le hproduct (by decide)), Option.bind_some]
    obtain ⟨r, hr, hfinite⟩ := addUsec_finite husec (l.toNat * s.2)
    rw [hr]
    cases r with
    | error e => exact herror e
    | ok usec =>
      simp only
      split
      · obtain ⟨r, hr, hfraction⟩ := @parseFraction_finite e.tail (s.2 / 10) usec (by omega) (hfinite usec rfl)
        rw [hr]
        cases r with
        | error e => exact herror e
        | ok x =>
          simp only
          split
          · exact herror _
          · exact ih (by omega) (hfraction x.1 x.2 rfl)
      · exact ih (by omega) (hfinite usec rfl)

/-- The text stands for infinity. -/
def IsInfinity (t : Bytes) : Prop :=
  ∃ u v, t = u ++ (ascii "infinity" ++ v) ∧ (∀ c ∈ u, isWhitespace c = true) ∧ ∀ c ∈ v, isWhitespace c = true

theorem parseTime_finite (t : Bytes) {unit : Nat} (hpos : 0 < unit) (hlt : unit < 2 ^ 64) :
    ∃ r, parseTime t unit = some r ∧ ∀ v, r = .ok v → v < usecInfinity ∨ v = usecInfinity ∧ IsInfinity t := by
  have hspace : (t.dropWhile isWhitespace).length ≤ t.length := (dropWhile_sublist _).length_le
  unfold parseTime
  simp only
  split
  · rename_i s hstart
    refine ⟨_, rfl, fun v h => ?_⟩
    split at h
    · cases h
    · rename_i hrest
      cases h
      refine .inr ⟨rfl, t.takeWhile isWhitespace, s, ?_, ?_, ?_⟩
      · unfold startswith at hstart
        split at hstart
        · rename_i hprefix
          obtain ⟨w, hw⟩ := isPrefixOf_iff_prefix.mp hprefix
          rw [← hw, drop_left] at hstart
          rw [← Option.some.inj hstart, hw, takeWhile_append_dropWhile]
        · cases hstart
      · exact fun c hc => mem_takeWhile_imp hc
      · exact dropWhile_eq_nil_iff.mp (not_not.mp hrest)
  · obtain ⟨r, hr, hfinite⟩ := @parseTimeLoop_finite unit hpos hlt (t.length + 1) (t.dropWhile isWhitespace) 0 false
      (by omega) (by decide)
    exact ⟨r, hr, fun v h => .inl (hfinite v h)⟩

/-! ## Reading what was written -/

theorem isAsciiDigit_eq (c : UInt8) : isAsciiDigit c = isDigit 10 c := by
  have hall : ∀ c, isAsciiDigit c = isDigit 10 c := by decide +kernel
  exact hall c

/-- A number as it is written begins with a digit. -/
theorem exists_digit_decimal (n : Nat) : ∃ c cs, decimal n = c :: cs ∧ isDigit 10 c = true := by
  obtain ⟨c, cs, hcs⟩ := exists_cons_of_ne_nil (decimal_ne_nil n)
  exact ⟨c, cs, hcs, isDigit_of_mem_decimal (hcs ▸ mem_cons_self)⟩

theorem strtoll_decimal {a : Nat} {w : Bytes} (ha : a < 2 ^ 63) (hw : ∀ c ∈ w.head?, isDigit 10 c = false) :
    strtoll (decimal a ++ w) = .ok ((a : Int), w) := by
  have hread := @readDigits_append (decimal a) w (fun c hc => isDigit_of_mem_decimal hc) hw 0
  rw [decimalValue_decimal, Nat.zero_mul, Nat.zero_add] at hread
  obtain ⟨c, cs, hcs, hdigit⟩ := exists_digit_decimal a
  obtain ⟨-, hspace, hplus, hminus, -⟩ := isDigit_ten c hdigit
  have hstrtoul : strtoul 10 (decimal a ++ w) = some (false, a, w) := by
    rw [hcs, cons_append] at hread ⊢
    unfold strtoul
    simp only [dropWhile_cons, hspace, Bool.false_eq_true, if_false, head?_cons, strtoulBase_ten]
    have hminus' : (some c == some (45 : UInt8)) = false := beq_eq_false_iff_ne.mpr fun h => hminus (Option.some.inj h)
    have hplus' : (some c == some (43 : UInt8)) = false := beq_eq_false_iff_ne.mpr fun h => hplus (Option.some.inj h)
    rw [hminus', hplus']
    simp only [Bool.or_self, Bool.false_eq_true, if_false]
    rw [if_pos hdigit, hread]
  unfold strtoll
  rw [hstrtoul]
  simp only [Bool.false_eq_true, if_false]
  rw [if_neg (Nat.not_le.mpr ha)]

/-- The names of the units begin with letters. -/
theorem timespanTable_names {i : Bytes × Nat} (hi : i ∈ timespanTable) : ∃ c cs, i.1 = c :: cs ∧ isAlpha c = true := by
  have hall : ∀ i ∈ timespanTable, i.1.head?.any isAlpha = true := by decide +kernel
  have hhead := hall i hi
  cases hname : i.1 with
  | nil =>
    rw [hname] at hhead
    cases hhead
  | cons c cs =>
    rw [hname] at hhead
    exact ⟨c, cs, rfl, hhead⟩

theorem isAlpha_other {c : UInt8} (h : isAlpha c = true) :
    isWhitespace c = false ∧ isDigit 10 c = false ∧ c ≠ dot := by
  have hall : ∀ c, isAlpha c = true → isWhitespace c = false ∧ isDigit 10 c = false ∧ c ≠ dot := by decide +kernel
  exact hall c h

/-- What is in front of a space does not depend on what follows it. -/
theorem prefix_append_space {s x rest : Bytes} (hs : space ∉ s) (hrest : rest = [] ∨ rest.head? = some space) :
    s.isPrefixOf (x ++ rest) = s.isPrefixOf x := by
  rw [Bool.eq_iff_iff, isPrefixOf_iff_prefix, isPrefixOf_iff_prefix]
  refine ⟨fun h => ?_, fun h => h.trans (prefix_append x rest)⟩
  rcases hrest with rfl | hrest
  · rwa [append_nil] at h
  · obtain ⟨q, rfl⟩ := head?_eq_some_iff.mp hrest
    rcases prefix_or_prefix_of_prefix h (prefix_append x (space :: q)) with hp | hp
    · exact hp
    · -- Otherwise the space would be in it.
      obtain ⟨w, rfl⟩ := hp
      rw [prefix_append_right_inj] at h
      cases w with
      | nil =>
        exact ⟨[], by simp⟩
      | cons c w =>
        obtain rfl : c = space := (cons_prefix_cons.mp h).1
        exact absurd (mem_append_right x mem_cons_self) hs

/-- A unit that was written is the one that is read: no name before it in the table is at the beginning of it. -/
theorem extractMultiplier_written {i : Bytes × Nat} (hi : i ∈ timespanTable) {rest : Bytes}
    (hrest : rest = [] ∨ rest.head? = some space) (unit : Nat) :
    extractMultiplier (i.1 ++ rest) unit = (rest, i.2) := by
  have hspace : ∀ j ∈ multiplierTable, space ∉ j.1 := by decide +kernel
  have hfind : ∀ i ∈ timespanTable, (multiplierTable.find? fun j => j.1.isPrefixOf i.1) = some i := by decide +kernel
  have hsame : (multiplierTable.find? fun j => j.1.isPrefixOf (i.1 ++ rest)) =
      multiplierTable.find? fun j => j.1.isPrefixOf i.1 :=
    find?_congr fun j hj => prefix_append_space (hspace j hj) hrest
  unfold extractMultiplier
  rw [hsame, hfind i hi]
  simp only
  rw [drop_left]

theorem addUsec_of_lt {usec k : Nat} (h : usec + k < usecInfinity) : addUsec usec k = some (.ok (usec + k)) := by
  unfold addUsec
  rw [if_neg (by omega), fits64_of_lt (Nat.lt_of_lt_of_le h (by decide))]
  rfl

/-- What the digits after a dot add up to. -/
def fractionValue : Bytes → Nat → Nat
  | [], _ => 0
  | d :: ds, m => (d.toNat - 48) * m + fractionValue ds (m / 10)

theorem parseFraction_digits {ds w : Bytes} (hds : ∀ d ∈ ds, isDigit 10 d = true)
    (hw : ∀ c ∈ w.head?, isDigit 10 c = false) {m usec : Nat} (husec : usec + fractionValue ds m < usecInfinity) :
    parseFraction (ds ++ w) m usec = some (.ok (usec + fractionValue ds m, w)) := by
  induction ds generalizing m usec with
  | nil =>
    cases w with
    | nil => rfl
    | cons c w =>
      rw [nil_append, parseFraction, if_neg (by rw [isAsciiDigit_eq, hw c rfl]; exact Bool.false_ne_true)]
      rfl
  | cons d ds ih =>
    have hvalue : fractionValue (d :: ds) m = (d.toNat - 48) * m + fractionValue ds (m / 10) := rfl
    rw [hvalue] at husec ⊢
    have hfits : (d.toNat - 48) * m < 2 ^ 64 := by
      unfold usecInfinity at husec
      omega
    rw [cons_append, parseFraction, if_pos (by rw [isAsciiDigit_eq]; exact hds d mem_cons_self),
      fits64_of_lt hfits, Option.bind_some, addUsec_of_lt (by omega)]
    simp only
    rw [ih (fun e he => hds e (mem_cons_of_mem _ he)) (by omega), Nat.add_assoc]

/-- The digits after a dot stand for their value in parts of the unit, as far as there are digits. -/
theorem fractionValue_eq {ds : Bytes} {c : Nat} (hc : ds.length ≤ c) :
    fractionValue ds (10 ^ c / 10) = decimalValue ds * 10 ^ (c - ds.length) := by
  induction ds generalizing c with
  | nil => exact (Nat.zero_mul _).symm
  | cons d ds ih =>
    rw [length_cons] at hc
    obtain ⟨c, rfl⟩ : ∃ k, c = k + 1 := ⟨c - 1, by omega⟩
    have hunit : 10 ^ (c + 1) / 10 = 10 ^ c := by rw [Nat.pow_succ, Nat.mul_div_cancel _ (by decide)]
    have hplaces : 10 ^ c = 10 ^ ds.length * 10 ^ (c - ds.length) := by
      rw [← Nat.pow_add, Nat.add_sub_cancel' (by omega)]
    rw [fractionValue, hunit, ih (by omega), decimalValue_cons, length_cons, Nat.add_sub_add_right, Nat.add_mul,
      Nat.mul_assoc, ← hplaces]

/-- What is written of the fraction of a unit, and what it adds. -/
inductive Fraction (usec : Nat) : Bytes → Nat → Prop
  | none : Fraction usec [] 0
  | digits (ds : Bytes) (hne : ds ≠ []) (hds : ∀ d ∈ ds, isDigit 10 d = true) :
      Fraction usec (dot :: ds) (fractionValue ds (usec / 10))

/-- A round reads a number with its unit. -/
theorem parseTimeLoop_term {i : Bytes × Nat} (hi : i ∈ timespanTable) {sep rest frac : Bytes} {a k usec : Nat}
    (hsep : sep = [] ∨ sep = [space]) (hrest : rest = [] ∨ rest.head? = some space) (hfrac : Fraction i.2 frac k)
    (ha : a < 2 ^ 63) (hsmall : a < usecInfinity / i.2) (husec : usec + (a * i.2 + k) < usecInfinity)
    (unit n : Nat) (something : Bool) :
    parseTimeLoop unit (n + 1) (sep ++ (decimal a ++ (frac ++ (i.1 ++ rest)))) usec something =
      parseTimeLoop unit n rest (usec + (a * i.2 + k)) true := by
  obtain ⟨d, ds, hdecimal, hdigit⟩ := exists_digit_decimal a
  obtain ⟨hwhite, -, -, hminus, -⟩ := isDigit_ten d hdigit
  obtain ⟨c, cs, hname, halpha⟩ := timespanTable_names hi
  obtain ⟨hwhite', hdigit', hdot'⟩ := isAlpha_other halpha
  -- Nothing is left before the number.
  have hskip : (sep ++ (decimal a ++ (frac ++ (i.1 ++ rest)))).dropWhile isWhitespace =
      decimal a ++ (frac ++ (i.1 ++ rest)) := by
    have hstart : (decimal a ++ (frac ++ (i.1 ++ rest))).dropWhile isWhitespace =
        decimal a ++ (frac ++ (i.1 ++ rest)) := by
      rw [hdecimal, cons_append, dropWhile_cons_of_neg (by rw [hwhite]; exact Bool.false_ne_true)]
    rcases hsep with rfl | rfl
    · exact hstart
    · rw [singleton_append, dropWhile_cons_of_pos (by decide), hstart]
  have hne : decimal a ++ (frac ++ (i.1 ++ rest)) ≠ [] := by
    rw [hdecimal]
    exact cons_ne_nil _ _
  have hhead : (decimal a ++ (frac ++ (i.1 ++ rest))).head? ≠ some dash := by
    rw [hdecimal]
    exact fun h => hminus (Option.some.inj h)
  have hafter : ∀ e ∈ (frac ++ (i.1 ++ rest)).head?, isDigit 10 e = false := by
    intro e he
    cases hfrac with
    | none =>
      rw [hname] at he
      obtain rfl : c = e := Option.some.inj he
      exact hdigit'
    | digits =>
      obtain rfl : dot = e := Option.some.inj he
      decide
  have hnameHead : ∀ e ∈ (i.1 ++ rest).head?, isDigit 10 e = false := by
    intro e he
    rw [hname] at he
    obtain rfl : c = e := Option.some.inj he
    exact hdigit'
  have hunit : (i.1 ++ rest).dropWhile isWhitespace = i.1 ++ rest := by
    rw [hname, cons_append, dropWhile_cons_of_neg (by rw [hwhite']; exact Bool.false_ne_true)]
  have hlength : rest.length < (i.1 ++ rest).length := by
    rw [hname, cons_append, length_cons, length_append]
    omega
  have hproduct : a * i.2 < 2 ^ 64 := by
    unfold usecInfinity at husec
    omega
  have hsmall' : ¬ (a : Int).toNat ≥ usecInfinity / i.2 := Nat.not_le.mpr hsmall
  have hnonneg : ¬ (a : Int) < 0 := Int.not_lt.mpr (Int.natCast_nonneg a)
  rw [parseTimeLoop, hskip]
  rw [if_neg hne, if_neg hhead, strtoll_decimal ha hafter]
  simp only
  rw [if_neg hnonneg]
  cases hfrac with
  | none =>
    have hnoDot : (i.1 ++ rest).head? ≠ some dot := by
      rw [hname]
      exact fun h => hdot' (Option.some.inj h)
    have hshorter : (i.1 ++ rest).length ≠ (decimal a ++ (i.1 ++ rest)).length := by
      rw [@length_append _ (decimal a), hdecimal, length_cons]
      omega
    rw [nil_append, if_neg (fun h => hshorter h.2), if_neg hnoDot, hunit,
      extractMultiplier_written hi hrest unit]
    rw [if_neg (fun h => Nat.ne_of_lt hlength h.1), if_neg hsmall', Int.toNat_natCast, fits64_of_lt hproduct,
      Option.bind_some, addUsec_of_lt (by omega)]
    simp only
    rw [if_neg hnoDot, Nat.add_zero]
  | digits ds' hne' hds' =>
    have hdropDigits : (ds' ++ (i.1 ++ rest)).dropWhile isAsciiDigit = i.1 ++ rest := by
      rw [dropWhile_append_of_pos fun e he => by rw [isAsciiDigit_eq]; exact hds' e he, hname, cons_append,
        dropWhile_cons_of_neg (by rw [isAsciiDigit_eq, hdigit']; exact Bool.false_ne_true)]
    have hdotHead : (dot :: ds' ++ (i.1 ++ rest)).head? = some dot := rfl
    rw [if_neg (fun h => h.1 hdotHead), if_pos hdotHead]
    show (if _ then _ else _) = _
    rw [cons_append, tail_cons, hdropDigits, hunit, extractMultiplier_written hi hrest unit]
    rw [if_neg (fun h => Nat.ne_of_lt hlength h.1), if_neg hsmall', Int.toNat_natCast, fits64_of_lt hproduct,
      Option.bind_some, addUsec_of_lt (by omega)]
    simp only
    rw [if_pos (head?_cons : (dot :: (ds' ++ (i.1 ++ rest))).head? = some dot),
      parseFraction_digits hds' hnameHead (by omega)]
    simp only
    have hread : (i.1 ++ rest).length ≠ (ds' ++ (i.1 ++ rest)).length := by
      rw [@length_append _ ds']
      have hpos := length_pos_iff.mpr hne'
      omega
    rw [if_neg hread, Nat.add_assoc]

/-! ## What is written -/

theorem countTens_pow (k : Nat) : countTens (10 ^ k) = k := by
  induction k with
  | zero => decide +kernel
  | succ k ih =>
    have hpos : 0 < 10 ^ k := Nat.pow_pos (by decide)
    have hdiv : 10 ^ (k + 1) / 10 = 10 ^ k := by rw [Nat.pow_succ, Nat.mul_div_cancel _ (by decide)]
    have hlarge : 10 ^ (k + 1) > 1 := by
      omega
    rw [countTens, if_pos hlarge, hdiv, ih]

theorem length_decimal_le {m n : Nat} (h : m ≤ n) : (decimal m).length ≤ (decimal n).length := by
  have hpos : 0 < (Nat.toDigits 10 n).length := Nat.length_toDigits_pos
  unfold decimal
  rw [length_map, length_map, Nat.length_toDigits_le_iff (by decide) hpos]
  exact Nat.lt_of_le_of_lt h ((Nat.length_toDigits_le_iff (by decide) hpos).mp (Nat.le_refl _))

/-- A number is written with the digits that there is room for. -/
theorem padded_spec {width n : Nat} (hwidth : 0 < width) (hn : n < 10 ^ width) :
    (padded width n).length = width ∧ (∀ d ∈ padded width n, isDigit 10 d = true) ∧
      decimalValue (padded width n) = n := by
  have hlength : (decimal n).length ≤ width := by
    unfold decimal
    rw [length_map]
    exact (Nat.length_toDigits_le_iff (by decide) hwidth).mpr hn
  have hzeros : ∀ (z : Nat) (ds : Bytes), decimalValue (replicate z 48 ++ ds) = decimalValue ds := by
    intro z ds
    induction z with
    | zero => rfl
    | succ z ih =>
      rw [replicate_succ, cons_append, decimalValue_cons, ih]
      exact (congrArg (· + _) (Nat.zero_mul _)).trans (Nat.zero_add _)
  unfold padded
  refine ⟨?_, ?_, ?_⟩
  · rw [length_append, length_replicate, Nat.sub_add_cancel hlength]
  · intro d hd
    rcases mem_append.mp hd with hd | hd
    · rw [eq_of_mem_replicate hd]
      decide
    · exact isDigit_of_mem_decimal hd
  · rw [hzeros, decimalValue_decimal]

/-- The units get smaller down to single microseconds, below a bound for what is left.  No count of a unit is too
    large, and below a minute units are powers of ten. -/
def Descends : Nat → List (Bytes × Nat) → Prop
  | bound, [] => bound ≤ 1
  | bound, i :: table =>
    (i ∈ timespanTable ∧ 0 < i.2) ∧ (bound ≤ usecInfinity / i.2 * i.2 ∧ bound ≤ 2 ^ 63 * i.2) ∧
      (i.2 < usecPerMinute → i.2 = 10 ^ countTens i.2) ∧ Descends i.2 table

instance decidableDescends : ∀ bound table, Decidable (Descends bound table)
  | bound, [] => inferInstanceAs (Decidable (bound ≤ 1))
  | bound, i :: table =>
    have := decidableDescends i.2 table
    inferInstanceAs (Decidable (_ ∧ _ ∧ _ ∧ Descends i.2 table))

/-- The longest fraction of a unit that is written. -/
def fractionWidth (usec : Nat) : Nat := if usec < usecPerMinute then 1 + countTens usec else 0

/-- The longest text that is written for what is left. -/
def textWidth : Nat → List (Bytes × Nat) → Nat
  | _, [] => 0
  | bound, i :: table =>
    1 + (decimal (bound / i.2)).length + fractionWidth i.2 + i.1.length + textWidth i.2 table

section Step

variable {t usec k : Nat}

/-- What is written after the count of a unit. -/
def fractionText (t usec tens : Nat) : Bytes :=
  if (decide (t < usecPerMinute ∧ t % usec > 0) && decide (countTens usec - tens > 0)) = true then
    dot :: padded (countTens usec - tens) (t % usec / 10 ^ tens)
  else []

/-- What is left after a unit. -/
def fractionLeft (t usec tens : Nat) : Nat :=
  if (decide (t < usecPerMinute ∧ t % usec > 0) && decide (countTens usec - tens > 0)) = true then 0
  else if decide (t < usecPerMinute ∧ t % usec > 0) = true then t % usec / 10 ^ tens
  else t % usec

/-- A unit takes its count from the time, and the fraction takes what is above the accuracy if there is one. -/
theorem fraction_spec (hpos : 0 < usec) (htens : usec < usecPerMinute → usec = 10 ^ countTens usec) (hle : usec ≤ t) :
    (fractionText t usec k).length ≤ fractionWidth usec ∧ fractionLeft t usec k < usec ∧
      ∃ x, Fraction usec (fractionText t usec k) x ∧ t / usec * usec + x + fractionLeft t usec k ≤ t ∧
        ∀ r, r ≤ fractionLeft t usec k → fractionLeft t usec k - r < 10 ^ k →
          t - (t / usec * usec + x + r) < 10 ^ k := by
  have hmod : t % usec < usec := Nat.mod_lt t hpos
  have hsplit : t / usec * usec + t % usec = t := Nat.div_add_mod' t usec
  unfold fractionText fractionLeft fractionWidth
  by_cases hdotted : t < usecPerMinute ∧ t % usec > 0
  · have hunit := htens (Nat.lt_of_le_of_lt hle hdotted.1)
    have hmodSplit := Nat.div_add_mod' (t % usec) (10 ^ k)
    rw [decide_eq_true hdotted, Bool.true_and]
    by_cases hdigits : countTens usec - k > 0
    · -- The digits of the fraction that are kept.
      have hplaces : 10 ^ countTens usec = 10 ^ (countTens usec - k) * 10 ^ k := by
        rw [← Nat.pow_add, Nat.sub_add_cancel (by omega)]
      have hsmall : t % usec / 10 ^ k < 10 ^ (countTens usec - k) := by
        rw [Nat.div_lt_iff_lt_mul (Nat.pow_pos (by decide)), ← hplaces, ← hunit]
        exact hmod
      obtain ⟨hlength, hpadded, hvalue⟩ := padded_spec hdigits hsmall
      have hadds : fractionValue (padded (countTens usec - k) (t % usec / 10 ^ k)) (usec / 10) =
          t % usec / 10 ^ k * 10 ^ k := by
        have heq := @fractionValue_eq (padded (countTens usec - k) (t % usec / 10 ^ k)) (countTens usec) (by omega)
        rw [← hunit, hvalue, hlength, Nat.sub_sub_self (by omega)] at heq
        exact heq
      have hdone : decide (countTens usec - k > 0) = true := decide_eq_true hdigits
      rw [if_pos hdone, if_pos hdone, if_pos (Nat.lt_of_le_of_lt hle hdotted.1), length_cons, hlength]
      refine ⟨by omega, hpos, _, .digits _ ?_ hpadded, ?_, ?_⟩
      · intro hnil
        rw [hnil] at hlength
        exact Nat.ne_of_gt hdigits hlength.symm
      · omega
      · intro r hr _
        omega
    · -- Less is left than the accuracy.
      have hle' : usec ≤ 10 ^ k := by
        rw [hunit]
        exact Nat.pow_le_pow_right (by decide) (by omega)
      have hzero : t % usec / 10 ^ k = 0 := Nat.div_eq_of_lt (Nat.lt_of_lt_of_le hmod hle')
      have hdone : ¬ decide (countTens usec - k > 0) = true := fun h => hdigits (of_decide_eq_true h)
      rw [if_neg hdone, if_neg hdone, if_pos rfl, hzero]
      refine ⟨Nat.zero_le _, hpos, 0, .none, by omega, ?_⟩
      intro r hr _
      omega
  · have hnot : ¬ decide (t < usecPerMinute ∧ t % usec > 0) = true := fun h => hdotted (of_decide_eq_true h)
    have hdone : ¬ (decide (t < usecPerMinute ∧ t % usec > 0) && decide (countTens usec - k > 0)) = true := by
      rw [decide_eq_false hdotted, Bool.false_and]
      exact Bool.false_ne_true
    rw [if_neg hdone, if_neg hdone, if_neg hnot]
    refine ⟨Nat.zero_le _, hmod, 0, .none, by omega, ?_⟩
    intro r hr hless
    omega

end Step

/-- What is read back of a text that was written: so many microseconds, whatever was read before. -/
def TimeReadsBack (txt : Bytes) (r : Nat) : Prop :=
  ∀ unit n usec something, txt.length < n → txt ≠ [] ∨ something = true → usec + r < usecInfinity →
    parseTimeLoop unit n txt usec something = some (.ok (usec + r))

/-- What the loop writes for what is left of a time. -/
structure Written (accuracy t : Nat) (something : Bool) (out txt : Bytes) (r : Nat) : Prop where
  le : r ≤ t
  close : t - r < accuracy
  starts : txt = [] ∨ if out = [] then ∃ c ∈ txt.head?, isDigit 10 c = true else txt.head? = some space
  written : something = false → t ≠ 0 → txt ≠ []
  readsBack : TimeReadsBack txt r

theorem readsBack_nil : TimeReadsBack [] 0 := by
  intro unit n usec something hn hsomething _
  obtain ⟨n, rfl⟩ : ∃ k, n = k + 1 := ⟨n - 1, by rw [length_nil] at hn; omega⟩
  rw [parseTimeLoop, hsomething.resolve_left fun h => h rfl]
  rfl

/-- Nothing more is written. -/
theorem Written.nothing {accuracy t : Nat} {something : Bool} {out : Bytes} (hlt : t < accuracy)
    (h : something = true ∨ t = 0) : Written accuracy t something out [] 0 where
  le := Nat.zero_le t
  close := hlt
  starts := .inl rfl
  written hsomething ht := by
    rcases h with h | h
    · rw [hsomething] at h
      cases h
    · exact absurd h ht
  readsBack := readsBack_nil

theorem formatTimespanLoop_spec {k : Nat} {table : List (Bytes × Nat)} {bound : Nat} (htable : Descends bound table)
    {t l : Nat} {something : Bool} {out : Bytes} (ht : t < bound) (hl : textWidth bound table < l) :
    ∃ txt r, formatTimespanLoop (10 ^ k) table t l something out = out ++ txt ∧
      Written (10 ^ k) t something out txt r := by
  have hpos : 0 < 10 ^ k := Nat.pow_pos (by decide)
  induction table generalizing bound t l something out with
  | nil =>
    have hbound : bound ≤ 1 := htable
    obtain rfl : t = 0 := by omega
    exact ⟨[], 0, (append_nil out).symm, .nothing hpos (.inr rfl)⟩
  | cons i table ih =>
    obtain ⟨⟨hi, hunit⟩, ⟨hsmall, hint⟩, htens, htable'⟩ := htable
    have hwidth : textWidth bound (i :: table) = 1 + (decimal (bound / i.2)).length + fractionWidth i.2 + i.1.length +
      textWidth i.2 table := rfl
    rw [formatTimespanLoop]
    -- the three reasons to stop or to go on without the unit
    by_cases hzero : t = 0
    · rw [if_pos hzero]
      exact ⟨[], 0, (append_nil out).symm, .nothing (by omega) (.inr hzero)⟩
    rw [if_neg hzero]
    by_cases hbreak : t < 10 ^ k ∧ something = true
    · rw [if_pos hbreak]
      exact ⟨[], 0, (append_nil out).symm, .nothing hbreak.1 (.inl hbreak.2)⟩
    rw [if_neg hbreak]
    by_cases hskip : t < i.2
    · rw [if_pos hskip]
      exact ih htable' hskip (by omega)
    rw [if_neg hskip, if_neg (by omega)]
    -- The unit is written, and there is room for it.
    have hle : i.2 ≤ t := Nat.le_of_not_lt hskip
    have hcount : t / i.2 < usecInfinity / i.2 :=
      (Nat.div_lt_iff_lt_mul hunit).mpr (Nat.lt_of_lt_of_le ht hsmall)
    have hcount' : t / i.2 < 2 ^ 63 := (Nat.div_lt_iff_lt_mul hunit).mpr (Nat.lt_of_lt_of_le ht hint)
    have hdecimal := length_decimal_le (Nat.div_le_div_right (c := i.2) (Nat.le_of_lt ht))
    obtain ⟨hfractionLength, hleft, x, hfraction, hsum, hclose⟩ := @fraction_spec t i.2 k hunit htens hle
    have htensEq := countTens_pow k
    simp only [htensEq]
    generalize hsep : (if out.isEmpty = true then [] else [space] : Bytes) = sep
    have hsep' : sep = [] ∨ sep = [space] := by
      rw [← hsep]
      split
      · exact .inl rfl
      · exact .inr rfl
    have hsepLength : sep.length ≤ 1 := by
      rcases hsep' with h | h
      · rw [h]
        exact Nat.zero_le _
      · rw [h]
        exact Nat.le_refl _
    have htext : sep ++ (decimal (t / i.2) ++ (fractionText t i.2 k ++ i.1)) =
        sep ++ (decimal (t / i.2) ++ ((if (decide (t < usecPerMinute ∧ t % i.2 > 0) &&
          decide (countTens i.2 - k > 0)) = true then
            dot :: padded (countTens i.2 - k) (if decide (t < usecPerMinute ∧ t % i.2 > 0) = true then
              t % i.2 / 10 ^ k else t % i.2) else []) ++ i.1)) := by
      unfold fractionText
      by_cases hdone : (decide (t < usecPerMinute ∧ t % i.2 > 0) && decide (countTens i.2 - k > 0)) = true
      · rw [if_pos hdone, if_pos hdone, if_pos (Bool.and_eq_true_iff.mp hdone).1]
      · rw [if_neg hdone, if_neg hdone]
    have hleftEq : (if (decide (t < usecPerMinute ∧ t % i.2 > 0) && decide (countTens i.2 - k > 0)) = true then 0
        else if decide (t < usecPerMinute ∧ t % i.2 > 0) = true then t % i.2 / 10 ^ k else t % i.2) =
          fractionLeft t i.2 k := rfl
    rw [← htext, hleftEq]
    have hlength : (sep ++ (decimal (t / i.2) ++ (fractionText t i.2 k ++ i.1))).length =
        sep.length + ((decimal (t / i.2)).length + ((fractionText t i.2 k).length + i.1.length)) := by
      simp only [length_append]
    have hroom : min (sep ++ (decimal (t / i.2) ++ (fractionText t i.2 k ++ i.1))).length (l - 1) =
        (sep ++ (decimal (t / i.2) ++ (fractionText t i.2 k ++ i.1))).length := Nat.min_eq_left (by omega)
    obtain ⟨c, cs, hname, -⟩ := timespanTable_names hi
    obtain ⟨d, ds, hdigits, hdigit⟩ := exists_digit_decimal (t / i.2)
    have hne : out ++ (sep ++ (decimal (t / i.2) ++ (fractionText t i.2 k ++ i.1))) ≠ [] := by
      rw [hdigits]
      simp
    rw [hroom, take_length]
    -- the rest of the time is written with the smaller units
    obtain ⟨txt, r, hformat, hwritten⟩ := @ih i.2 htable' (fractionLeft t i.2 k)
      (l - (sep ++ (decimal (t / i.2) ++ (fractionText t i.2 k ++ i.1))).length) true
      (out ++ (sep ++ (decimal (t / i.2) ++ (fractionText t i.2 k ++ i.1)))) hleft (by omega)
    refine ⟨(sep ++ (decimal (t / i.2) ++ (fractionText t i.2 k ++ i.1))) ++ txt, t / i.2 * i.2 + x + r, ?_, ?_⟩
    · rw [hformat, append_assoc]
    have hrest : txt = [] ∨ txt.head? = some space := hwritten.starts.imp_right fun h => (if_neg hne).mp h
    have hle' := hwritten.le
    have htxt : (sep ++ (decimal (t / i.2) ++ (fractionText t i.2 k ++ i.1))) ++ txt =
        sep ++ (decimal (t / i.2) ++ (fractionText t i.2 k ++ (i.1 ++ txt))) := by
      simp only [append_assoc]
    refine ⟨by omega, hclose r hle' hwritten.close, .inr ?_, ?_, ?_⟩
    · by_cases hout : out = []
      · rw [if_pos hout, ← hsep, hout, hdigits]
        exact ⟨d, rfl, hdigit⟩
      · rw [if_neg hout, ← hsep, if_neg fun h => hout (isEmpty_iff.mp h)]
        rfl
    · intro _ _ hnil
      rw [hdigits] at hnil
      simp at hnil
    · -- the parser reads the unit that was written, then the rest
      intro unit n usec something' hn _ husec
      obtain ⟨n, rfl⟩ : ∃ m, n = m + 1 := ⟨n - 1, by omega⟩
      rw [length_append, hlength, hname, length_cons] at hn
      rw [htxt, parseTimeLoop_term hi hsep' hrest hfraction hcount' hcount (by omega),
        hwritten.readsBack unit n (usec + (t / i.2 * i.2 + x)) true (by omega) (.inr rfl) (by omega)]
      congr 2
      omega

/-! ## The round trip -/

/-- `FORMAT_TIMESPAN_MAX` -/
def formatTimespanMax : Nat := 64

theorem descends_timespanTable : Descends (usecInfinity / usecPerYear * usecPerYear) timespanTable := by
  decide +kernel

theorem textWidth_timespanTable :
    textWidth (usecInfinity / usecPerYear * usecPerYear) timespanTable < formatTimespanMax := by
  decide +kernel

/-- A time that is written with an accuracy is read back as less by less than this. -/
theorem parseSec_formatTimespan {t : Nat} (ht : t / usecPerYear < usecInfinity / usecPerYear ∨ t = usecInfinity)
    (k : Nat) :
    ∃ r, parseSec (formatTimespan formatTimespanMax t (10 ^ k)) = some (.ok r) ∧ r ≤ t ∧ t - r < 10 ^ k := by
  have hpos : 0 < 10 ^ k := Nat.pow_pos (by decide)
  unfold formatTimespan
  by_cases hinfinity : t = usecInfinity
  · rw [if_pos hinfinity, hinfinity]
    have hread : parseSec ((ascii "infinity").take (formatTimespanMax - 1)) = some (.ok usecInfinity) := by
      decide +kernel
    exact ⟨usecInfinity, hread, Nat.le_refl _, by rwa [Nat.sub_self]⟩
  rw [if_neg hinfinity]
  by_cases hzero : t = 0
  · rw [if_pos hzero, hzero]
    have hread : parseSec ((ascii "0").take (formatTimespanMax - 1)) = some (.ok 0) := by decide +kernel
    exact ⟨0, hread, Nat.le_refl _, hpos⟩
  rw [if_neg hzero]
  have hbound : t < usecInfinity / usecPerYear * usecPerYear :=
    (Nat.div_lt_iff_lt_mul (by decide)).mp (ht.resolve_right hinfinity)
  have hlt : t < usecInfinity := Nat.lt_of_lt_of_le hbound (Nat.div_mul_le_self _ _)
  obtain ⟨txt, r, hformat, hwritten⟩ := @formatTimespanLoop_spec k timespanTable _ descends_timespanTable t
    formatTimespanMax false [] hbound textWidth_timespanTable
  have hne : txt ≠ [] := hwritten.written rfl hzero
  refine ⟨r, ?_, hwritten.le, hwritten.close⟩
  obtain ⟨c, hc, hdigit⟩ := hwritten.starts.resolve_left hne
  obtain ⟨cs, rfl⟩ := head?_eq_some_iff.mp hc
  obtain ⟨hwhite, -⟩ := isDigit_ten c hdigit
  -- The text begins with a digit.
  have hskip : (c :: cs).dropWhile isWhitespace = c :: cs :=
    dropWhile_cons_of_neg (by rw [hwhite]; exact Bool.false_ne_true)
  have hfinite : startswith (c :: cs) (ascii "infinity") = none := by
    apply if_neg
    intro h
    obtain rfl : 105 = c := (cons_prefix_cons.mp (List.isPrefixOf_iff_prefix.mp h)).1
    cases hdigit
  have hle := hwritten.le
  rw [hformat, nil_append, parseSec, parseTime]
  simp only [hskip, hfinite]
  rw [hwritten.readsBack usecPerSec _ 0 false (Nat.lt_succ_self _) (.inl hne) (by omega), Nat.zero_add]

/-- Times are read back as they are written: exactly if every microsecond is written, and up to the accuracy otherwise.
    Whatever is read, there is an error or a time below infinity, unless infinity is spelled out, and no computation is
    too large for 64 bits. -/
theorem timespans_readBack :
    (∀ t, t / usecPerYear < usecInfinity / usecPerYear ∨ t = usecInfinity →
      parseSec (formatTimespan formatTimespanMax t 1) = some (.ok t)) ∧
    (∀ t k, t / usecPerYear < usecInfinity / usecPerYear ∨ t = usecInfinity →
      ∃ r, parseSec (formatTimespan formatTimespanMax t (10 ^ k)) = some (.ok r) ∧ r ≤ t ∧ t - r < 10 ^ k) ∧
    ∀ s unit, 0 < unit → unit < 2 ^ 64 →
      ∃ r, parseTime s unit = some r ∧ ∀ v, r = .ok v → v < usecInfinity ∨ v = usecInfinity ∧ IsInfinity s := by
  refine ⟨?_, fun t k ht => parseSec_formatTimespan ht k, fun s unit hpos hlt => parseTime_finite s hpos hlt⟩
  intro t ht
  obtain ⟨r, hread, hle, hclose⟩ := parseSec_formatTimespan ht 0
  obtain rfl : r = t := by omega
  exact hread

/-- A long time in all units, and a text with fractions and several spellings of units. -/
theorem timespans_readBack_units :
    parseSec (formatTimespan formatTimespanMax 18446740112856789123 1) = some (.ok 18446740112856789123) ∧
      ∃ r, parseTime (ascii "1.5h 3 msec .25us") 1 = some r ∧
        ∀ v, r = .ok v → v < usecInfinity ∨ v = usecInfinity ∧ IsInfinity (ascii "1.5h 3 msec .25us") :=
  ⟨timespans_readBack.1 _ (.inl (by decide +kernel)), timespans_readBack.2.2 _ _ (by decide) (by decide)⟩

end Elogind
