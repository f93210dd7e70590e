/-
  Elogind.Basic.ParseUtil

  Numbers and truth values in texts (parse-util.c).  `safe_atou` and its
  relatives are thin layers over `strtoul`, which is written out here for the
  bases they use.
-/

import Elogind.Basic.Bytes
import Elogind.Basic.Errno

namespace Elogind

open List

-- for what is checked for each byte
set_option maxRecDepth 2000

open Byte Errno

/-- `LONG_LINE_MAX` -/
def longLineMax : Nat := 1024 * 1024

/-- A number as `printf` writes it. -/
def decimal (n : Nat) : Bytes := (Nat.toDigits 10 n).map Char.toUInt8

/-- The value of decimal digits. -/
def decimalValue (ds : Bytes) : Nat := ds.foldl (fun n c => 10 * n + (c.toNat - 48)) 0

/-- The value of a digit, as `strtoul` reads it. -/
def digitValue (c : UInt8) : Option Nat :=
  if 48 ≤ c ∧ c ≤ 57 then some (c.toNat - 48)
  else if 97 ≤ c ∧ c ≤ 122 then some (c.toNat - 87)
  else if 65 ≤ c ∧ c ≤ 90 then some (c.toNat - 55)
  else none

/-- The digits of the base at the start of the text: their value, and the rest
    of the text. -/
def readDigits (base : Nat) : Bytes → Nat → Nat × Bytes
  | [], acc => (acc, [])
  | c :: cs, acc =>
    match digitValue c with
    | none => (acc, c :: cs)
    | some d => if d < base then readDigits base cs (base * acc + d) else (acc, c :: cs)

/-- The character is a digit of the base. -/
def isDigit (base : Nat) (c : UInt8) : Bool := (digitValue c).any (· < base)

/-- `isspace` in the C locale. -/
def isSpace (c : UInt8) : Bool := c == space || (9 ≤ c && c ≤ 13)

/-- The base of a number, and the number without its `0x`: what `strtoul` does
    for the bases 0 and 16. -/
def strtoulBase (base : Nat) (s : Bytes) : Nat × Bytes :=
  match s with
  | 48 :: x :: c :: cs =>
    if (x = 120 ∨ x = 88) ∧ isDigit 16 c then
      if base = 0 ∨ base = 16 then (16, c :: cs) else (base, s)
    else if base = 0 then (8, s) else (base, s)
  | 48 :: _ => if base = 0 then (8, s) else (base, s)
  | _ => if base = 0 then (10, s) else (base, s)

/-- `strtoul`, without its bound: the sign, the value and the rest of the text;
    `none` when there is no number. -/
def strtoul (base : Nat) (s : Bytes) : Option (Bool × Nat × Bytes) :=
  let s := s.dropWhile isSpace
  let neg := s.head? == some 45
  let s := if neg || s.head? == some 43 then s.drop 1 else s
  let (base, s) := strtoulBase base s
  match s with
  | [] => none
  | c :: cs =>
    if isDigit base c then
      let (l, rest) := readDigits base (c :: cs) 0
      some (neg, l, rest)
    else none

/-- `mangle_base` -/
def mangleBase (base : Nat) (s : Bytes) : Nat × Bytes :=
  if base ≠ 0 then (base, s)
  else
    match s with
    | 48 :: x :: cs =>
      if x = 98 ∨ x = 66 then (2, cs)
      else if x = 111 ∨ x = 79 then (8, cs)
      else (0, s)
    | _ => (0, s)

def ERANGE : Errno := ⟨34, by decide⟩

/-- `safe_atou_full`, `safe_atollu_full` and so on: they differ in the largest
    value of their type.  They look for the sign in front of what `strtoul` gets,
    and miss one behind a vertical tab, a form feed or the blanks after `0b`: the
    number is then taken from `2 ^ 64`. -/
def safeAto (max base : Nat) (s : Bytes) : Result Nat :=
  let s := s.dropWhile isWhitespace
  let (base, s) := mangleBase base s
  match strtoul base s with
  | none => .error EINVAL
  | some (neg, l, rest) =>
    if l ≥ 2 ^ 64 then .error ERANGE
    else if !rest.isEmpty then .error EINVAL
    else if l ≠ 0 ∧ s.head? = some 45 then .error ERANGE
    else
      let l := if neg then (2 ^ 64 - l) % 2 ^ 64 else l
      if l > max then .error ERANGE else .ok l

/-- `safe_atou` -/
def safeAtou (s : Bytes) : Result Nat := safeAto (2 ^ 32 - 1) 0 s

/-- `safe_atou64`, which is also `deserialize_usec` -/
def safeAtou64 (s : Bytes) : Result Nat := safeAto (2 ^ 64 - 1) 0 s

/-- `parse_pid`: a `pid_t` is a signed 32-bit number. -/
def parsePid (s : Bytes) : Result Nat :=
  match safeAto (2 ^ 64 - 1) 0 s with
  | .error e => .error e
  | .ok ul => if ul ≥ 2 ^ 31 ∨ ul = 0 then .error ERANGE else .ok ul

/-- `uid_is_valid` -/
def uidIsValid (uid : Nat) : Bool := uid < 2 ^ 32 && uid != 2 ^ 32 - 1 && uid != 2 ^ 16 - 1

/-- `parse_uid` -/
def parseUid (s : Bytes) : Result Nat :=
  if s.head?.any isWhitespace then .error EINVAL
  else if s.head? = some 43 ∨ s.head? = some 45 then .error EINVAL
  else if s.head? = some 48 ∧ s ≠ [48] then .error EINVAL
  else
    match safeAto (2 ^ 32 - 1) 10 s with
    | .error e => .error e
    | .ok uid => if uidIsValid uid then .ok uid else .error ENXIO

/-- `ascii_tolower` -/
def asciiTolower (c : UInt8) : UInt8 := if 65 ≤ c ∧ c ≤ 90 then c + 32 else c

/-- `parse_boolean` -/
def parseBoolean (s : Bytes) : Result Bool :=
  let v := s.map asciiTolower
  if v ∈ ["1", "yes", "y", "true", "t", "on"].map ascii then .ok true
  else if v ∈ ["0", "no", "n", "false", "f", "off"].map ascii then .ok false
  else .error EINVAL

/-- `one_zero` -/
def oneZero (b : Bool) : Bytes := if b then ascii "1" else ascii "0"

theorem parseBoolean_oneZero (b : Bool) : parseBoolean (oneZero b) = .ok b := by
  cases b <;> rfl

/-! ## Reading back what was printed -/

theorem digitValue_digit {c : Char} (h : c.isDigit = true) :
    digitValue c.toUInt8 = some (c.toNat - 48) ∧ c.toNat - 48 < 10 := by
  have hc : 48 ≤ c.toNat ∧ c.toNat ≤ 57 := by
    simp only [Char.isDigit, Bool.and_eq_true, decide_eq_true_eq, ge_iff_le] at h
    exact ⟨UInt32.le_iff_toNat_le.mp h.1, UInt32.le_iff_toNat_le.mp h.2⟩
  have hb : c.toUInt8.toNat = c.toNat := by
    simp only [Char.toUInt8, Char.toNat]
    rw [UInt32.toNat_toUInt8]
    have : c.val.toNat < 256 := Nat.lt_of_le_of_lt hc.2 (by decide)
    omega
  refine ⟨?_, by omega⟩
  have hle : (48 : UInt8) ≤ c.toUInt8 ∧ c.toUInt8 ≤ 57 := by
    rw [UInt8.le_iff_toNat_le, UInt8.le_iff_toNat_le, hb]
    exact hc
  rw [digitValue, if_pos hle, hb]

theorem readDigits_digits {l : List Char} (h : ∀ c ∈ l, c.isDigit = true) (acc : Nat) :
    readDigits 10 (l.map Char.toUInt8) acc = (Nat.ofDigitChars 10 l acc, []) := by
  induction l generalizing acc with
  | nil => simp [readDigits, Nat.ofDigitChars_nil]
  | cons c l ih =>
      obtain ⟨hval, hlt⟩ := digitValue_digit (h c mem_cons_self)
      rw [map_cons, readDigits, hval, Nat.ofDigitChars_cons]
      simp only [if_pos hlt]
      exact ih (fun d hd => h d (mem_cons_of_mem c hd)) _

theorem isDigit_of_mem_toDigits {n : Nat} {c : Char} (h : c ∈ Nat.toDigits 10 n) :
    c.isDigit = true :=
  Nat.isDigit_of_mem_toDigits (by decide) (by decide) h

/-- The digits of a number are read back as the number. -/
theorem readDigits_decimal (n : Nat) : readDigits 10 (decimal n) 0 = (n, []) := by
  rw [decimal, readDigits_digits fun c hc => isDigit_of_mem_toDigits hc]
  rw [Nat.ofDigitChars_toDigits (by decide) (by decide)]

theorem digitChar_byte : ∀ n < 10, 0 < n →
    isDigit 10 n.digitChar.toUInt8 = true ∧ n.digitChar.toUInt8 ≠ 48 := by
  decide

/-- A number other than zero does not start with a zero. -/
theorem decimal_head {n : Nat} (hn : 0 < n) :
    ∃ c cs, decimal n = c :: cs ∧ isDigit 10 c = true ∧ c ≠ 48 := by
  unfold decimal
  induction n using Nat.strongRecOn with
  | ind n ih =>
      by_cases hlt : n < 10
      · rw [Nat.toDigits_of_lt_base hlt]
        exact ⟨n.digitChar.toUInt8, [], rfl, digitChar_byte n hlt hn⟩
      · obtain ⟨c, cs, hcs, hc⟩ := ih (n / 10) (by omega) (by omega)
        rw [Nat.toDigits_of_base_le (by decide) (by omega), map_append, hcs]
        exact ⟨c, _, rfl, hc⟩

theorem isDigit_of_mem_decimal {n : Nat} {c : UInt8} (h : c ∈ decimal n) : isDigit 10 c = true := by
  obtain ⟨d, hd, rfl⟩ := mem_map.mp h
  obtain ⟨hval, hlt⟩ := digitValue_digit (isDigit_of_mem_toDigits hd)
  simp [isDigit, hval, hlt]

theorem decimal_ne_nil (n : Nat) : decimal n ≠ [] := by
  rcases Nat.eq_zero_or_pos n with rfl | hpos
  · decide
  · obtain ⟨c, cs, hcs, _⟩ := decimal_head hpos
    simp [hcs]

/-- The first digit counts for as many places as there are digits after it. -/
theorem foldl_decimalValue (n : Nat) (ds : Bytes) :
    ds.foldl (fun n c => 10 * n + (c.toNat - 48)) n = n * 10 ^ ds.length + decimalValue ds := by
  induction ds generalizing n with
  | nil => simp [decimalValue]
  | cons d ds ih =>
    have hplaces : (10 * n + (d.toNat - 48)) * 10 ^ ds.length =
        n * (10 ^ ds.length * 10) + (d.toNat - 48) * 10 ^ ds.length := by
      rw [Nat.add_mul, Nat.mul_comm 10 n, Nat.mul_assoc, Nat.mul_comm 10]
    unfold decimalValue
    rw [foldl_cons, foldl_cons, ih, ih (10 * 0 + (d.toNat - 48)), length_cons, Nat.pow_succ, hplaces,
      Nat.mul_zero, Nat.zero_add, Nat.add_assoc]

theorem decimalValue_cons (d : UInt8) (ds : Bytes) :
    decimalValue (d :: ds) = (d.toNat - 48) * 10 ^ ds.length + decimalValue ds := by
  show ds.foldl (fun n c => 10 * n + (c.toNat - 48)) (10 * 0 + (d.toNat - 48)) = _
  rw [foldl_decimalValue, Nat.mul_zero, Nat.zero_add]

theorem digitValue_of_isDigit {c : UInt8} (h : isDigit 10 c = true) :
    digitValue c = some (c.toNat - 48) ∧ c.toNat - 48 < 10 := by
  have hall : ∀ c, isDigit 10 c = true → digitValue c = some (c.toNat - 48) ∧ c.toNat - 48 < 10 := by decide
  exact hall c h

/-- Digits are read up to the first character that is none. -/
theorem readDigits_append {ds w : Bytes} (hds : ∀ d ∈ ds, isDigit 10 d = true)
    (hw : ∀ c ∈ w.head?, isDigit 10 c = false) (acc : Nat) :
    readDigits 10 (ds ++ w) acc = (acc * 10 ^ ds.length + decimalValue ds, w) := by
  induction ds generalizing acc with
  | nil =>
    rw [nil_append, length_nil, Nat.pow_zero, Nat.mul_one]
    cases w with
    | nil => rfl
    | cons c w =>
      have hc := hw c rfl
      unfold isDigit at hc
      rw [readDigits]
      cases hvalue : digitValue c with
      | none => rfl
      | some d =>
        rw [hvalue] at hc
        simp only
        rw [if_neg (of_decide_eq_false hc)]
        rfl
  | cons d ds ih =>
    obtain ⟨hvalue, hlt⟩ := digitValue_of_isDigit (hds d mem_cons_self)
    rw [cons_append, readDigits, hvalue]
    simp only
    rw [if_pos hlt, ih fun e he => hds e (mem_cons_of_mem _ he)]
    have hvalues := foldl_decimalValue acc (d :: ds)
    rw [← hvalues, foldl_cons, foldl_decimalValue]

theorem decimalValue_decimal (n : Nat) : decimalValue (decimal n) = n := by
  have hread := @readDigits_append (decimal n) [] (fun c hc => isDigit_of_mem_decimal hc) (fun c hc => by cases hc) 0
  rw [append_nil, readDigits_decimal, Nat.zero_mul, Nat.zero_add] at hread
  exact (congrArg Prod.fst hread).symm

/-- A digit is no white space, no sign and no letter. -/
theorem isDigit_ten : ∀ c, isDigit 10 c = true →
    isWhitespace c = false ∧ isSpace c = false ∧ c ≠ 43 ∧ c ≠ 45 ∧ c ≠ 120 ∧ c ≠ 88 ∧ c ≠ 98 ∧
      c ≠ 66 ∧ c ≠ 111 ∧ c ≠ 79 := by
  decide

theorem safeAto_decimal {max n base : Nat} (hn : n ≤ max) (hmax : max < 2 ^ 64)
    (hbase : base = 0 ∨ base = 10) : safeAto max base (decimal n) = .ok n := by
  rcases Nat.eq_zero_or_pos n with rfl | hpos
  · rcases hbase with rfl | rfl <;> rfl
  obtain ⟨c, cs, hcs, hdigit, hne⟩ := decimal_head hpos
  obtain ⟨hws, hsp, hplus, hminus, -⟩ := isDigit_ten c hdigit
  have hread : readDigits 10 (c :: cs) 0 = (n, []) := by
    rw [← hcs]
    exact readDigits_decimal n
  have hmangle : mangleBase base (c :: cs) = (base, c :: cs) := by
    unfold mangleBase
    rcases hbase with rfl | rfl
    · simp only [ne_eq, not_true_eq_false, if_false]
      split
      · rename_i heq
        simp only [cons.injEq] at heq
        exact absurd heq.1 hne
      · rfl
    · rfl
  have hstart : strtoulBase base (c :: cs) = (10, c :: cs) := by
    unfold strtoulBase
    split
    · rename_i heq
      simp only [cons.injEq] at heq
      exact absurd heq.1 hne
    · rename_i heq
      simp only [cons.injEq] at heq
      exact absurd heq.1 hne
    · rcases hbase with rfl | rfl <;> rfl
  have hstrtoul : strtoul base (c :: cs) = some (false, n, []) := by
    simp [strtoul, hsp, hplus, hminus, hstart, hdigit, hread]
  have hlt : n < 2 ^ 64 := by omega
  simp only [safeAto, hcs, dropWhile_cons, hws, Bool.false_eq_true, if_false, hmangle,
    hstrtoul, ge_iff_le, Nat.not_le.mpr hlt, isEmpty_nil, Bool.not_true, head?_cons,
    Option.some.injEq, hminus, and_false, gt_iff_lt, Nat.not_lt.mpr hn]

theorem safeAtou_decimal {n : Nat} (hn : n < 2 ^ 32) : safeAtou (decimal n) = .ok n :=
  safeAto_decimal (by omega) (by decide) (.inl rfl)

theorem safeAtou64_decimal {n : Nat} (hn : n < 2 ^ 64) : safeAtou64 (decimal n) = .ok n :=
  safeAto_decimal (by omega) (by decide) (.inl rfl)

theorem parsePid_decimal {n : Nat} (hpos : 0 < n) (hn : n < 2 ^ 31) :
    parsePid (decimal n) = .ok n := by
  have h : safeAto (2 ^ 64 - 1) 0 (decimal n) = .ok n :=
    safeAto_decimal (by omega) (by decide) (.inl rfl)
  have hok : ¬ (n ≥ 2 ^ 31 ∨ n = 0) := by omega
  rw [parsePid, h]
  simp only [if_neg hok]

theorem parseUid_decimal {n : Nat} (hn : uidIsValid n = true) : parseUid (decimal n) = .ok n := by
  have hlt : n ≤ 2 ^ 32 - 1 := by
    simp only [uidIsValid, Bool.and_eq_true, decide_eq_true_eq] at hn
    omega
  have h : safeAto (2 ^ 32 - 1) 10 (decimal n) = .ok n :=
    safeAto_decimal hlt (by decide) (.inr rfl)
  rcases Nat.eq_zero_or_pos n with rfl | hpos
  · rfl
  obtain ⟨c, cs, hcs, hdigit, hne⟩ := decimal_head hpos
  obtain ⟨hws, hsp, hplus, hminus, -⟩ := isDigit_ten c hdigit
  rw [parseUid, h]
  simp [hcs, hws, hplus, hminus, hne, hn]

end Elogind
