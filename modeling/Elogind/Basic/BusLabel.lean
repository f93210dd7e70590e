/-
  Elogind.Basic.BusLabel

  Labels of object paths (bus-label.c).  Sessions and seats are found on the bus
  by a path that ends in their id, in which every byte that object paths do not
  allow is written as an underscore and two hexadecimal digits.
-/

import Elogind.Basic.Unescape

namespace Elogind

-- for what is checked for each byte
set_option maxRecDepth 2000

namespace Byte

def underscore : UInt8 := 95
def percent : UInt8 := 37
def comma : UInt8 := 44

/-- `ascii_isalpha` -/
def isAlpha (c : UInt8) : Bool := (97 ≤ c && c ≤ 122) || (65 ≤ c && c ≤ 90)

/-- `ascii_isdigit` -/
def isAsciiDigit (c : UInt8) : Bool := 48 ≤ c && c ≤ 57

end Byte

open Byte

/-! ## Definitions -/

/-- A byte as `bus_label_escape` writes it.  Digits are escaped at the start of a
    label (`f > s` does not hold there). -/
def busLabelEscapeChar (atStart : Bool) (c : UInt8) : Bytes :=
  if !isAlpha c && !(!atStart && isAsciiDigit c) then [underscore, hexchar (c >>> 4), hexchar c]
  else [c]

/-- `bus_label_escape` -/
def busLabelEscape : Bytes → Bytes
  | [] => [underscore]
  | c :: s => busLabelEscapeChar true c ++ s.flatMap (busLabelEscapeChar false)

/-- The loop of `bus_label_unescape_n`.  An underscore that starts no escape is
    taken literally. -/
def busLabelUnescapeLoop : Bytes → Bytes
  | [] => []
  | [c] => [c]
  | [c, d] => c :: busLabelUnescapeLoop [d]
  | c :: d :: e :: s =>
    if c = underscore then
      match unhexchar d, unhexchar e with
      | some a, some b => UInt8.ofNat (16 * a + b) :: busLabelUnescapeLoop s
      | _, _ => underscore :: busLabelUnescapeLoop (d :: e :: s)
    else c :: busLabelUnescapeLoop (d :: e :: s)

/-- `bus_label_unescape` -/
def busLabelUnescape (f : Bytes) : Bytes :=
  if f = [underscore] then [] else busLabelUnescapeLoop f

/-- A character that object paths allow in a label: `[A-Za-z0-9_]`. -/
def isLabelChar (c : UInt8) : Bool := isAlpha c || isAsciiDigit c || c == underscore

/-- `session_bus_path` -/
def sessionBusPath (id : Bytes) : Bytes :=
  ascii "/org/freedesktop/login1/session/" ++ busLabelEscape id

/-- `seat_bus_path` -/
def seatBusPath (id : Bytes) : Bytes :=
  ascii "/org/freedesktop/login1/seat/" ++ busLabelEscape id

/-! ## One byte -/

/-- The digits of an escape stand for the byte. -/
theorem unhexchar_hexchar (c : UInt8) :
    ∃ a b, unhexchar (hexchar (c >>> 4)) = some a ∧ unhexchar (hexchar c) = some b ∧
      UInt8.ofNat (16 * a + b) = c := by
  have hall : ∀ c : UInt8, unhexchar (hexchar (c >>> 4)) = some (c >>> 4).toNat ∧
      unhexchar (hexchar c) = some (c &&& 15).toNat ∧
      UInt8.ofNat (16 * (c >>> 4).toNat + (c &&& 15).toNat) = c := by decide
  exact ⟨_, _, hall c⟩

theorem isLabelChar_of_mem {atStart : Bool} {c d : UInt8} (h : d ∈ busLabelEscapeChar atStart c) :
    isLabelChar d = true := by
  have hall : ∀ c, (busLabelEscapeChar true c).all isLabelChar = true ∧
      (busLabelEscapeChar false c).all isLabelChar = true := by decide
  cases atStart with
  | true => exact List.all_eq_true.mp (hall c).1 d h
  | false => exact List.all_eq_true.mp (hall c).2 d h

/-- A byte is written as itself, and then it is no underscore, or as an escape. -/
theorem busLabelEscapeChar_cases (atStart : Bool) (c : UInt8) :
    busLabelEscapeChar atStart c = [underscore, hexchar (c >>> 4), hexchar c] ∨
      busLabelEscapeChar atStart c = [c] ∧ c ≠ underscore ∧
        (atStart = true → isAlpha c = true) := by
  have hall : isAlpha underscore = false ∧ isAsciiDigit underscore = false := by decide
  unfold busLabelEscapeChar
  split
  · exact .inl rfl
  · next h =>
    refine .inr ⟨rfl, ?_, ?_⟩
    · rintro rfl
      simp [hall] at h
    · rintro rfl
      simpa using h

/-- The loop undoes the escape of one byte, whatever comes after it. -/
theorem busLabelUnescapeLoop_escape (c : UInt8) (s : Bytes) :
    busLabelUnescapeLoop (underscore :: hexchar (c >>> 4) :: hexchar c :: s) =
      c :: busLabelUnescapeLoop s := by
  obtain ⟨a, b, ha, hb, hc⟩ := unhexchar_hexchar c
  rw [busLabelUnescapeLoop, if_pos rfl, ha, hb]
  show UInt8.ofNat (16 * a + b) :: _ = _
  rw [hc]

/-- The loop copies a byte that is no underscore. -/
theorem busLabelUnescapeLoop_plain {c : UInt8} (hc : c ≠ underscore) (s : Bytes) :
    busLabelUnescapeLoop (c :: s) = c :: busLabelUnescapeLoop s := by
  match s with
  | [] => rfl
  | [d] => rfl
  | d :: e :: s => rw [busLabelUnescapeLoop, if_neg hc]

theorem busLabelUnescapeLoop_escapeChar (atStart : Bool) (c : UInt8) (s : Bytes) :
    busLabelUnescapeLoop (busLabelEscapeChar atStart c ++ s) = c :: busLabelUnescapeLoop s := by
  rcases busLabelEscapeChar_cases atStart c with h | ⟨h, hc, -⟩
  · rw [h]
    exact busLabelUnescapeLoop_escape c s
  · rw [h]
    exact busLabelUnescapeLoop_plain hc s

/-! ## Whole labels -/

theorem busLabelUnescapeLoop_flatMap (s : Bytes) :
    busLabelUnescapeLoop (s.flatMap (busLabelEscapeChar false)) = s := by
  induction s with
  | nil => rfl
  | cons c s ih => rw [List.flatMap_cons, busLabelUnescapeLoop_escapeChar, ih]

/-- Only the empty text is written as a single underscore. -/
theorem busLabelEscape_ne_underscore (c : UInt8) (s : Bytes) :
    busLabelEscape (c :: s) ≠ [underscore] := by
  intro h
  rw [busLabelEscape] at h
  rcases busLabelEscapeChar_cases true c with hc | ⟨hc, hne, -⟩
  · rw [hc] at h
    cases h
  · rw [hc] at h
    exact hne (List.cons.inj h).1

theorem busLabelUnescape_busLabelEscape (s : Bytes) : busLabelUnescape (busLabelEscape s) = s := by
  cases s with
  | nil => rfl
  | cons c s =>
    unfold busLabelUnescape
    rw [if_neg (busLabelEscape_ne_underscore c s), busLabelEscape, busLabelUnescapeLoop_escapeChar,
      busLabelUnescapeLoop_flatMap]

theorem isLabelChar_of_mem_busLabelEscape {s : Bytes} {d : UInt8} (h : d ∈ busLabelEscape s) :
    isLabelChar d = true := by
  cases s with
  | nil =>
    rw [List.mem_singleton.mp h]
    rfl
  | cons c s =>
    rcases List.mem_append.mp h with h | h
    · exact isLabelChar_of_mem h
    · obtain ⟨e, -, hd⟩ := List.mem_flatMap.mp h
      exact isLabelChar_of_mem hd

/-- A label starts with a letter or an underscore. -/
theorem busLabelEscape_head (s : Bytes) :
    ∃ c t, busLabelEscape s = c :: t ∧ isAsciiDigit c = false := by
  have halpha : ∀ c, isAlpha c = true → isAsciiDigit c = false := by decide
  cases s with
  | nil => exact ⟨underscore, [], rfl, rfl⟩
  | cons c s =>
    rw [busLabelEscape]
    rcases busLabelEscapeChar_cases true c with hc | ⟨hc, -, hstart⟩
    · rw [hc]
      exact ⟨underscore, _, rfl, rfl⟩
    · rw [hc]
      exact ⟨c, _, rfl, halpha c (hstart rfl)⟩

theorem busLabelEscape_injective {s t : Bytes} (h : busLabelEscape s = busLabelEscape t) : s = t := by
  rw [← busLabelUnescape_busLabelEscape s, h, busLabelUnescape_busLabelEscape]

/-- A label is a name that object paths allow, from which the text can be had back;
    and so no two sessions, and no two seats, share an object path. -/
theorem busLabel_roundTrip :
    (∀ s : Bytes,
      busLabelEscape s ≠ [] ∧ (∀ c ∈ busLabelEscape s, isLabelChar c = true) ∧
        (∀ c, (busLabelEscape s).head? = some c → isAsciiDigit c = false) ∧
        busLabelUnescape (busLabelEscape s) = s) ∧
      (∀ id id' : Bytes, id ≠ id' → sessionBusPath id ≠ sessionBusPath id') ∧
      (∀ id id' : Bytes, id ≠ id' → seatBusPath id ≠ seatBusPath id') := by
  refine ⟨fun s => ⟨?_, fun c hc => isLabelChar_of_mem_busLabelEscape hc, ?_,
    busLabelUnescape_busLabelEscape s⟩, ?_, ?_⟩
  · obtain ⟨c, t, h, -⟩ := busLabelEscape_head s
    simp [h]
  · intro d hd
    obtain ⟨c, t, h, hc⟩ := busLabelEscape_head s
    rw [h] at hd
    cases hd
    exact hc
  · intro id id' hne h
    exact hne (busLabelEscape_injective (List.append_cancel_left h))
  · intro id id' hne h
    exact hne (busLabelEscape_injective (List.append_cancel_left h))

end Elogind
