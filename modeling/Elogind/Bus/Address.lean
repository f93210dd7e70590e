/-
  Elogind.Bus.Address

  The values in the address of a bus: how they are escaped (`bus_address_escape`, bus-internal.c) and read
  (`parse_address_key`, sd-bus.c).  A text is read without its terminating zero, which stands for the octets behind its
  end, and memory can always be had.
-/

import Elogind.Basic.BusLabel
import Elogind.Basic.Errno
import Elogind.Basic.StringUtil

namespace Elogind

open Byte Errno List

namespace Byte

def semicolon : UInt8 := 59

end Byte

/-! ## Definitions -/

/-- A character that `bus_address_escape` writes as it is. -/
def isAddressChar (c : UInt8) : Bool := isAsciiDigit c || isAlpha c || (ascii "_-/.").contains c

/-- One round of `bus_address_escape`.  The characters are signed, and so is the shift. -/
def busAddressEscapeChar (c : UInt8) : Bytes :=
  if isAddressChar c then [c] else [percent, hexchar (c.toInt8 >>> 4).toUInt8, hexchar (c &&& 15)]

/-- `bus_address_escape` -/
def busAddressEscape (v : Bytes) : Bytes := v.flatMap busAddressEscapeChar

/-- The loop of `parse_address_key`: the value, and what is left behind it. -/
def parseAddressValue : Bytes → Result (Bytes × Bytes)
  | [] => .ok ([], [])
  | c :: a =>
    if c = semicolon ∨ c = comma then .ok ([], c :: a)
    else if c = percent then
      match a with
      | d :: e :: a =>
        match unhexchar d, unhexchar e with
        | some x, some y => (parseAddressValue a).map fun r => (UInt8.ofNat (16 * x + y) :: r.1, r.2)
        | _, _ => .error EINVAL
      | _ => .error EINVAL
    else (parseAddressValue a).map fun r => (c :: r.1, r.2)

/-- The end of `parse_address_key`: the value, and the cursor behind it. -/
def parseAddressRest (a : Bytes) : Result (Option (Bytes × Bytes)) :=
  (parseAddressValue a).map fun r => some (r.1, if r.2.head? = some comma then r.2.tail else r.2)

/-- `parse_address_key`: nothing where the key does not stand here. -/
def parseAddressKey (p : Bytes) (key value : Option Bytes) : Result (Option (Bytes × Bytes)) :=
  match key with
  | none => parseAddressRest p
  | some key =>
    match startswith p key with
    | none => .ok none
    | some a =>
      if a.head? ≠ some equals then .ok none
      else if value.isSome then .error EINVAL
      else parseAddressRest a.tail

/-! ## One character -/

/-- An octet that has a meaning of its own in an address, or begins an escape. -/
def isAddressSpecial (c : UInt8) : Bool := c == percent || c == comma || c == semicolon || c == equals

/-- A character is written as itself, and then it is no special one, or as an escape that stands for it. -/
theorem busAddressEscapeChar_cases (c : UInt8) :
    busAddressEscapeChar c = [c] ∧ isAddressSpecial c = false ∨
      ∃ d e x y, busAddressEscapeChar c = [percent, d, e] ∧ unhexchar d = some x ∧ unhexchar e = some y ∧
        UInt8.ofNat (16 * x + y) = c := by
  have hplain : ∀ c : UInt8, isAddressChar c = true → isAddressSpecial c = false := by decide +kernel
  have hescape : ∀ c : UInt8, unhexchar (hexchar (c.toInt8 >>> 4).toUInt8) = some (c >>> 4).toNat ∧
      unhexchar (hexchar (c &&& 15)) = some (c &&& 15).toNat ∧
      UInt8.ofNat (16 * (c >>> 4).toNat + (c &&& 15).toNat) = c := by
    decide +kernel
  unfold busAddressEscapeChar
  by_cases hchar : isAddressChar c = true
  · rw [if_pos hchar]
    exact .inl ⟨rfl, hplain c hchar⟩
  · rw [if_neg hchar]
    exact .inr ⟨_, _, _, _, rfl, hescape c⟩

/-- No digit is a special character. -/
theorem isAddressSpecial_of_unhexchar {c : UInt8} {x : Nat} (h : unhexchar c = some x) : isAddressSpecial c = false := by
  have hall : ∀ c : UInt8, (unhexchar c).isSome = true → isAddressSpecial c = false := by decide +kernel
  exact hall c (by rw [h]; rfl)

/-! ## Reading back -/

section Rounds

variable {c d e : UInt8} {a : Bytes}

theorem parseAddressValue_plain (h : isAddressSpecial c = false) :
    parseAddressValue (c :: a) = (parseAddressValue a).map fun r => (c :: r.1, r.2) := by
  have hne : c ≠ percent ∧ c ≠ comma ∧ c ≠ semicolon := by
    unfold isAddressSpecial at h
    simp only [Bool.or_eq_false_iff, beq_eq_false_iff_ne] at h
    exact ⟨h.1.1.1, h.1.1.2, h.1.2⟩
  conv => lhs; unfold parseAddressValue
  rw [if_neg (not_or.mpr ⟨hne.2.2, hne.2.1⟩), if_neg hne.1]

theorem parseAddressValue_escape {x y : Nat} (hd : unhexchar d = some x) (he : unhexchar e = some y) :
    parseAddressValue (percent :: d :: e :: a) =
      (parseAddressValue a).map fun r => (UInt8.ofNat (16 * x + y) :: r.1, r.2) := by
  conv => lhs; unfold parseAddressValue
  rw [if_neg (by decide), if_pos rfl]
  dsimp only
  rw [hd, he]

end Rounds

/-- What an address may go on with behind a value. -/
def EndsValue (t : Bytes) : Prop := t = [] ∨ ∃ c u, t = c :: u ∧ (c = comma ∨ c = semicolon)

theorem parseAddressValue_end {t : Bytes} (h : EndsValue t) : parseAddressValue t = .ok ([], t) := by
  rcases h with rfl | ⟨c, u, rfl, hc⟩
  · rfl
  · unfold parseAddressValue
    exact if_pos hc.symm

/-- An escaped value is read back. -/
theorem parseAddressValue_escaped (v : Bytes) {t : Bytes} (ht : EndsValue t) :
    parseAddressValue (busAddressEscape v ++ t) = .ok (v, t) := by
  induction v with
  | nil => exact parseAddressValue_end ht
  | cons c v ih =>
    unfold busAddressEscape at ih ⊢
    rw [flatMap_cons, append_assoc]
    rcases busAddressEscapeChar_cases c with ⟨heq, hplain⟩ | ⟨d, e, x, y, heq, hd, he, hc⟩
    · rw [heq, singleton_append, parseAddressValue_plain hplain, ih]
      rfl
    · rw [heq]
      show parseAddressValue (percent :: d :: e :: (v.flatMap busAddressEscapeChar ++ t)) = _
      rw [parseAddressValue_escape hd he, ih, hc]
      rfl

theorem parseAddressKey_escaped (k v : Bytes) {t : Bytes} (ht : EndsValue t) :
    parseAddressKey (k ++ equals :: (busAddressEscape v ++ t)) (some k) none =
      .ok (some (v, if t.head? = some comma then t.tail else t)) := by
  unfold parseAddressKey startswith
  dsimp only
  rw [if_pos (List.isPrefixOf_iff_prefix.mpr (prefix_append _ _)), drop_left]
  dsimp only
  rw [if_neg (by simp), if_neg (by decide), tail_cons]
  unfold parseAddressRest
  rw [parseAddressValue_escaped v ht]
  rfl

/-! ## The escaped text -/

/-- No separator stands in an escaped value. -/
theorem busAddressEscape_separators (v : Bytes) :
    ∀ c ∈ busAddressEscape v, c ≠ comma ∧ c ≠ semicolon ∧ c ≠ equals := by
  have hplain : ∀ c : UInt8, isAddressSpecial c = false → c ≠ comma ∧ c ≠ semicolon ∧ c ≠ equals := by
    intro c hc
    unfold isAddressSpecial at hc
    simp only [Bool.or_eq_false_iff, beq_eq_false_iff_ne] at hc
    exact ⟨hc.1.1.2, hc.1.2, hc.2⟩
  intro c hc
  obtain ⟨x, -, hc⟩ := mem_flatMap.mp hc
  rcases busAddressEscapeChar_cases x with ⟨heq, hx⟩ | ⟨d, e, m, n, heq, hd, he, -⟩
  · rw [heq, mem_singleton] at hc
    rw [hc]
    exact hplain x hx
  · rw [heq] at hc
    rcases mem_cons.mp hc with rfl | hc
    · decide
    · rcases mem_cons.mp hc with rfl | hc
      · exact hplain c (isAddressSpecial_of_unhexchar hd)
      · rw [mem_singleton.mp hc]
        exact hplain e (isAddressSpecial_of_unhexchar he)

/-- A percent sign in an escaped value begins an escape. -/
theorem busAddressEscape_percent (v : Bytes) {a b : Bytes} (h : busAddressEscape v = a ++ percent :: b) :
    ∃ d e b', b = d :: e :: b' ∧ (unhexchar d).isSome = true ∧ (unhexchar e).isSome = true := by
  induction v generalizing a with
  | nil =>
    cases a <;> cases h
  | cons c v ih =>
    have hcons : busAddressEscape (c :: v) = busAddressEscapeChar c ++ busAddressEscape v := flatMap_cons
    rw [hcons] at h
    have hdigit {d : UInt8} {x : Nat} (hd : unhexchar d = some x) : d ≠ percent := by
      rintro rfl
      cases isAddressSpecial_of_unhexchar hd
    rcases busAddressEscapeChar_cases c with ⟨heq, hplain⟩ | ⟨d, e, x, y, heq, hd, he, -⟩
    · rw [heq] at h
      cases a with
      | nil =>
        obtain ⟨rfl, -⟩ := cons.inj h
        cases hplain
      | cons _ a => exact ih (cons.inj h).2
    · rw [heq] at h
      rcases a with _ | ⟨_, _ | ⟨_, _ | ⟨_, a⟩⟩⟩
      · exact ⟨d, e, _, (cons.inj h).2.symm, by rw [hd]; rfl, by rw [he]; rfl⟩
      · exact absurd (cons.inj (cons.inj h).2).1 (hdigit hd)
      · exact absurd (cons.inj (cons.inj (cons.inj h).2).2).1 (hdigit he)
      · exact ih (cons.inj (cons.inj (cons.inj h).2).2).2

/-- The text of a key with an escaped value is read back at the end of an address, before another key, and before another
    address.  In the escaped value there are no separators, and percent signs only where escapes begin. -/
theorem busAddressEscape_roundTrip (k v : Bytes) :
    parseAddressKey (k ++ equals :: busAddressEscape v) (some k) none = .ok (some (v, [])) ∧
    (∀ t, parseAddressKey (k ++ equals :: (busAddressEscape v ++ comma :: t)) (some k) none = .ok (some (v, t))) ∧
    (∀ t, parseAddressKey (k ++ equals :: (busAddressEscape v ++ semicolon :: t)) (some k) none =
      .ok (some (v, semicolon :: t))) ∧
    (∀ c ∈ busAddressEscape v, c ≠ comma ∧ c ≠ semicolon ∧ c ≠ equals) ∧
    ∀ a b, busAddressEscape v = a ++ percent :: b →
      ∃ d e b', b = d :: e :: b' ∧ (unhexchar d).isSome = true ∧ (unhexchar e).isSome = true := by
  refine ⟨?_, fun t => ?_, fun t => ?_, busAddressEscape_separators v, fun a b h => busAddressEscape_percent v h⟩
  · have h := parseAddressKey_escaped k v (t := []) (.inl rfl)
    rwa [append_nil] at h
  · exact parseAddressKey_escaped k v (.inr ⟨comma, t, rfl, .inl rfl⟩)
  · exact parseAddressKey_escaped k v (.inr ⟨semicolon, t, rfl, .inr rfl⟩)

end Elogind
