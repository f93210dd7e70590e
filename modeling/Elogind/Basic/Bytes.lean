/-
  Elogind.Basic.Bytes

  Texts as the daemon sees them: sequences of bytes.  A C string is the list of
  its bytes without the terminating zero.
-/

import Mathlib.Data.UInt

namespace Elogind

abbrev Bytes := List UInt8

/-- `SIZE_MAX`, where a `size_t` has so many bits. -/
def sizeMax (bits : Nat) : Nat := 2 ^ bits - 1

/-- Texts that are compared byte by byte are equal. -/
instance : LawfulBEq Bytes := inferInstance

/-- The bytes of an ASCII literal. -/
def ascii (s : String) : Bytes := s.toList.map Char.toUInt8

/-- A statement about all bytes is checked byte by byte. -/
instance decidableForallByte {P : UInt8 → Prop} [DecidablePred P] : Decidable (∀ c, P c) :=
  decidable_of_iff (∀ n : Fin UInt8.size, P (UInt8.ofFin n)) {
    mp := fun h c => by simpa using h c.toFin
    mpr := fun h n => h (UInt8.ofFin n) }

namespace Byte

def tab : UInt8 := 9
def newline : UInt8 := 10
def carriageReturn : UInt8 := 13
def space : UInt8 := 32
def doubleQuote : UInt8 := 34
def singleQuote : UInt8 := 39
def equals : UInt8 := 61
def backslash : UInt8 := 92
def slash : UInt8 := 47
def dot : UInt8 := 46
def dash : UInt8 := 45
def colon : UInt8 := 58

/-- `strchr(WHITESPACE, c)` -/
def isWhitespace (c : UInt8) : Bool :=
  c == space || c == tab || c == newline || c == carriageReturn

/-- `strchr(NEWLINE, c)` -/
def isNewline (c : UInt8) : Bool := c == newline || c == carriageReturn

/-- `strchr(COMMENTS, c)`: a hash sign or a semicolon. -/
def isComment (c : UInt8) : Bool := c == 35 || c == 59

/-- `strchr(SHELL_NEED_ESCAPE, c)`: a double quote, a backslash, a backquote or
    a dollar sign. -/
def needsShellEscape (c : UInt8) : Bool :=
  c == doubleQuote || c == backslash || c == 96 || c == 36

/-- A printable ASCII character, the space included. -/
def isPrintable (c : UInt8) : Bool := space ≤ c && c < 127

theorem isWhitespace_of_isNewline {c : UInt8} (h : isNewline c = true) : isWhitespace c = true := by
  simp only [isNewline, isWhitespace, Bool.or_eq_true, beq_iff_eq] at h ⊢
  rcases h with rfl | rfl <;> simp

end Byte

end Elogind
