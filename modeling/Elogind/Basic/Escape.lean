/-
  Elogind.Basic.Escape

  C-style escaping (escape.c), which the writers of state files use for values
  they do not trust.
-/

import Elogind.Basic.Bytes

namespace Elogind

-- for what is checked for each byte
set_option maxRecDepth 2000

/-- `octchar` -/
def octchar (x : UInt8) : UInt8 := 48 + (x &&& 7)

/-- `cescape_char`.  In C `c < ' '` also holds for the bytes from 128 on, which
    are negative there. -/
def cescapeChar (c : UInt8) : Bytes :=
  if c = 7 then [Byte.backslash, 'a'.toUInt8]
  else if c = 8 then [Byte.backslash, 'b'.toUInt8]
  else if c = 12 then [Byte.backslash, 'f'.toUInt8]
  else if c = Byte.newline then [Byte.backslash, 'n'.toUInt8]
  else if c = Byte.carriageReturn then [Byte.backslash, 'r'.toUInt8]
  else if c = Byte.tab then [Byte.backslash, 't'.toUInt8]
  else if c = 11 then [Byte.backslash, 'v'.toUInt8]
  else if c = Byte.backslash then [Byte.backslash, Byte.backslash]
  else if c = Byte.doubleQuote then [Byte.backslash, Byte.doubleQuote]
  else if c = Byte.singleQuote then [Byte.backslash, Byte.singleQuote]
  else if c < Byte.space ∨ c ≥ 127 then
    [Byte.backslash, octchar (c >>> 6), octchar (c >>> 3), octchar c]
  else [c]

/-- `cescape` -/
def cescape (s : Bytes) : Bytes := s.flatMap cescapeChar

/-- Escaped text is printable. -/
theorem isPrintable_of_mem_cescapeChar {c d : UInt8} (h : d ∈ cescapeChar c) :
    Byte.isPrintable d = true := by
  have hall : ∀ c, (cescapeChar c).all Byte.isPrintable = true := by decide
  exact List.all_eq_true.mp (hall c) d h

end Elogind
