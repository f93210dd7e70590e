/-
  Elogind.Json.Format

  JSON variants as text (sd-json.c), in one line or indented.  Colours, the places in source files and the
  hiding of sensitive data are left out.
-/

import Elogind.Json.Variant
import Elogind.Basic.Unescape
import Elogind.Basic.ParseUtil

namespace Elogind

open Byte

/-- A character as `json_format_string` writes it. -/
def jsonFormatChar (q : UInt8) : Bytes :=
  if q = doubleQuote then [backslash, doubleQuote]
  else if q = backslash then [backslash, backslash]
  else if q = 8 then [backslash, 'b'.toUInt8]
  else if q = 12 then [backslash, 'f'.toUInt8]
  else if q = newline then [backslash, 'n'.toUInt8]
  else if q = carriageReturn then [backslash, 'r'.toUInt8]
  else if q = tab then [backslash, 't'.toUInt8]
  else if q < space then [backslash, 'u'.toUInt8, 48, 48, hexchar (q >>> 4), hexchar q]
  else [q]

/-- `json_format_string` -/
def jsonFormatString (q : Bytes) : Bytes := [doubleQuote] ++ q.flatMap jsonFormatChar ++ [doubleQuote]

/-- An `intmax_t` as `printf` writes it. -/
def formatInteger (i : Int) : Bytes := if i < 0 then '-'.toUInt8 :: decimal i.natAbs else decimal i.natAbs

namespace JsonVariant

variable {R : Type} [Double R]

/-- `json_format` of a variant without members. -/
def jsonFormatScalar (p : JsonPointer) (x : JsonScalar R) : Bytes :=
  match x with
  | .real _ => Double.format (scalar p x).real
  | .integer _ => formatInteger (scalar p x).integer.toInt
  | .unsigned _ => decimal (scalar p x).unsigned.toNat
  | .boolean b => if b then ascii "true" else ascii "false"
  | .null => ascii "null"
  | .string s => jsonFormatString s

/-- What stands before an element, which is the first one or not. -/
def formatBefore (pretty first : Bool) (indent : Bytes) : Bytes :=
  (if first then [] else if pretty then ascii ",\n" else ascii ",") ++ if pretty then indent else []

/-- What stands between a key and its value. -/
def formatColon (pretty : Bool) : Bytes := if pretty then ascii " : " else ascii ":"

/-- The characters around what is in a container. -/
def formatContainer (pretty : Bool) (indent : Bytes) (left right : UInt8) (members : Bytes) : Bytes :=
  (if pretty then [left, newline] else [left]) ++ members ++ (if pretty then newline :: indent else []) ++ [right]

/-- The indentation of what is in a container. -/
def indentMembers (pretty : Bool) (indent : Bytes) : Bytes := if pretty then indent ++ [tab] else indent

mutual

/-- `json_format`, where the indentation is the argument `prefix`. -/
def jsonFormat (pretty : Bool) : Bytes → JsonVariant R → Bytes
  | _, scalar p x => jsonFormatScalar p x
  | indent, array _ _ es =>
    if es.isEmpty then ascii "[]"
    else
      formatContainer pretty indent '['.toUInt8 ']'.toUInt8
        (jsonFormatElements pretty true (indentMembers pretty indent) es)
  | indent, object _ _ fs =>
    if fs.isEmpty then ascii "\x7b\x7d"
    else
      formatContainer pretty indent '{'.toUInt8 '}'.toUInt8
        (jsonFormatFields pretty true (indentMembers pretty indent) fs)

def jsonFormatElements (pretty first : Bool) : Bytes → List (JsonVariant R) → Bytes
  | _, [] => []
  | indent, e :: es =>
    formatBefore pretty first indent ++ jsonFormat pretty indent e ++ jsonFormatElements pretty false indent es

def jsonFormatFields (pretty first : Bool) : Bytes → List ((JsonPointer × Bytes) × JsonVariant R) → Bytes
  | _, [] => []
  | indent, (k, v) :: fs =>
    formatBefore pretty first indent ++ jsonFormatString k.2 ++ formatColon pretty ++ jsonFormat pretty indent v ++
      jsonFormatFields pretty false indent fs

end

end JsonVariant

end Elogind
