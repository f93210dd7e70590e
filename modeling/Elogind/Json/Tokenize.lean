/-
  Elogind.Json.Tokenize

  The tokens of JSON texts (sd-json.c): strings, numbers and the rest, with the three states of the
  tokenizer.  A text is read without its terminating zero, and a zero in it ends it like any other
  character that cannot stand there.  Lines and columns are counted without a bound.
-/

import Elogind.Basic.Utf16
import Elogind.Json.Variant

namespace Elogind

open Byte Errno

/-! ## Strings -/

/-- `unhex_ucs2` -/
def unhexUcs2 (c : Bytes) : Result Nat :=
  match unhexchars 4 c 0 with
  | none => .error EINVAL
  | some x => if x = 0 then .error EINVAL else .ok x

/-- What `\uXXXX` stands for, if that is before the text: a character, and the rest of the text. -/
def jsonParseUnicode (c : Bytes) : Result (Nat × Bytes) :=
  match unhexUcs2 c with
  | .error er => .error er
  | .ok x =>
    if !utf16IsSurrogate x then .ok (x, c.drop 4)
    else if utf16IsTrailingSurrogate x then .error EINVAL
    else
      match c.drop 4 with
      | c₀ :: c₁ :: c =>
        if c₀ ≠ backslash ∨ c₁ ≠ 'u'.toUInt8 then .error EINVAL
        else
          match unhexUcs2 c with
          | .error er => .error er
          | .ok y =>
            if !utf16IsTrailingSurrogate y then .error EINVAL
            else .ok (utf16SurrogatePairToUnichar x y, c.drop 4)
      | _ => .error EINVAL

/-- The escapes of one character. -/
def jsonEscape (c : UInt8) : Option UInt8 :=
  if c = doubleQuote ∨ c = backslash ∨ c = '/'.toUInt8 then some c
  else if c = 'b'.toUInt8 then some 8
  else if c = 'f'.toUInt8 then some 12
  else if c = 'n'.toUInt8 then some newline
  else if c = 'r'.toUInt8 then some carriageReturn
  else if c = 't'.toUInt8 then some tab
  else none

/-- The loop of `json_parse_string`, with as many rounds as there are characters: the string, which
    starts with `s`, and the rest of the text. -/
def jsonParseStringLoop : Nat → Bytes → Bytes → Result (Bytes × Bytes)
  | n + 1, s, c :: p =>
    if c < space then .error EINVAL
    else if c = 0x7f then .error EINVAL
    else if c = doubleQuote then .ok (s, p)
    else if c = backslash then
      match p with
      | [] => .error EINVAL
      | e :: p =>
        match jsonEscape e with
        | some ch => jsonParseStringLoop n (s ++ [ch]) p
        | none =>
          if e = 'u'.toUInt8 then
            match jsonParseUnicode p with
            | .error er => .error er
            | .ok (x, p) => jsonParseStringLoop n (s ++ utf8EncodeUnichar x) p
          else .error EINVAL
    else
      match utf8EncodedValidUnichar c p with
      | none => .error EINVAL
      | some len => jsonParseStringLoop n (s ++ (c :: p).take len) ((c :: p).drop len)
  | _, _, _ => .error EINVAL

/-- `json_parse_string` -/
def jsonParseString : Bytes → Result (Bytes × Bytes)
  | [] => .error EINVAL
  | c :: p => if c ≠ doubleQuote then .error EINVAL else jsonParseStringLoop p.length [] p

/-! ## Numbers -/

/-- `strchr("0123456789", *c) && *c != 0` -/
def jsonIsDigit (c : UInt8) : Bool := 48 ≤ c && c ≤ 57

/-- The value of a digit. -/
def jsonDigit (c : UInt8) : Nat := c.toNat - 48

/-- The variables of the loop over the digits before the point. -/
structure JsonInteger (R : Type) where
  isReal : Bool
  i : Int
  u : Nat
  x : R

section Numbers

variable {R : Type} [Double R]

/-- `10.0 * x + (*c - '0')` -/
def appendDigit (x : R) (c : UInt8) : R := Double.add (Double.mul (Double.ofInt 10) x) (Double.ofInt (jsonDigit c))

/-- A round of that loop. -/
def JsonInteger.append (n : JsonInteger R) (negative : Bool) (c : UInt8) : JsonInteger R :=
  let x := appendDigit n.x c
  if n.isReal then { n with x := x }
  else if negative then
    if n.i < Int.tdiv (-2 ^ 63) 10 then { n with isReal := true, x := x }
    else if 10 * n.i < -2 ^ 63 + (jsonDigit c : Int) then { n with isReal := true, x := x }
    else { n with i := 10 * n.i - jsonDigit c, x := x }
  else
    if n.u > (2 ^ 64 - 1) / 10 then { n with isReal := true, x := x }
    else if 10 * n.u > 2 ^ 64 - 1 - jsonDigit c then { n with isReal := true, x := x }
    else { n with u := 10 * n.u + jsonDigit c, x := x }

/-- What `json_parse_number` returns. -/
inductive JsonNumber (R : Type) where
  | real (d : R)
  | integer (i : Int64)
  | unsigned (u : UInt64)

/-- The digits that come next, of which there must be one at least. -/
def jsonDigits (c : Bytes) : Result (Bytes × Bytes) :=
  let digits := c.takeWhile jsonIsDigit
  if digits.isEmpty then .error EINVAL else .ok (digits, c.dropWhile jsonIsDigit)

/-- The digits before the point: none after a zero. -/
def jsonIntegerDigits : Bytes → Result (Bytes × Bytes)
  | [] => .error EINVAL
  | c :: p => if c = 48 then .ok ([], p) else jsonDigits (c :: p)

/-- The digits after the point, if there is one. -/
def jsonFraction : Bytes → Result (Option Bytes × Bytes)
  | [] => .ok (none, [])
  | c :: p =>
    if c = '.'.toUInt8 then (jsonDigits p).map fun r => (some r.1, r.2)
    else .ok (none, c :: p)

/-- The sign of an exponent. -/
def jsonExponentSign : Bytes → Bool × Bytes
  | [] => (false, [])
  | c :: p => if c = '-'.toUInt8 then (true, p) else if c = '+'.toUInt8 then (false, p) else (false, c :: p)

/-- The sign and the digits of the exponent, if there is one. -/
def jsonExponent : Bytes → Result (Option (Bool × Bytes) × Bytes)
  | [] => .ok (none, [])
  | c :: p =>
    if c = 'e'.toUInt8 ∨ c = 'E'.toUInt8 then
      (jsonDigits (jsonExponentSign p).2).map fun r => (some ((jsonExponentSign p).1, r.1), r.2)
    else .ok (none, c :: p)

/-- The parts of a number. -/
structure JsonNumberParts where
  negative : Bool
  integer : Bytes
  fraction : Option Bytes
  exponent : Option (Bool × Bytes)

/-- The number that these parts make. -/
def JsonNumberParts.number (t : JsonNumberParts) : JsonNumber R :=
  let n : JsonInteger R := t.integer.foldl (fun n c => n.append t.negative c) ⟨false, 0, 0, Double.ofInt 0⟩
  let fraction := t.fraction.getD []
  let y : R := fraction.foldl appendDigit (Double.ofInt 0)
  let shift : R := fraction.foldl (fun shift _ => Double.mul (Double.ofInt 10) shift) (Double.ofInt 1)
  let exponent : R := (t.exponent.elim [] Prod.snd).foldl appendDigit (Double.ofInt 0)
  let sign : Bool → R := fun negative => Double.ofInt (if negative then -1 else 1)
  if n.isReal || t.fraction.isSome || t.exponent.isSome then
    .real (Double.mul (Double.mul (sign t.negative) (Double.add n.x (Double.div y shift)))
      (Double.exp10 (Double.mul (sign (t.exponent.elim false Prod.fst)) exponent)))
  else if t.negative then .integer (Int64.ofInt n.i)
  else .unsigned (UInt64.ofNat n.u)

/-- The part of `json_parse_number` after the sign. -/
def jsonParseUnsigned (negative : Bool) (c : Bytes) : Result (JsonNumberParts × Bytes) :=
  match jsonIntegerDigits c with
  | .error er => .error er
  | .ok (integer, c) =>
    match jsonFraction c with
    | .error er => .error er
    | .ok (fraction, c) =>
      match jsonExponent c with
      | .error er => .error er
      | .ok (exponent, c) => .ok (⟨negative, integer, fraction, exponent⟩, c)

/-- `json_parse_number` -/
def jsonParseNumber (p : Bytes) : Result (JsonNumber R × Bytes) :=
  let r :=
    match p with
    | [] => jsonParseUnsigned false []
    | c :: p => if c = '-'.toUInt8 then jsonParseUnsigned true p else jsonParseUnsigned false (c :: p)
  r.map fun r => (r.1.number, r.2)

/-! ## Tokens -/

/-- `JSON_TOKEN_END` and so on, with what was read. -/
inductive JsonToken (R : Type) where
  | end
  | colon
  | comma
  | objectOpen
  | objectClose
  | arrayOpen
  | arrayClose
  | string (s : Bytes)
  | number (n : JsonNumber R)
  | boolean (b : Bool)
  | null

/-- `STATE_NULL` and so on. -/
inductive JsonTokenizerState where
  | null
  | value
  | valuePost
  deriving DecidableEq, Repr

/-- What `json_tokenize` keeps from one call to the next. -/
structure JsonTokenizer where
  p : Bytes
  state : JsonTokenizerState
  line : Nat
  column : Nat

/-- The loop of `inc_lines_columns`, with as many rounds as there are characters. -/
def incLinesColumns : Nat → Nat × Nat → Bytes → Nat × Nat
  | n + 1, (line, column), c :: s =>
    if c = newline then incLinesColumns n (line + 1, 1) s
    else if c < 127 then incLinesColumns n (line, column + 1) s
    else incLinesColumns n (line, column + 1) (s.drop ((utf8EncodedValidUnichar c s).getD 1 - 1))
  | _, place, _ => place

/-- The token that begins with the first character, the state of the tokenizer after it and the rest of
    the text. -/
def jsonTokenAt (state : JsonTokenizerState) : Bytes → Result (JsonToken R × JsonTokenizerState × Bytes)
  | [] => .ok (.end, state, [])
  | c :: p =>
    if state = .valuePost then
      if c = ':'.toUInt8 then .ok (.colon, .value, p)
      else if c = ','.toUInt8 then .ok (.comma, .value, p)
      else if c = '}'.toUInt8 then .ok (.objectClose, .valuePost, p)
      else if c = ']'.toUInt8 then .ok (.arrayClose, .valuePost, p)
      else .error EINVAL
    else
      if c = '{'.toUInt8 then .ok (.objectOpen, .value, p)
      else if c = '}'.toUInt8 then .ok (.objectClose, .valuePost, p)
      else if c = '['.toUInt8 then .ok (.arrayOpen, .value, p)
      else if c = ']'.toUInt8 then .ok (.arrayClose, .valuePost, p)
      else if c = doubleQuote then (jsonParseString (c :: p)).map fun r => (.string r.1, .valuePost, r.2)
      else if c = '-'.toUInt8 ∨ jsonIsDigit c then
        (jsonParseNumber (c :: p)).map fun r => (.number r.1, .valuePost, r.2)
      else if (ascii "true").isPrefixOf (c :: p) then .ok (.boolean true, .valuePost, (c :: p).drop 4)
      else if (ascii "false").isPrefixOf (c :: p) then .ok (.boolean false, .valuePost, (c :: p).drop 5)
      else if (ascii "null").isPrefixOf (c :: p) then .ok (.null, .valuePost, (c :: p).drop 4)
      else .error EINVAL

/-- `json_tokenize`: the token, where it begins, and how the text goes on. -/
def jsonTokenize (t : JsonTokenizer) : Result (JsonToken R × (Nat × Nat) × JsonTokenizer) :=
  let place := if t.state = .null then (1, 1) else (t.line, t.column)
  let place := incLinesColumns t.p.length place (t.p.takeWhile isWhitespace)
  let start := t.p.dropWhile isWhitespace
  match jsonTokenAt t.state start with
  | .error er => .error er
  | .ok (token, state, p) =>
    let after := incLinesColumns start.length place (start.take (start.length - p.length))
    .ok (token, place, ⟨p, state, after.1, after.2⟩)

end Numbers

end Elogind
