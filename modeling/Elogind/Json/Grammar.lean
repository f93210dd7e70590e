/-
  Elogind.Json.Grammar

  The grammar of JSON texts, and the values that they denote.  White space is counted to what follows it.
  Strings consist of characters that `unichar_is_valid` allows, and a number without a fraction and an
  exponent denotes an integer if that has 64 bits, and a floating-point number otherwise.
-/

import Elogind.Json.Tokenize

namespace Elogind

open Byte

/-! ## Strings -/

/-- White space. -/
def JsonSpace (t : Bytes) : Prop := ∀ c ∈ t, isWhitespace c = true

/-- The escapes of one letter, and the characters that they stand for. -/
def jsonEscapes : List (UInt8 × Nat) :=
  [(doubleQuote, 0x22), (backslash, 0x5c), ('/'.toUInt8, 0x2f), ('b'.toUInt8, 8), ('f'.toUInt8, 12),
    ('n'.toUInt8, 10), ('r'.toUInt8, 13), ('t'.toUInt8, 9)]

/-- Four hexadecimal digits of a number. -/
inductive JsonHex : Nat → Bytes → Prop where
  | digits {c₃ c₂ c₁ c₀ : UInt8} {d₃ d₂ d₁ d₀ : Nat} (h₃ : unhexchar c₃ = some d₃) (h₂ : unhexchar c₂ = some d₂)
      (h₁ : unhexchar c₁ = some d₁) (h₀ : unhexchar c₀ = some d₀) :
      JsonHex (0x1000 * d₃ + 0x100 * d₂ + 0x10 * d₁ + d₀) [c₃, c₂, c₁, c₀]

/-- A character of a string, as it is or escaped. -/
inductive JsonChar : Nat → Bytes → Prop where
  | unescaped {u : Nat} (hvalid : unicharIsValid u = true) (hlow : 0x20 ≤ u) (hquote : u ≠ 0x22) (hslash : u ≠ 0x5c)
      (hdelete : u ≠ 0x7f) : JsonChar u (utf8EncodeUnichar u)
  | letter {c : UInt8} {u : Nat} (h : (c, u) ∈ jsonEscapes) : JsonChar u [backslash, c]
  | unicode {u : Nat} {t : Bytes} (h : JsonHex u t) (hzero : u ≠ 0) (hsurrogate : ¬ (0xd800 ≤ u ∧ u ≤ 0xdfff)) :
      JsonChar u (backslash :: 'u'.toUInt8 :: t)
  | surrogates {lead trail : Nat} {t t' : Bytes} (h : JsonHex lead t) (hlead : 0xd800 ≤ lead ∧ lead ≤ 0xdbff)
      (h' : JsonHex trail t') (htrail : 0xdc00 ≤ trail ∧ trail ≤ 0xdfff) :
      JsonChar (0x10000 + 0x400 * (lead - 0xd800) + (trail - 0xdc00))
        (backslash :: 'u'.toUInt8 :: (t ++ backslash :: 'u'.toUInt8 :: t'))

inductive JsonChars : List Nat → Bytes → Prop where
  | nil : JsonChars [] []
  | cons {u : Nat} {us : List Nat} {t ts : Bytes} (h : JsonChar u t) (hs : JsonChars us ts) :
      JsonChars (u :: us) (t ++ ts)

/-- A string in its quotes. -/
inductive JsonQuoted : List Nat → Bytes → Prop where
  | quotes {us : List Nat} {t : Bytes} (h : JsonChars us t) : JsonQuoted us (doubleQuote :: (t ++ [doubleQuote]))

/-- A string whose characters are allowed, with its text. -/
def JsonString (s t : Bytes) : Prop :=
  ∃ us, JsonQuoted us t ∧ (∀ u ∈ us, unicharIsValid u = true) ∧ s = us.flatMap utf8EncodeUnichar

/-! ## Numbers -/

/-- At least one digit. -/
def JsonDigits (ds : Bytes) : Prop := ds ≠ [] ∧ ∀ c ∈ ds, jsonIsDigit c = true

/-- The digits before the point, which are not kept where there is only a zero. -/
inductive JsonIntegerText : Bytes → Bytes → Prop where
  | zero : JsonIntegerText [] [48]
  | digits {ds : Bytes} (h : JsonDigits ds) (hzero : ds.head? ≠ some 48) : JsonIntegerText ds ds

inductive JsonFractionText : Option Bytes → Bytes → Prop where
  | absent : JsonFractionText none []
  | point {ds : Bytes} (h : JsonDigits ds) : JsonFractionText (some ds) ('.'.toUInt8 :: ds)

/-- The sign of an exponent: it is negative or not. -/
inductive JsonExponentSignText : Bool → Bytes → Prop where
  | absent : JsonExponentSignText false []
  | plus : JsonExponentSignText false ['+'.toUInt8]
  | minus : JsonExponentSignText true ['-'.toUInt8]

inductive JsonExponentText : Option (Bool × Bytes) → Bytes → Prop where
  | absent : JsonExponentText none []
  | power {e : UInt8} {negative : Bool} {sign ds : Bytes} (he : e = 'e'.toUInt8 ∨ e = 'E'.toUInt8)
      (hsign : JsonExponentSignText negative sign) (h : JsonDigits ds) :
      JsonExponentText (some (negative, ds)) (e :: (sign ++ ds))

/-- The text of a number after its sign. -/
inductive JsonUnsignedText : JsonNumberParts → Bytes → Prop where
  | parts {negative : Bool} {integer : Bytes} {fraction : Option Bytes} {exponent : Option (Bool × Bytes)}
      {ti tf te : Bytes} (hi : JsonIntegerText integer ti) (hf : JsonFractionText fraction tf)
      (he : JsonExponentText exponent te) :
      JsonUnsignedText ⟨negative, integer, fraction, exponent⟩ (ti ++ tf ++ te)

/-- The text of a number with these parts. -/
inductive JsonNumberText : JsonNumberParts → Bytes → Prop where
  | minus {n : JsonNumberParts} {t : Bytes} (hn : n.negative = true) (h : JsonUnsignedText n t) :
      JsonNumberText n ('-'.toUInt8 :: t)
  | plain {n : JsonNumberParts} {t : Bytes} (hn : n.negative = false) (h : JsonUnsignedText n t) : JsonNumberText n t

/-- The number that some digits stand for. -/
def jsonNatural (ds : Bytes) : Nat := ds.foldl (fun n c => 10 * n + jsonDigit c) 0

section

variable {R : Type} [Double R]

/-- The floating-point number that is computed from some digits. -/
def jsonDecimal (ds : Bytes) : R := ds.foldl appendDigit (Double.ofInt 0)

/-- A floating-point number as a value: there are no values for infinity and for what is not a number. -/
def jsonReal (d : R) : JsonScalar R :=
  match Double.fpclassify d with
  | .nan | .infinite => .null
  | .zero => .real (Double.ofInt 0)
  | .subnormal | .normal => .real d

/-- `1` with a sign. -/
def jsonSign (negative : Bool) : R := Double.ofInt (if negative then -1 else 1)

namespace JsonNumberParts

/-- There are digits before the point only, and the number has 64 bits. -/
def IsInteger (n : JsonNumberParts) : Prop :=
  n.fraction = none ∧ n.exponent = none ∧
    if n.negative then jsonNatural n.integer ≤ 2 ^ 63 else jsonNatural n.integer < 2 ^ 64

instance (n : JsonNumberParts) : Decidable n.IsInteger := by
  unfold IsInteger
  infer_instance

/-- The digits before and after the point and the exponent, put together. -/
def toReal (n : JsonNumberParts) : R :=
  let fraction := n.fraction.getD []
  let shift : R := fraction.foldl (fun shift _ => Double.mul (Double.ofInt 10) shift) (Double.ofInt 1)
  let exponent := n.exponent.getD (false, [])
  Double.mul
    (Double.mul (jsonSign n.negative)
      (Double.add (jsonDecimal n.integer) (Double.div (jsonDecimal fraction) shift)))
    (Double.exp10 (Double.mul (jsonSign exponent.1) (jsonDecimal exponent.2)))

/-- The value that a number denotes. -/
def scalar (n : JsonNumberParts) : JsonScalar R :=
  if n.IsInteger then
    if n.negative then .integer (Int64.ofInt (-jsonNatural n.integer))
    else .unsigned (UInt64.ofNat (jsonNatural n.integer))
  else jsonReal n.toReal

end JsonNumberParts

end

/-! ## Values -/

/-- What a text can denote: a value, or the members of an array or of an object, of which there is one at
    least. -/
inductive JsonPhrase (R : Type) where
  | value (v : Json R)
  | elements (es : List (Json R))
  | members (fs : List (Bytes × Json R))

/-- A phrase and its text. -/
inductive JsonText {R : Type} [Double R] : JsonPhrase R → Bytes → Prop where
  | null : JsonText (.value (.scalar .null)) (ascii "null")
  | booleanTrue : JsonText (.value (.scalar (.boolean true))) (ascii "true")
  | booleanFalse : JsonText (.value (.scalar (.boolean false))) (ascii "false")
  | number {n : JsonNumberParts} {t : Bytes} (h : JsonNumberText n t) : JsonText (.value (.scalar n.scalar)) t
  | string {s t : Bytes} (h : JsonString s t) : JsonText (.value (.scalar (.string s))) t
  | emptyArray {a : Bytes} (ha : JsonSpace a) : JsonText (.value (.array [])) ('['.toUInt8 :: (a ++ [']'.toUInt8]))
  | array {es : List (Json R)} {t a : Bytes} (h : JsonText (.elements es) t) (ha : JsonSpace a) :
      JsonText (.value (.array es)) ('['.toUInt8 :: (t ++ a ++ [']'.toUInt8]))
  | emptyObject {a : Bytes} (ha : JsonSpace a) :
      JsonText (.value (.object [])) ('{'.toUInt8 :: (a ++ ['}'.toUInt8]))
  | object {fs : List (Bytes × Json R)} {t a : Bytes} (h : JsonText (.members fs) t) (ha : JsonSpace a) :
      JsonText (.value (.object fs)) ('{'.toUInt8 :: (t ++ a ++ ['}'.toUInt8]))
  | element {v : Json R} {a t : Bytes} (ha : JsonSpace a) (h : JsonText (.value v) t) :
      JsonText (.elements [v]) (a ++ t)
  | elements {es : List (Json R)} {v : Json R} {ts b a t : Bytes} (hs : JsonText (.elements es) ts) (hb : JsonSpace b)
      (ha : JsonSpace a) (h : JsonText (.value v) t) :
      JsonText (.elements (es ++ [v])) (ts ++ b ++ ','.toUInt8 :: (a ++ t))
  | member {k : Bytes} {v : Json R} {a tk b c t : Bytes} (ha : JsonSpace a) (hk : JsonString k tk) (hb : JsonSpace b)
      (hc : JsonSpace c) (h : JsonText (.value v) t) :
      JsonText (.members [(k, v)]) (a ++ tk ++ b ++ ':'.toUInt8 :: (c ++ t))
  | members {fs : List (Bytes × Json R)} {k : Bytes} {v : Json R} {ts d a tk b c t : Bytes}
      (hs : JsonText (.members fs) ts) (hd : JsonSpace d) (ha : JsonSpace a) (hk : JsonString k tk) (hb : JsonSpace b)
      (hc : JsonSpace c) (h : JsonText (.value v) t) :
      JsonText (.members (fs ++ [(k, v)])) (ts ++ d ++ ','.toUInt8 :: (a ++ tk ++ b ++ ':'.toUInt8 :: (c ++ t)))

/-- A text that is one value. -/
def JsonDocument {R : Type} [Double R] (v : Json R) (input : Bytes) : Prop :=
  ∃ a t b, JsonSpace a ∧ JsonText (.value v) t ∧ JsonSpace b ∧ input = a ++ t ++ b

end Elogind
