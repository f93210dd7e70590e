/-
  Elogind.Json.Build

  Building a variant from a list of commands (`sd_json_buildv`), as far as the commands are about plain values,
  arrays, objects, pairs and buffers.  A buffer is written as text in one of four ways, and the readers of binary
  fields (`sd_json_variant_unbase64`, `sd_json_variant_unhex`) undo two of them.

  There is no result where memory is written outside of a buffer, an assertion does not hold, or the commands
  end before the variant is complete.
-/

import Elogind.Basic.Base64Lines
import Elogind.Json.ObjectMap

namespace Elogind

open Byte Errno Lib JsonVariant List

/-! ## Buffers as text -/

/-- `base32hexchar` -/
def base32hexchar (x : UInt8) : UInt8 := if x &&& 31 < 10 then 48 + (x &&& 31) else 65 + ((x &&& 31) - 10)

/-- The characters that are written for these bytes, without padding. -/
def base32hexChars : Bytes → Bytes
  | x₀ :: x₁ :: x₂ :: x₃ :: x₄ :: x =>
    base32hexchar (x₀ >>> 3) :: base32hexchar ((x₀ &&& 7) <<< 2 ||| x₁ >>> 6) :: base32hexchar ((x₁ &&& 63) >>> 1) ::
      base32hexchar ((x₁ &&& 1) <<< 4 ||| x₂ >>> 4) :: base32hexchar ((x₂ &&& 15) <<< 1 ||| x₃ >>> 7) ::
      base32hexchar ((x₃ &&& 127) >>> 2) :: base32hexchar ((x₃ &&& 3) <<< 3 ||| x₄ >>> 5) ::
      base32hexchar (x₄ &&& 31) :: base32hexChars x
  | [x₀, x₁, x₂, x₃] =>
    [base32hexchar (x₀ >>> 3), base32hexchar ((x₀ &&& 7) <<< 2 ||| x₁ >>> 6), base32hexchar ((x₁ &&& 63) >>> 1),
      base32hexchar ((x₁ &&& 1) <<< 4 ||| x₂ >>> 4), base32hexchar ((x₂ &&& 15) <<< 1 ||| x₃ >>> 7),
      base32hexchar ((x₃ &&& 127) >>> 2), base32hexchar ((x₃ &&& 3) <<< 3)]
  | [x₀, x₁, x₂] =>
    [base32hexchar (x₀ >>> 3), base32hexchar ((x₀ &&& 7) <<< 2 ||| x₁ >>> 6), base32hexchar ((x₁ &&& 63) >>> 1),
      base32hexchar ((x₁ &&& 1) <<< 4 ||| x₂ >>> 4), base32hexchar ((x₂ &&& 15) <<< 1)]
  | [x₀, x₁] =>
    [base32hexchar (x₀ >>> 3), base32hexchar ((x₀ &&& 7) <<< 2 ||| x₁ >>> 6), base32hexchar ((x₁ &&& 63) >>> 1),
      base32hexchar ((x₁ &&& 1) <<< 4)]
  | [x₀] => [base32hexchar (x₀ >>> 3), base32hexchar ((x₀ &&& 7) <<< 2)]
  | [] => []

/-- The size of the text that `base32hexmem` allocates, without the terminating zero. -/
def base32hexLength (bits l : Nat) : Nat :=
  8 * l % 2 ^ bits / 5 +
    (if l % 5 = 4 then 7 else if l % 5 = 3 then 5 else if l % 5 = 2 then 4 else if l % 5 = 1 then 2 else 0)

/-- `base32hexmem`, without padding. -/
def base32hexmem (bits : Nat) (p : Bytes) : Option Bytes :=
  let size := base32hexLength bits p.length + 1
  ((base32hexChars p).foldlM (writeChar size) []).bind (writeZero size)

/-- A character in the text that `octescape` writes. -/
def octescapeChar (u : UInt8) : Bytes :=
  if u < space ∨ u ≥ 127 ∨ u = backslash ∨ u = doubleQuote then
    [backslash, (48 : UInt8) + (u >>> (6 : UInt8)), (48 : UInt8) + ((u >>> (3 : UInt8)) &&& 7), 48 + (u &&& 7)]
  else [u]

/-- `octescape` -/
def octescape (bits : Nat) (s : Bytes) : Option Bytes :=
  if s.length > (sizeMax bits - 1) / 4 then none else some (s.flatMap octescapeChar)

/-- The commands that take a buffer.  The first four are public ones, the others are from the private list that
    begins at `_SD_JSON_BUILD_MAX`. -/
inductive JsonBuildCommand where
  | base64
  | base32hex
  | hex
  | octescape
  | pairBase64NonEmpty
  | pairBase32hexNonEmpty
  | pairHexNonEmpty
  | pairOctescapeNonEmpty
  deriving DecidableEq, Repr

namespace JsonVariant

variable {R : Type} [Double R]

/-- `sd_json_variant_new_stringn` with a length. -/
def newStringn (address : Nat) (s : Bytes) : Result (JsonVariant R) :=
  if 0 ∈ s then .error EINVAL else newString address s

/-- `sd_json_variant_new_base64` -/
def newBase64 (address : Nat) (p : Bytes) : Option (Result (JsonVariant R)) :=
  (base64mem 64 p).map (newStringn address)

/-- `sd_json_variant_new_base32hex` -/
def newBase32hex (address : Nat) (p : Bytes) : Option (Result (JsonVariant R)) :=
  (base32hexmem 64 p).map (newString address)

/-- `sd_json_variant_new_hex` -/
def newHex (address : Nat) (p : Bytes) : Option (Result (JsonVariant R)) := (hexmem 64 p).map (newStringn address)

/-- `sd_json_variant_new_octescape` -/
def newOctescape (address : Nat) (p : Bytes) : Result (JsonVariant R) :=
  match Elogind.octescape 64 p with
  | none => .error ENOMEM
  | some s => newString address s

/-- The choice among the encodings, which is written the same way for the plain commands and for the pairs. -/
def newBinary (command : JsonBuildCommand) (address : Nat) (p : Bytes) : Option (Result (JsonVariant R)) :=
  if command = .base64 then newBase64 address p
  else if command = .base32hex then newBase32hex address p
  else if command = .hex then newHex address p
  else some (newOctescape address p)

omit [Double R] in
/-- `sd_json_variant_unbase64` -/
def unbase64 : JsonVariant R → Option (Result Bytes)
  | scalar _ (.string s) => unbase64memFull s
  | _ => some (.error EINVAL)

omit [Double R] in
/-- `sd_json_variant_unhex` -/
def unhex : JsonVariant R → Option (Result Bytes)
  | scalar _ (.string s) => unhexmemFull s
  | _ => some (.error EINVAL)

end JsonVariant

/-! ## Commands -/

/-- A command with its arguments. -/
inductive JsonBuild (R : Type) where
  | string (s : Bytes)
  | stringUnderscorify (s : Bytes)
  | integer (i : Int64)
  | unsigned (u : UInt64)
  | real (d : R)
  | boolean (b : Bool)
  | null
  | variant (v : Option (JsonVariant R))
  | variantArray (vs : List (JsonVariant R))
  | binary (command : JsonBuildCommand) (p : Bytes)
  | arrayBegin
  | arrayEnd
  | objectBegin
  | objectEnd
  | pair (name : Bytes)
  | pairCondition (b : Bool) (name : Bytes)
  | pairIntegerNonZero (name : Bytes) (i : Int64)
  | pairIntegerNonNegative (name : Bytes) (i : Int64)
  | pairBinaryNonEmpty (command : JsonBuildCommand) (name p : Bytes)

namespace JsonBuild

variable {R : Type}

/-- `JSON_BUILD_PAIR_BASE64_NON_EMPTY` -/
def pairBase64NonEmpty (name p : Bytes) : JsonBuild R := pairBinaryNonEmpty .pairBase64NonEmpty name p

/-- `JSON_BUILD_PAIR_HEX_NON_EMPTY` -/
def pairHexNonEmpty (name p : Bytes) : JsonBuild R := pairBinaryNonEmpty .pairHexNonEmpty name p

end JsonBuild

/-- `JsonExpect`, as far as it is used for building. -/
inductive JsonBuildExpect where
  | toplevel
  | end
  | objectKey
  | objectValue
  | arrayElement
  deriving DecidableEq, Repr

/-- What is expected after a value, where one may stand. -/
def JsonBuildExpect.afterValue : JsonBuildExpect → Option JsonBuildExpect
  | toplevel => some .end
  | objectValue => some objectKey
  | arrayElement => some arrayElement
  | .end | objectKey => none

/-- `JsonStack` -/
structure JsonBuildStack (R : Type) where
  expect : JsonBuildExpect
  elements : List (JsonVariant R)
  nSuppress : Nat

/-- The variables of `sd_json_buildv`: `current` is the top of the stack, and `outer` is what is below, from the
    top on.  The memory from `free` on is not in use. -/
structure JsonBuilder (R : Type) where
  current : JsonBuildStack R
  outer : List (JsonBuildStack R)
  free : Nat

namespace JsonBuilder

variable {R : Type}

/-- What follows the `switch`: the variants are added unless they are suppressed, and the counter goes down by so
    many items. -/
def add (s : JsonBuilder R) (vs : List (JsonVariant R)) (nSubtract memory : Nat) : JsonBuilder R :=
  { s with
    current :=
      { s.current with
        elements := if s.current.nSuppress = 0 then s.current.elements ++ vs else s.current.elements
        nSuppress := if s.current.nSuppress = sizeMax 64 then sizeMax 64 else s.current.nSuppress - nSubtract }
    free := s.free + memory }

/-- Variants are made only where they are not suppressed. -/
def unlessSuppressed (s : JsonBuilder R) (vs : Option (Result (List (JsonVariant R)))) :
    Option (Result (List (JsonVariant R))) :=
  if s.current.nSuppress = 0 then vs else some (.ok [])

/-- The commands that make one value. -/
def value (s : JsonBuilder R) (v : Option (Result (JsonVariant R))) (memory : Nat) : Option (Result (JsonBuilder R)) :=
  match s.current.expect.afterValue with
  | none => some (.error EINVAL)
  | some expect =>
    (s.unlessSuppressed (v.map fun v => v.map fun v => [v])).map fun vs =>
      vs.map fun vs => { s with current := { s.current with expect := expect } }.add vs 1 memory

/-- The commands that make a name with its value, or nothing. -/
def pairOf (s : JsonBuilder R) (vs : Option (Result (List (JsonVariant R)))) : Option (Result (JsonBuilder R)) :=
  if s.current.expect = .objectKey then
    (s.unlessSuppressed vs).map fun vs => vs.map fun vs => s.add vs 2 2
  else some (.error EINVAL)

/-- An array or an object begins. -/
def begin (s : JsonBuilder R) (expect : JsonBuildExpect) : Option (Result (JsonBuilder R)) :=
  match s.current.expect.afterValue with
  | none => some (.error EINVAL)
  | some after =>
    some (.ok
      { s with
        current := ⟨expect, [], if s.current.nSuppress ≠ 0 then sizeMax 64 else 0⟩
        outer := { s.current with expect := after } :: s.outer })

/-- An array or an object ends. -/
def close (s : JsonBuilder R) (v : Result (JsonVariant R)) : Option (Result (JsonBuilder R)) :=
  match s.outer with
  | [] => none
  | below :: outer =>
    (s.unlessSuppressed (some (v.map fun v => [v]))).map fun vs =>
      vs.map fun vs => { s with current := below, outer := outer }.add vs 1 (s.current.elements.length + 1)

variable [Double R]

/-- The variants of a name and of its value. -/
def named (s : JsonBuilder R) (name : Bytes) (v : Option (Result (JsonVariant R))) :
    Option (Result (List (JsonVariant R))) :=
  match JsonVariant.newString s.free name with
  | .error er => some (.error er)
  | .ok n => v.map fun v => v.map fun v => [n, v]

/-- A round of the loop in `sd_json_buildv`. -/
def step (s : JsonBuilder R) : JsonBuild R → Option (Result (JsonBuilder R))
  | .string p => s.value (some (JsonVariant.newString s.free p)) 1
  | .stringUnderscorify p =>
    s.value (some (JsonVariant.newString s.free (p.map fun c => if c = 45 then 95 else c))) 1
  | .integer i => s.value (some (.ok (JsonVariant.newInteger s.free i))) 1
  | .unsigned u => s.value (some (.ok (JsonVariant.newUnsigned s.free u))) 1
  | .real d => s.value (some (.ok (JsonVariant.newReal s.free d))) 1
  | .boolean b => s.value (some (.ok (JsonVariant.newBoolean b))) 1
  | .null => s.value (some (.ok JsonVariant.newNull)) 1
  | .variant v => s.value (some (.ok (v.getD JsonVariant.newNull))) 1
  | .variantArray vs => s.value (some (JsonVariant.newArray s.free vs)) (vs.length + 1)
  | .binary command p => s.value (JsonVariant.newBinary command s.free p) 1
  | .arrayBegin => s.begin .arrayElement
  | .arrayEnd =>
    if s.current.expect = .arrayElement then s.close (JsonVariant.newArray s.free s.current.elements)
    else some (.error EINVAL)
  | .objectBegin => s.begin .objectKey
  | .objectEnd =>
    if s.current.expect = .objectKey then s.close (JsonVariant.newObject s.free s.current.elements)
    else some (.error EINVAL)
  | .pair name =>
    if s.current.expect = .objectKey then
      (s.unlessSuppressed (some ((JsonVariant.newString s.free name).map fun n => [n]))).map fun vs =>
        vs.map fun vs => { s with current := { s.current with expect := .objectValue } }.add vs 1 1
    else some (.error EINVAL)
  | .pairCondition b name =>
    if s.current.expect = .objectKey then
      let n := s.current.nSuppress
      let suppressed := if !b && n ≠ sizeMax 64 then n + 2 else n
      (if b then s.unlessSuppressed (some ((JsonVariant.newString s.free name).map fun n => [n]))
        else some (.ok [])).map fun vs =>
        vs.map fun vs =>
          { s with current := { s.current with expect := .objectValue, nSuppress := suppressed } }.add vs 1 1
    else some (.error EINVAL)
  | .pairIntegerNonZero name i =>
    s.pairOf (if i ≠ 0 then s.named name (some (.ok (JsonVariant.newInteger (s.free + 1) i))) else some (.ok []))
  | .pairIntegerNonNegative name i =>
    s.pairOf (if i ≥ 0 then s.named name (some (.ok (JsonVariant.newInteger (s.free + 1) i))) else some (.ok []))
  | .pairBinaryNonEmpty command name p =>
    s.pairOf (if p.length > 0 then s.named name (JsonVariant.newBinary command (s.free + 1) p) else some (.ok []))

/-- The rounds of the loop, up to where a variant is complete. -/
def run : JsonBuilder R → List (JsonBuild R) → Option (Result (JsonVariant R))
  | s, commands =>
    if s.current.expect = .end then
      match s.current.elements, s.outer with
      | [v], [] => some (.ok v)
      | _, _ => none
    else
      match commands with
      | [] => none
      | c :: commands =>
        match s.step c with
        | none => none
        | some (.error er) => some (.error er)
        | some (.ok s) => run s commands

end JsonBuilder

/-- `sd_json_buildv` -/
def sdJsonBuildv {R : Type} [Double R] (free : Nat) (commands : List (JsonBuild R)) :
    Option (Result (JsonVariant R)) :=
  JsonBuilder.run ⟨⟨.toplevel, [], 0⟩, [], free⟩ commands

/-- `SD_JSON_BUILD_OBJECT` -/
def JsonBuild.object {R : Type} (commands : List (JsonBuild R)) : List (JsonBuild R) :=
  .objectBegin :: commands ++ [.objectEnd]

/-! ## An object with a binary field -/

section

variable {R : Type} [Double R]

/-- The commands for a name together with its value. -/
def JsonBuildCommand.isPair : JsonBuildCommand → Bool
  | pairBase64NonEmpty | pairBase32hexNonEmpty | pairHexNonEmpty | pairOctescapeNonEmpty => true
  | base64 | base32hex | hex | octescape => false

/-- The buffer of a pair is always written by `octescape`. -/
theorem newBinary_of_isPair {command : JsonBuildCommand} (h : command.isPair = true) (address : Nat) (p : Bytes) :
    JsonVariant.newBinary command address p = some (JsonVariant.newOctescape (R := R) address p) := by
  cases command with
  | pairBase64NonEmpty | pairBase32hexNonEmpty | pairHexNonEmpty | pairOctescapeNonEmpty => rfl
  | base64 | base32hex | hex | octescape => cases h

namespace JsonBuilder

/-- What comes of the rounds comes of the first one. -/
theorem exists_of_run {s : JsonBuilder R} {c : JsonBuild R} {commands : List (JsonBuild R)} {v : JsonVariant R}
    (hopen : s.current.expect ≠ .end) (h : s.run (c :: commands) = some (.ok v)) :
    ∃ t, s.step c = some (.ok t) ∧ t.run commands = some (.ok v) := by
  rw [run, if_neg hopen] at h
  split at h
  · cases h
  · cases h
  · rename_i t hstep
    exact ⟨t, hstep, h⟩

theorem step_objectEnd (s : JsonBuilder R) : s.step .objectEnd =
    if s.current.expect = .objectKey then s.close (JsonVariant.newObject s.free s.current.elements)
    else some (.error EINVAL) := rfl

theorem step_pairBinaryNonEmpty (s : JsonBuilder R) (command : JsonBuildCommand) (name p : Bytes) :
    s.step (.pairBinaryNonEmpty command name p) =
      s.pairOf (if p.length > 0 then s.named name (JsonVariant.newBinary command (s.free + 1) p)
        else some (.ok [])) := rfl

end JsonBuilder

/-- The object of one field is made of its name and of the text of the buffer. -/
theorem sdJsonBuildv_binary {command : JsonBuildCommand} (hpair : command.isPair = true) {free : Nat}
    {name p : Bytes} (hp : p ≠ []) {v : JsonVariant R}
    (h : sdJsonBuildv free (JsonBuild.object [.pairBinaryNonEmpty command name p]) = some (.ok v)) :
    ∃ n x, JsonVariant.newString free name = .ok n ∧ JsonVariant.newOctescape (free + 1) p = .ok x ∧
      JsonVariant.newObject (free + 2) [n, x] = .ok v := by
  obtain ⟨s, hbegin, h⟩ := JsonBuilder.exists_of_run (fun hend => by cases hend) h
  replace hbegin : some (.ok ⟨⟨.objectKey, [], 0⟩, [⟨.end, [], 0⟩], free⟩) = some (Except.ok s) := hbegin
  cases hbegin
  obtain ⟨t, hpaired, h⟩ := JsonBuilder.exists_of_run (fun hend => by cases hend) h
  rw [JsonBuilder.step_pairBinaryNonEmpty, if_pos (length_pos_iff.mpr hp), newBinary_of_isPair hpair] at hpaired
  unfold JsonBuilder.named at hpaired
  cases hname : newString (R := R) free name with
  | error er =>
    rw [hname] at hpaired
    cases hpaired
  | ok n =>
    rw [hname] at hpaired
    cases htext : newOctescape (R := R) (free + 1) p with
    | error er =>
      rw [htext] at hpaired
      cases hpaired
    | ok x =>
      rw [htext] at hpaired
      replace hpaired : some (.ok ⟨⟨.objectKey, [n, x], 0⟩, [⟨.end, [], 0⟩], free + 2⟩) = some (Except.ok t) := hpaired
      cases hpaired
      obtain ⟨u, hend, h⟩ := JsonBuilder.exists_of_run (fun hend => by cases hend) h
      refine ⟨n, x, rfl, rfl, ?_⟩
      cases hobject : newObject (free + 2) [n, x] with
      | error er =>
        rw [JsonBuilder.step_objectEnd, hobject] at hend
        cases hend
      | ok w =>
        rw [JsonBuilder.step_objectEnd, hobject] at hend
        replace hend : some (.ok ⟨⟨.end, [w], 0⟩, [], free + 2 + 3⟩) = some (Except.ok u) := hend
        cases hend
        exact congrArg Except.ok (Except.ok.inj (Option.some.inj h))

end

/-! ## What is read from the text -/

/-- Two digits are read for each byte. -/
theorem unhexLoop_sound {size : Nat} :
    ∀ {n : Nat} {z p y : Bytes}, unhexLoop size n z p = some (.ok y) →
      ∃ out, y = z ++ out ∧ (withoutSkipped p).length = 2 * out.length ∧
        ∀ c ∈ withoutSkipped p, (unhexchar c).isSome = true := by
  intro n
  induction n with
  | zero =>
    intro z p y h
    cases h
  | succ n ih =>
    intro z p y h
    rw [unhexLoop] at h
    cases hfirst : unhexNext p with
    | error er =>
      rw [hfirst] at h
      simp only at h
      by_cases her : er = EPIPE
      · rw [if_pos her] at h
        obtain ⟨w, hw, hy⟩ := Option.map_eq_some_iff.mp h
        cases hy
        have hnone := no_text_of_nextDigit (her ▸ hfirst)
        refine ⟨[], ?_, ?_, ?_⟩
        · rw [(writeZero_eq_some hw).1, append_nil]
        · rw [hnone]
          rfl
        · rw [hnone]
          intro c hc
          cases hc
      · rw [if_neg her] at h
        cases h
    | ok v =>
      obtain ⟨a, p₁⟩ := v
      obtain ⟨ca, ha, htext₁, -, -⟩ := nextDigit_eq_ok hfirst
      rw [hfirst] at h
      simp only at h
      cases hsecond : unhexNext p₁ with
      | error er =>
        rw [hsecond] at h
        cases h
      | ok v =>
        obtain ⟨b, p₂⟩ := v
        obtain ⟨cb, hb, htext₂, -, -⟩ := nextDigit_eq_ok hsecond
        rw [hsecond] at h
        obtain ⟨w, hw, h⟩ := Option.bind_eq_some_iff.mp h
        obtain ⟨out, rfl, hlength, hall⟩ := ih h
        unfold writeChar at hw
        split at hw
        · cases hw
          refine ⟨UInt8.ofNat (a <<< 4 ||| b) :: out, by rw [append_assoc, singleton_append], ?_, ?_⟩
          · rw [htext₁, htext₂, length_cons, length_cons, length_cons, hlength]
            omega
          · rw [htext₁, htext₂]
            intro c hc
            rcases mem_cons.mp hc with rfl | hc
            · rw [ha]
              rfl
            · rcases mem_cons.mp hc with rfl | hc
              · rw [hb]
                rfl
              · exact hall c hc
        · cases hw

theorem unhexmemFull_sound {p y : Bytes} (h : unhexmemFull p = some (.ok y)) :
    (withoutSkipped p).length = 2 * y.length ∧ ∀ c ∈ withoutSkipped p, (unhexchar c).isSome = true := by
  obtain ⟨out, hy, hlength, hall⟩ := unhexLoop_sound h
  rw [hy, nil_append]
  exact ⟨hlength, hall⟩

/-- The text that `octescape` writes is the buffer itself, or there is a backslash in it. -/
theorem octescape_cases {bits : Nat} {p t : Bytes} (h : octescape bits p = some t) : t = p ∨ backslash ∈ t := by
  unfold octescape at h
  split at h
  · cases h
  · cases h
    clear * -
    induction p with
    | nil => exact .inl rfl
    | cons u p ih =>
      rw [flatMap_cons]
      by_cases hu : u < space ∨ u ≥ 127 ∨ u = backslash ∨ u = doubleQuote
      · right
        unfold octescapeChar
        rw [if_pos hu]
        exact mem_cons_self
      · have hself : octescapeChar u = [u] := if_neg hu
        rw [hself]
        rcases ih with ih | ih
        · exact .inl (congrArg (u :: ·) ih)
        · exact .inr (mem_cons_of_mem _ ih)

theorem mem_withoutSkipped_backslash {t : Bytes} (h : backslash ∈ t) : backslash ∈ withoutSkipped t :=
  mem_filter.mpr ⟨h, by decide⟩

/-- No text of `octescape` is read as base64 of its buffer: the text would have to be longer. -/
theorem unbase64memFull_octescape {bits : Nat} {p t : Bytes} (h : octescape bits p = some t) (hp : p ≠ []) :
    unbase64memFull t ≠ some (.ok p) := by
  intro hread
  have hchars := unbase64memFull_sound hread
  rcases octescape_cases h with rfl | hbackslash
  · have hlength := congrArg length hchars
    rw [length_base64Chars, length_map] at hlength
    have hle := length_withoutSkipped_le t
    have hpos : 0 < t.length := length_pos_iff.mpr hp
    omega
  · have hmem : regularChar backslash ∈ base64Chars p := by
      rw [hchars]
      exact mem_map_of_mem (mem_withoutSkipped_backslash hbackslash)
    rcases isBase64Char_or_equals hmem with ⟨n, hn, heq⟩ | heq
    · have hnone : ∀ n < 64, regularChar backslash ≠ base64char n := by decide
      exact hnone n hn heq
    · exact absurd heq (by decide)

/-- Nor is it read as hexadecimal text. -/
theorem unhexmemFull_octescape {bits : Nat} {p t : Bytes} (h : octescape bits p = some t) (hp : p ≠ []) :
    unhexmemFull t ≠ some (.ok p) := by
  intro hread
  obtain ⟨hdigits, hall⟩ := unhexmemFull_sound hread
  rcases octescape_cases h with rfl | hbackslash
  · have hle := length_withoutSkipped_le t
    have hpos : 0 < t.length := length_pos_iff.mpr hp
    omega
  · exact absurd (hall backslash (mem_withoutSkipped_backslash hbackslash)) (by decide)

/-! ## Reading a binary field back -/

section

variable {R : Type} [Double R]

/-- The object that is built with this pair gives the buffer back when its field is read this way. -/
def ReadsBack (headers : Nat → JsonHeader) (free : Nat) (pair : JsonBuild R)
    (read : JsonVariant R → Option (Result Bytes)) (name p : Bytes) : Prop :=
  ∃ v w, sdJsonBuildv free (JsonBuild.object [pair]) = some (.ok v) ∧ v.variantByKey headers name = some w ∧
    read w = some (.ok p)

omit [Double R] in
theorem ofList_entries_single (f : JsonField R) :
    FinMap.ofList JsonVariant.sameKey (JsonVariant.entries [f]) f.1.2 = some (f.1.2, f.2.value) :=
  find?_cons_of_pos (decide_eq_true rfl)

/-- A field that is found in the object is the text of the buffer. -/
theorem field_of_binary {headers : Nat → JsonHeader} {command : JsonBuildCommand} (hpair : command.isPair = true)
    {free : Nat} {name p : Bytes} (hp : p ≠ []) {v w : JsonVariant R}
    (hbuild : sdJsonBuildv free (JsonBuild.object [.pairBinaryNonEmpty command name p]) = some (.ok v))
    (hfield : v.variantByKey headers name = some w) :
    ∃ pointer t, octescape 64 p = some t ∧ w = .scalar pointer (.string t) := by
  obtain ⟨n, x, hname, htext, hobject⟩ := sdJsonBuildv_binary hpair hp hbuild
  obtain ⟨-, rfl⟩ := utf8IsValid_of_newString hname
  unfold newOctescape at htext
  split at htext
  · cases htext
  · rename_i t ht
    obtain ⟨-, rfl⟩ := utf8IsValid_of_newString htext
    have hkeys : ([(((if (JsonScalar.string name : JsonScalar R).isMagic then .magic else .regular free 0 0, name),
        newScalar (free + 1) (.string t)) : JsonField R)].map
        fun f => f.1.2).Nodup := nodup_singleton _
    obtain ⟨hmap, hentries, -⟩ := @isMap_newObject R _ headers v _ _ hkeys hobject
    have hvalue := value_variantByKey hmap name
    rw [hfield] at hvalue
    unfold toMap at hvalue
    rw [hentries] at hvalue
    have hw : w.value = .scalar (.string t) := Option.some.inj (hvalue.trans (congrArg _ (ofList_entries_single _)))
    cases w with
    | scalar pointer x =>
      cases hw
      exact ⟨pointer, t, ht, rfl⟩
    | array pointer c es =>
      cases hw
    | object pointer c fs =>
      cases hw

theorem not_readsBack_unbase64 (headers : Nat → JsonHeader) (free : Nat) (name : Bytes) {p : Bytes} (hp : p ≠ []) :
    ¬ ReadsBack headers free (.pairBase64NonEmpty name p : JsonBuild R) JsonVariant.unbase64 name p := by
  rintro ⟨v, w, hbuild, hfield, hread⟩
  obtain ⟨pointer, t, ht, rfl⟩ := field_of_binary rfl hp hbuild hfield
  exact unbase64memFull_octescape ht hp hread

theorem not_readsBack_unhex (headers : Nat → JsonHeader) (free : Nat) (name : Bytes) {p : Bytes} (hp : p ≠ []) :
    ¬ ReadsBack headers free (.pairHexNonEmpty name p : JsonBuild R) JsonVariant.unhex name p := by
  rintro ⟨v, w, hbuild, hfield, hread⟩
  obtain ⟨pointer, t, ht, rfl⟩ := field_of_binary rfl hp hbuild hfield
  exact unhexmemFull_octescape ht hp hread

/-- No buffer is read back from the field that was built for it, since the choice of the encoding only knows the
    commands for plain values and takes a pair for octal text. -/
theorem not_readsBack_binary (headers : Nat → JsonHeader) (free : Nat) (name p : Bytes) (hp : p ≠ []) :
    ¬ ReadsBack headers free (.pairBase64NonEmpty name p : JsonBuild R) JsonVariant.unbase64 name p ∧
      ¬ ReadsBack headers free (.pairHexNonEmpty name p : JsonBuild R) JsonVariant.unhex name p :=
  ⟨not_readsBack_unbase64 headers free name hp, not_readsBack_unhex headers free name hp⟩

end

/-- The three bytes of `foo` as the field `k`. -/
theorem not_readsBack_binary_foo :
    ¬ ReadsBack (fun _ => ⟨0, 0, true, true⟩) 0 (.pairBase64NonEmpty (ascii "k") (ascii "foo") : JsonBuild Unit)
        JsonVariant.unbase64 (ascii "k") (ascii "foo") ∧
      ¬ ReadsBack (fun _ => ⟨0, 0, true, true⟩) 0 (.pairHexNonEmpty (ascii "k") (ascii "foo") : JsonBuild Unit)
        JsonVariant.unhex (ascii "k") (ascii "foo") :=
  not_readsBack_binary _ _ _ _ (by decide)

/-- A buffer of a single zero is not read back either. -/
theorem exists_not_readsBack_binary :
    ∃ p : Bytes, p ≠ [] ∧
      ¬ (ReadsBack (fun _ => ⟨0, 0, true, true⟩) 0 (.pairBase64NonEmpty (ascii "k") p : JsonBuild Unit)
          JsonVariant.unbase64 (ascii "k") p ∧
        ReadsBack (fun _ => ⟨0, 0, true, true⟩) 0 (.pairHexNonEmpty (ascii "k") p : JsonBuild Unit)
          JsonVariant.unhex (ascii "k") p) := by
  refine ⟨[0], by decide, ?_⟩
  rintro ⟨hbase64, -⟩
  exact not_readsBack_unbase64 _ _ _ (by decide) hbase64

end Elogind
