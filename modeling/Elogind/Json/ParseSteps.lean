/-
  Elogind.Json.ParseSteps

  The rounds of the loop in `json_parse_internal`, one lemma for each kind of token.
-/

import Elogind.Json.NewVariant
import Elogind.Json.Parse
import Elogind.Json.ScanToken

namespace Elogind

open Byte Errno JsonVariant

/-! ## Places -/

/-- The line only goes up. -/
theorem incLinesColumns_line_le (n : Nat) (place : Nat × Nat) (s : Bytes) : place.1 ≤ (incLinesColumns n place s).1 := by
  induction n generalizing place s with
  | zero => exact Nat.le_refl _
  | succ n ih =>
    obtain ⟨line, column⟩ := place
    cases s with
    | nil => exact Nat.le_refl _
    | cons c s =>
      rw [incLinesColumns]
      split
      · exact (Nat.le_succ line).trans (ih (line + 1, 1) s)
      split
      · exact ih (line, column + 1) s
      · exact ih (line, column + 1) _

/-- The tokenizer counts lines from 1 once it has begun. -/
def JsonTokenizer.Counts (s : JsonTokenizer) : Prop := s.state ≠ .null → 0 < s.line

section

variable {R : Type} [Double R]

theorem jsonTokenize_lines {s s' : JsonTokenizer} {token : JsonToken R} {place : Nat × Nat}
    (h : jsonTokenize s = .ok (token, place, s')) (hs : s.Counts) : 0 < place.1 ∧ 0 < s'.line := by
  have hplace : 0 < (if s.state = .null then (1, 1) else (s.line, s.column)).1 := by
    split
    · exact Nat.one_pos
    · rename_i hstate
      exact hs hstate
  unfold jsonTokenize at h
  simp only at h
  split at h
  · cases h
  cases h
  have hspace := hplace.trans_le (incLinesColumns_line_le s.p.length _ (s.p.takeWhile isWhitespace))
  exact ⟨hspace, hspace.trans_le (incLinesColumns_line_le _ _ _)⟩

/-! ## Tokens without members -/

namespace JsonVariant

/-- The variant has no members and this value, and its pointer is a fitting one. -/
def IsScalar (x : JsonScalar R) (v : JsonVariant R) : Prop := ∃ p : JsonPointer, p.Fits x ∧ v = scalar p x

theorem isScalar_newScalar (address : Nat) (x : JsonScalar R) : IsScalar x (newScalar address x) := by
  refine ⟨_, ?_, rfl⟩
  split
  · rename_i hmagic
    exact JsonPointer.fits_magic (.inl hmagic)
  · exact JsonPointer.fits_regular _ _ _ _

theorem isScalar_newReal (address : Nat) (d : R) : IsScalar (jsonReal d) (newReal address d) := by
  unfold newReal jsonReal
  cases Double.fpclassify d with
  | nan | infinite => exact ⟨.magic, JsonPointer.fits_magic (.inl rfl), rfl⟩
  | zero => exact ⟨.magic, JsonPointer.fits_magic (.inr rfl), rfl⟩
  | subnormal | normal => exact ⟨_, JsonPointer.fits_regular _ _ _ _, rfl⟩

theorem IsScalar.value {x : JsonScalar R} {v : JsonVariant R} (h : v.IsScalar x) : v.value = .scalar x := by
  obtain ⟨p, -, rfl⟩ := h
  exact value_scalar p x

/-- A variant without members with its place in the text. -/
theorem IsScalar.fromText {x : JsonScalar R} {v : JsonVariant R} (h : v.IsScalar x) (free address : Nat) {line : Nat}
    (hline : 0 < line) (column : Nat) : (v.setSource address line column).FromText free := by
  obtain ⟨p, hp, rfl⟩ := h
  refine fromText_setSource address hline column ?_ (.scalar hp) ?_
  · rfl
  · rw [keyCells_scalar]
    simp

/-- A string of valid UTF-8 makes a variant, and no other one does. -/
theorem newString_eq_ok (address : Nat) {s : Bytes} (hs : utf8IsValid s = true) :
    newString (R := R) address s = .ok (newScalar address (.string s)) := by
  unfold newString
  split
  · rfl
  · rw [hs]
    rfl

theorem utf8IsValid_of_newString {address : Nat} {s : Bytes} {v : JsonVariant R}
    (h : newString address s = .ok v) : utf8IsValid s = true ∧ v = newScalar address (.string s) := by
  unfold newString at h
  split at h
  · rename_i hnil
    obtain rfl := List.isEmpty_iff.mp hnil
    cases h
    exact ⟨rfl, rfl⟩
  split at h
  · cases h
  · rename_i hvalid
    cases h
    exact ⟨by simpa using hvalid, rfl⟩

end JsonVariant

/-- The variant that is made of a token without members. -/
def JsonToken.variant (free : Nat) : JsonToken R → Result (JsonVariant R)
  | string s => JsonVariant.newString free s
  | number (.real d) => .ok (JsonVariant.newReal free d)
  | number (.integer i) => .ok (JsonVariant.newInteger free i)
  | number (.unsigned u) => .ok (JsonVariant.newUnsigned free u)
  | boolean b => .ok (JsonVariant.newBoolean b)
  | _ => .ok JsonVariant.newNull

/-- What such a token denotes. -/
inductive JsonScalarToken : JsonToken R → JsonScalar R → Prop where
  | string (s : Bytes) : JsonScalarToken (.string s) (.string s)
  | number (n : JsonNumber R) : JsonScalarToken (.number n) n.scalar
  | boolean (b : Bool) : JsonScalarToken (.boolean b) (.boolean b)
  | null : JsonScalarToken .null .null

theorem JsonScalarToken.isScalar {token : JsonToken R} {x : JsonScalar R} (h : JsonScalarToken token x) {free : Nat}
    {v : JsonVariant R} (hv : token.variant free = .ok v) : v.IsScalar x := by
  cases h with
  | string s =>
    obtain ⟨-, rfl⟩ := utf8IsValid_of_newString hv
    exact isScalar_newScalar free _
  | number n =>
    cases n with
    | real d =>
      cases hv
      exact isScalar_newReal free d
    | integer i | unsigned u =>
      cases hv
      exact isScalar_newScalar free _
  | boolean b | null =>
    cases hv
    exact ⟨.magic, JsonPointer.fits_magic (.inl rfl), rfl⟩

/-- The text of a scalar is the text of a token. -/
theorem JsonText.exists_token {x : JsonScalar R} {t : Bytes} (h : JsonText (.value (.scalar x)) t) (free : Nat) :
    ∃ token v, JsonTokenText token t ∧ JsonScalarToken token x ∧ token.variant free = .ok v := by
  cases h with
  | null => exact ⟨.null, _, .null, .null, rfl⟩
  | booleanTrue => exact ⟨.boolean true, _, .booleanTrue, .boolean true, rfl⟩
  | booleanFalse => exact ⟨.boolean false, _, .booleanFalse, .boolean false, rfl⟩
  | number h =>
    rename_i n
    refine ⟨.number n.number, ?_⟩
    rw [← h.scalar_number]
    cases hn : (n.number : JsonNumber R) with
    | real d | integer i | unsigned u => exact ⟨_, hn ▸ .number h, .number _, rfl⟩
  | string h =>
    obtain ⟨us, hus, hvalid, rfl⟩ := h
    exact ⟨.string _, _, .string hus, .string _,
      newString_eq_ok free ((utf8IsValid_iff_of_jsonQuoted hus).mpr hvalid)⟩

/-- The text of such a token is that of a scalar, if the token makes a variant. -/
theorem JsonScalarToken.text {token : JsonToken R} {x : JsonScalar R} {t : Bytes} (h : JsonScalarToken token x)
    (ht : JsonTokenText token t) {free : Nat} {v : JsonVariant R} (hv : token.variant free = .ok v) :
    JsonText (.value (.scalar x)) t := by
  cases h with
  | string s =>
    cases ht with
    | @string us t hus =>
      obtain ⟨hvalid, -⟩ := utf8IsValid_of_newString hv
      exact .string ⟨us, hus, (utf8IsValid_iff_of_jsonQuoted hus).mp hvalid, rfl⟩
  | number n =>
    cases ht with
    | number hn =>
      rw [hn.scalar_number]
      exact .number hn
  | boolean b =>
    cases ht with
    | booleanTrue => exact .booleanTrue
    | booleanFalse => exact .booleanFalse
  | null =>
    cases ht
    exact .null

/-! ## Rounds -/

namespace JsonExpect

/-- Where a value may stand, a string may stand. -/
theorem afterString_of_afterValue {x y : JsonExpect} (h : x.afterValue = some y) : x.afterString = some y := by
  cases x <;> first | exact h | cases h

/-- A string is a value or a key. -/
theorem afterString_cases {x y : JsonExpect} (h : x.afterString = some y) :
    x.afterValue = some y ∨ (x = objectFirstKey ∨ x = objectNextKey) ∧ y = objectColon := by
  cases x with
  | objectFirstKey => exact .inr ⟨.inl rfl, (Option.some.inj h).symm⟩
  | objectNextKey => exact .inr ⟨.inr rfl, (Option.some.inj h).symm⟩
  | _ => exact .inl h

end JsonExpect

/-- What is expected after a token without members. -/
def JsonToken.expectAfter (x : JsonExpect) : JsonToken R → Option JsonExpect
  | string _ => x.afterString
  | _ => x.afterValue

namespace JsonParser

theorem token_scalar {token : JsonToken R} {x : JsonScalar R} (h : JsonScalarToken token x) (s : JsonParser R)
    (line column : Nat) :
    s.token line column token =
      s.addValue (token.expectAfter s.current.expect) (token.variant s.free) line column := by
  cases h with
  | string s | boolean b | null => rfl
  | number n => cases n <;> rfl

/-- A round that finds a token. -/
theorem round_token {token : JsonToken R} {s : JsonParser R} {a t rest : Bytes} (ha : JsonSpace a)
    (h : JsonTokenText token t) (hp : s.tokenizer.p = a ++ (t ++ rest))
    (hstate : token.isAllowed s.tokenizer.state = true) (hrest : token.Follow rest) (hlines : s.tokenizer.Counts) :
    ∃ line column tokenizer, 0 < line ∧ 0 < tokenizer.line ∧ tokenizer.p = rest ∧
      tokenizer.state = token.stateAfter s.tokenizer.state ∧
      s.round false = { s with tokenizer := tokenizer }.token line column token := by
  obtain ⟨place, line, column, htokenize⟩ := jsonTokenize_complete ha h hp hstate hrest
  obtain ⟨hplace, hline⟩ := jsonTokenize_lines htokenize hlines
  refine ⟨place.1, place.2, _, hplace, hline, rfl, rfl, ?_⟩
  unfold round
  rw [if_neg (by simp), htokenize]

end JsonParser

end

end Elogind
