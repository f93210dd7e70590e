/-
  Elogind.Json.ScanToken

  `json_tokenize` and the texts of tokens: which token is found, and that a token is found where the state
  of the tokenizer allows it.
-/

import Elogind.Json.ScanNumber
import Elogind.Json.ScanString

namespace Elogind

open Byte Errno List

-- for what is checked for each byte
set_option maxRecDepth 2000

/-- The text may go on in this way after the token. -/
def JsonToken.Follow {R : Type} (rest : Bytes) : JsonToken R → Prop
  | number _ => JsonFollow rest
  | _ => True

theorem JsonFollow.follow {R : Type} {rest : Bytes} (h : JsonFollow rest) (token : JsonToken R) :
    token.Follow rest := by
  cases token <;> first | exact h | exact trivial

section

variable {R : Type} [Double R]

/-- A token and its text. -/
inductive JsonTokenText : JsonToken R → Bytes → Prop where
  | colon : JsonTokenText .colon [':'.toUInt8]
  | comma : JsonTokenText .comma [','.toUInt8]
  | objectOpen : JsonTokenText .objectOpen ['{'.toUInt8]
  | objectClose : JsonTokenText .objectClose ['}'.toUInt8]
  | arrayOpen : JsonTokenText .arrayOpen ['['.toUInt8]
  | arrayClose : JsonTokenText .arrayClose [']'.toUInt8]
  | string {us : List Nat} {t : Bytes} (h : JsonQuoted us t) :
      JsonTokenText (.string (us.flatMap utf8EncodeUnichar)) t
  | number {n : JsonNumberParts} {t : Bytes} (h : JsonNumberText n t) : JsonTokenText (.number n.number) t
  | booleanTrue : JsonTokenText (.boolean true) (ascii "true")
  | booleanFalse : JsonTokenText (.boolean false) (ascii "false")
  | null : JsonTokenText .null (ascii "null")

namespace JsonToken

/-- The token may be found in this state of the tokenizer. -/
def isAllowed (state : JsonTokenizerState) : JsonToken R → Bool
  | colon | comma => state = .valuePost
  | objectClose | arrayClose | .end => true
  | objectOpen | arrayOpen | string _ | number _ | boolean _ | null => state ≠ .valuePost

/-- The state after the token. -/
def stateAfter (state : JsonTokenizerState) : JsonToken R → JsonTokenizerState
  | colon | comma | objectOpen | arrayOpen => .value
  | objectClose | arrayClose | string _ | number _ | boolean _ | null => .valuePost
  | .end => state

end JsonToken

/-- The first character of a token is none of white space. -/
theorem JsonTokenText.head {token : JsonToken R} {t : Bytes} (h : JsonTokenText token t) :
    ∃ c p, t = c :: p ∧ isWhitespace c = false := by
  cases h with
  | string h =>
    obtain ⟨h⟩ := h
    exact ⟨_, _, rfl, rfl⟩
  | number h =>
    obtain ⟨c, p, rfl, hc⟩ := h.head
    have hall : ∀ c : UInt8, (c = '-'.toUInt8 ∨ jsonIsDigit c = true) → isWhitespace c = false := by decide
    exact ⟨c, p, rfl, hall c hc⟩
  | _ => exact ⟨_, _, rfl, rfl⟩

/-- The first character of a number begins no other token. -/
theorem number_head : ∀ c : UInt8, (c = '-'.toUInt8 ∨ jsonIsDigit c = true) →
    c ≠ '{'.toUInt8 ∧ c ≠ '}'.toUInt8 ∧ c ≠ '['.toUInt8 ∧ c ≠ ']'.toUInt8 ∧ c ≠ doubleQuote := by decide

theorem jsonTokenAt_complete {token : JsonToken R} {t rest : Bytes} (h : JsonTokenText token t)
    {state : JsonTokenizerState} (hstate : token.isAllowed state = true) (hrest : token.Follow rest) :
    jsonTokenAt state (t ++ rest) = .ok (token, token.stateAfter state, rest) := by
  cases h with
  | colon | comma =>
    have hpost : state = .valuePost := of_decide_eq_true hstate
    subst hpost
    rfl
  | objectClose | arrayClose => cases state <;> rfl
  | objectOpen | arrayOpen =>
    have hpost : state ≠ .valuePost := of_decide_eq_true hstate
    simp only [cons_append, jsonTokenAt, hpost, if_false]
    rfl
  | booleanTrue =>
    have hpost : state ≠ .valuePost := of_decide_eq_true hstate
    show jsonTokenAt state ('t'.toUInt8 :: _) = _
    simp only [jsonTokenAt, hpost, if_false]
    rfl
  | booleanFalse =>
    have hpost : state ≠ .valuePost := of_decide_eq_true hstate
    show jsonTokenAt state ('f'.toUInt8 :: _) = _
    simp only [jsonTokenAt, hpost, if_false]
    rfl
  | null =>
    have hpost : state ≠ .valuePost := of_decide_eq_true hstate
    show jsonTokenAt state ('n'.toUInt8 :: _) = _
    simp only [jsonTokenAt, hpost, if_false]
    rfl
  | string h =>
    have hpost : state ≠ .valuePost := of_decide_eq_true hstate
    have hparse := jsonParseString_complete h rest
    obtain ⟨h⟩ := h
    rw [cons_append] at hparse ⊢
    simp only [jsonTokenAt, hpost, if_false, hparse]
    rfl
  | number h =>
    have hpost : state ≠ .valuePost := of_decide_eq_true hstate
    have hparse := jsonParseNumber_complete (R := R) h hrest
    obtain ⟨c, p, rfl, hc⟩ := h.head
    obtain ⟨h₁, h₂, h₃, h₄, h₅⟩ := number_head c hc
    rw [cons_append] at hparse ⊢
    simp only [jsonTokenAt, hpost, h₁, h₂, h₃, h₄, h₅, hc, if_false, if_true, hparse]
    rfl

/-- A text that begins with another one. -/
theorem eq_append_drop_of_isPrefixOf {t p : Bytes} (h : t.isPrefixOf p = true) : p = t ++ p.drop t.length := by
  obtain ⟨q, rfl⟩ := isPrefixOf_iff_prefix.mp h
  rw [drop_left]

/-- The result of a scanner as a token. -/
theorem exists_of_map {α β γ : Type} {r : Result (α × Bytes)} {f : α → β} {st st' : γ} {token : β} {rest : Bytes}
    (h : (r.map fun r => (f r.1, st', r.2)) = .ok (token, st, rest)) : ∃ a, r = .ok (a, rest) ∧ token = f a := by
  cases r with
  | error er => cases h
  | ok r =>
    cases h
    exact ⟨r.1, rfl, rfl⟩

theorem jsonTokenAt_sound {state st : JsonTokenizerState} {p rest : Bytes} {token : JsonToken R}
    (h : jsonTokenAt state p = .ok (token, st, rest)) :
    (p = [] ∧ token = .end ∧ rest = []) ∨ ∃ t, JsonTokenText token t ∧ p = t ++ rest := by
  cases p with
  | nil =>
    cases h
    exact .inl ⟨rfl, rfl, rfl⟩
  | cons c p =>
    right
    -- a token of one character
    have hone : ∀ {d : UInt8} {token' : JsonToken R} {st' : JsonTokenizerState}, JsonTokenText token' [d] → c = d →
        (.ok (token', st', p) : Result (JsonToken R × JsonTokenizerState × Bytes)) = .ok (token, st, rest) →
        ∃ t, JsonTokenText token t ∧ c :: p = t ++ rest := by
      intro d token' st' ht hd heq
      cases heq
      exact ⟨[d], ht, by rw [hd]; rfl⟩
    -- a literal name
    have hname : ∀ {t : Bytes} {token' : JsonToken R} {st' : JsonTokenizerState}, JsonTokenText token' t →
        t.isPrefixOf (c :: p) = true →
        (.ok (token', st', (c :: p).drop t.length) : Result (JsonToken R × JsonTokenizerState × Bytes)) =
          .ok (token, st, rest) →
        ∃ t, JsonTokenText token t ∧ c :: p = t ++ rest := by
      intro t token' st' ht hp heq
      cases heq
      exact ⟨t, ht, eq_append_drop_of_isPrefixOf hp⟩
    simp only [jsonTokenAt] at h
    split at h
    · split at h
      · exact hone .colon ‹_› h
      split at h
      · exact hone .comma ‹_› h
      split at h
      · exact hone .objectClose ‹_› h
      split at h
      · exact hone .arrayClose ‹_› h
      · cases h
    · split at h
      · exact hone .objectOpen ‹_› h
      split at h
      · exact hone .objectClose ‹_› h
      split at h
      · exact hone .arrayOpen ‹_› h
      split at h
      · exact hone .arrayClose ‹_› h
      split at h
      · obtain ⟨s, hs, rfl⟩ := exists_of_map (f := JsonToken.string) h
        obtain ⟨us, t, ht, htext, rfl⟩ := jsonParseString_sound hs
        exact ⟨t, .string ht, htext⟩
      split at h
      · obtain ⟨x, hx, rfl⟩ := exists_of_map (f := JsonToken.number) h
        obtain ⟨n, t, ht, htext, rfl⟩ := jsonParseNumber_sound hx
        exact ⟨t, .number ht, htext⟩
      split at h
      · exact hname .booleanTrue ‹_› h
      split at h
      · exact hname .booleanFalse ‹_› h
      split at h
      · exact hname .null ‹_› h
      · cases h

/-! ## White space -/

/-- White space before a character that is none. -/
theorem takeWhile_isWhitespace {a : Bytes} (ha : JsonSpace a) {c : UInt8} (hc : isWhitespace c = false) (p : Bytes) :
    (a ++ c :: p).takeWhile isWhitespace = a ∧ (a ++ c :: p).dropWhile isWhitespace = c :: p := by
  have hc' : ¬ isWhitespace c = true := by
    rw [hc]
    decide
  constructor
  · rw [takeWhile_append_of_pos ha, takeWhile_cons_of_neg hc', append_nil]
  · rw [dropWhile_append_of_pos ha, dropWhile_cons_of_neg hc']

theorem jsonTokenize_complete {token : JsonToken R} {a t rest : Bytes} (ha : JsonSpace a) (h : JsonTokenText token t)
    {s : JsonTokenizer} (hp : s.p = a ++ (t ++ rest)) (hstate : token.isAllowed s.state = true)
    (hrest : token.Follow rest) :
    ∃ place line column, jsonTokenize s = .ok (token, place, ⟨rest, token.stateAfter s.state, line, column⟩) := by
  have hat := jsonTokenAt_complete h hstate hrest
  obtain ⟨c, q, rfl, hc⟩ := h.head
  obtain ⟨-, hdrop⟩ := takeWhile_isWhitespace ha hc (q ++ rest)
  rw [cons_append] at hat hp
  unfold jsonTokenize
  simp only [hp, hdrop, hat]
  exact ⟨_, _, _, rfl⟩

/-- The end of the text. -/
theorem jsonTokenize_end {s : JsonTokenizer} (hp : JsonSpace s.p) : ∃ place s',
    jsonTokenize (R := R) s = .ok (.end, place, s') ∧ s'.p = [] := by
  have hdrop : s.p.dropWhile isWhitespace = [] := dropWhile_eq_nil_iff.mpr hp
  unfold jsonTokenize
  simp only [hdrop, jsonTokenAt]
  exact ⟨_, _, rfl, rfl⟩

theorem jsonTokenize_sound {s s' : JsonTokenizer} {token : JsonToken R} {place : Nat × Nat}
    (h : jsonTokenize s = .ok (token, place, s')) :
    ∃ a, JsonSpace a ∧ ((s.p = a ∧ token = .end ∧ s'.p = []) ∨
      ∃ t, JsonTokenText token t ∧ s.p = a ++ (t ++ s'.p)) := by
  have hsplit := (takeWhile_append_dropWhile (p := isWhitespace) (l := s.p)).symm
  unfold jsonTokenize at h
  simp only at h
  split at h
  · cases h
  rename_i token' state p hat
  cases h
  refine ⟨s.p.takeWhile isWhitespace, fun c hc => mem_takeWhile_imp hc, ?_⟩
  obtain ⟨hnil, rfl, rfl⟩ | ⟨t, ht, htext⟩ := jsonTokenAt_sound hat
  · left
    rw [hnil, append_nil] at hsplit
    exact ⟨hsplit, rfl, rfl⟩
  · right
    rw [htext] at hsplit
    exact ⟨t, ht, hsplit⟩

end

end Elogind
