/-
  Elogind.Json.Parse

  Reading a JSON text (sd-json.c): a stack of what is expected next and of the variants that were read so
  far at each level of nesting.
-/

import Elogind.Json.Tokenize

namespace Elogind

open Byte Errno

/-- `JsonExpect`, as far as it is used for reading. -/
inductive JsonExpect where
  | toplevel
  | end
  | objectFirstKey
  | objectNextKey
  | objectColon
  | objectValue
  | objectComma
  | arrayFirstElement
  | arrayNextElement
  | arrayComma
  deriving DecidableEq, Repr

namespace JsonExpect

/-- What is expected after a value, where one may stand. -/
def afterValue : JsonExpect → Option JsonExpect
  | toplevel => some .end
  | objectValue => some objectComma
  | arrayFirstElement | arrayNextElement => some arrayComma
  | .end | objectFirstKey | objectNextKey | objectColon | objectComma | arrayComma => none

/-- What is expected after a string, where one may stand. -/
def afterString : JsonExpect → Option JsonExpect
  | objectFirstKey | objectNextKey => some objectColon
  | x => x.afterValue

/-- What is expected after a comma, where one may stand. -/
def afterComma : JsonExpect → Option JsonExpect
  | objectComma => some objectNextKey
  | arrayComma => some arrayNextElement
  | _ => none

end JsonExpect

/-- `JsonStack` -/
structure JsonStack (R : Type) where
  expect : JsonExpect
  elements : List (JsonVariant R)
  lineBefore : Nat
  columnBefore : Nat

/-- The variables of `json_parse_internal`.  The stack is never empty: `current` is its top, and `outer` is
    what is below, from the top on.  The memory from `free` on is not in use. -/
structure JsonParser (R : Type) where
  tokenizer : JsonTokenizer
  current : JsonStack R
  outer : List (JsonStack R)
  free : Nat

/-- How a round of the loop in `json_parse_internal` ends. -/
inductive JsonRound (R : Type) where
  | next (s : JsonParser R)
  | done (v : JsonVariant R) (p : Bytes)
  | failed (er : Errno)
  /-- An assertion does not hold. -/
  | assertFailed

namespace JsonParser

variable {R : Type} [Double R]

/-- The variant `add` becomes an element at the top of the stack. -/
def add (s : JsonParser R) (v : JsonVariant R) (line column memory : Nat) : JsonRound R :=
  .next
    { s with
      current := { s.current with elements := s.current.elements ++ [v.setSource s.free line column] }
      free := s.free + memory }

/-- A variant without members was read. -/
def addValue (s : JsonParser R) (expect : Option JsonExpect) (v : Result (JsonVariant R)) (line column : Nat) :
    JsonRound R :=
  match expect with
  | none => .failed EINVAL
  | some expect =>
    match v with
    | .error er => .failed er
    | .ok v => { s with current := { s.current with expect := expect } }.add v line column 1

/-- An array or an object begins. -/
def begin (s : JsonParser R) (expect : JsonExpect) (line column : Nat) : JsonRound R :=
  match s.current.expect.afterValue with
  | none => .failed EINVAL
  | some after =>
    .next
      { s with
        current := ⟨expect, [], line, column⟩
        outer := { s.current with expect := after } :: s.outer }

/-- An array or an object ends. -/
def close (s : JsonParser R) (v : Result (JsonVariant R)) : JsonRound R :=
  match s.outer with
  | [] => .assertFailed
  | below :: outer =>
    match v with
    | .error er => .failed er
    | .ok v =>
      { s with current := below, outer := outer }.add v s.current.lineBefore s.current.columnBefore
        (s.current.elements.length + 1)

/-- The end of `json_parse_internal`. -/
def done (s : JsonParser R) : JsonRound R :=
  match s.current.elements, s.outer with
  | [v], [] => .done v s.tokenizer.p
  | _, _ => .assertFailed

/-- What `json_parse_internal` does with a token that begins at this place. -/
def token (s : JsonParser R) (line column : Nat) : JsonToken R → JsonRound R
  | .end => if s.current.expect = .end then s.done else .failed EINVAL
  | .colon =>
    if s.current.expect = .objectColon then
      .next { s with current := { s.current with expect := .objectValue } }
    else .failed EINVAL
  | .comma =>
    match s.current.expect.afterComma with
    | none => .failed EINVAL
    | some expect => .next { s with current := { s.current with expect := expect } }
  | .objectOpen => s.begin .objectFirstKey line column
  | .arrayOpen => s.begin .arrayFirstElement line column
  | .objectClose =>
    if s.current.expect = .objectFirstKey ∨ s.current.expect = .objectComma then
      s.close (JsonVariant.newObject s.free s.current.elements)
    else .failed EINVAL
  | .arrayClose =>
    if s.current.expect = .arrayFirstElement ∨ s.current.expect = .arrayComma then
      s.close (JsonVariant.newArray s.free s.current.elements)
    else .failed EINVAL
  | .string t => s.addValue s.current.expect.afterString (JsonVariant.newString s.free t) line column
  | .number (.real d) => s.addValue s.current.expect.afterValue (.ok (JsonVariant.newReal s.free d)) line column
  | .number (.integer i) => s.addValue s.current.expect.afterValue (.ok (JsonVariant.newInteger s.free i)) line column
  | .number (.unsigned u) =>
    s.addValue s.current.expect.afterValue (.ok (JsonVariant.newUnsigned s.free u)) line column
  | .boolean b => s.addValue s.current.expect.afterValue (.ok (JsonVariant.newBoolean b)) line column
  | .null => s.addValue s.current.expect.afterValue (.ok JsonVariant.newNull) line column

/-- A round of the loop in `json_parse_internal`. -/
def round (continueEnd : Bool) (s : JsonParser R) : JsonRound R :=
  if continueEnd ∧ s.current.expect = .end then s.done
  else
    match jsonTokenize s.tokenizer with
    | .error er => .failed er
    | .ok (token, place, tokenizer) => { s with tokenizer := tokenizer }.token place.1 place.2 token

/-- So many rounds; `none` if it takes more. -/
def run (continueEnd : Bool) : Nat → JsonParser R → Option (JsonRound R)
  | 0, _ => none
  | n + 1, s =>
    match s.round continueEnd with
    | .next s => run continueEnd n s
    | r => some r

/-- What `json_parse_internal` starts with. -/
def start (input : Bytes) (free : Nat) : JsonParser R :=
  ⟨⟨input, .null, 0, 0⟩, ⟨.toplevel, [], 0, 0⟩, [], free⟩

end JsonParser

/-- `json_parse_internal`: the variant and the rest of the text.  Each token but the last one takes a
    character, so there is a result after one round more than there are characters. -/
def jsonParseInternal {R : Type} [Double R] (continueEnd : Bool) (free : Nat) (input : Bytes) : Option (JsonRound R) :=
  (JsonParser.start input free).run continueEnd (input.length + 1)

end Elogind
