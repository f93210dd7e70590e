/-
  Elogind.Varlink.Idl

  Varlink interface descriptions (sd-varlink-idl.h), and the parser of their texts (sd-varlink-idl.c).  A text is read
  without its terminating zero, and memory can always be had.  What the parser logs is left out.
-/

import Elogind.Basic.StringUtil
import Elogind.Basic.Utf8
import Elogind.Basic.Errno
import Elogind.Lib.Checked

namespace Elogind

open Byte Errno Lib

/-! ## Interfaces -/

/-- `sd_varlink_symbol_type_t` -/
inductive VarlinkSymbolType where
  | invalid
  | enumType
  | structType
  | method
  | error
  | interfaceComment
  | symbolComment
  deriving DecidableEq, Repr

/-- `sd_varlink_field_type_t`, without the mark of the end of an array. -/
inductive VarlinkFieldType where
  | invalid
  | struct
  | enum
  | namedType
  | bool
  | int
  | float
  | string
  | object
  | enumValue
  | comment
  deriving DecidableEq, Repr

/-- `sd_varlink_field_direction_t` -/
inductive VarlinkFieldDirection where
  | regular
  | input
  | output
  deriving DecidableEq, Repr

/-- `sd_varlink_field_flags_t` -/
structure VarlinkFieldFlags where
  array : Bool
  map : Bool
  nullable : Bool
  deriving DecidableEq, Repr

/-- `sd_varlink_symbol`, with fields in `F`. -/
structure VarlinkSymbolOf (F : Type) where
  name : Option Bytes
  symbolType : VarlinkSymbolType
  supportsMore : Bool
  requiresMore : Bool
  fields : List F

/-- A pointer to a symbol in a field: null, to an anonymous symbol that the field owns, or to the symbol of the
    interface with this number. -/
inductive VarlinkTarget (F : Type) where
  | null
  | anonymous (s : VarlinkSymbolOf F)
  | named (i : Nat)

/-- `sd_varlink_field` -/
structure VarlinkField where
  name : Bytes
  fieldType : VarlinkFieldType
  fieldFlags : VarlinkFieldFlags
  fieldDirection : VarlinkFieldDirection
  symbol : VarlinkTarget VarlinkField
  namedType : Option Bytes

/-- `sd_varlink_symbol` -/
abbrev VarlinkSymbol := VarlinkSymbolOf VarlinkField

/-- `sd_varlink_interface` -/
structure VarlinkInterface where
  name : Option Bytes
  symbols : List VarlinkSymbol

/-- A symbol as it is when it is allocated. -/
def VarlinkSymbolOf.new {F : Type} (name : Option Bytes) (symbolType : VarlinkSymbolType) : VarlinkSymbolOf F :=
  { name, symbolType, supportsMore := false, requiresMore := false, fields := [] }

/-- A field that is initialized with these members, and zeroes. -/
def VarlinkField.new (name : Bytes) (fieldType : VarlinkFieldType) (fieldDirection : VarlinkFieldDirection) :
    VarlinkField :=
  { name, fieldType, fieldFlags := ⟨false, false, false⟩, fieldDirection, symbol := .null, namedType := none }

/-- The position in the text: what is left of it, and `line` and `column`. -/
structure VarlinkIdlPosition where
  p : Bytes
  line : UInt32
  column : UInt32
  deriving DecidableEq, Repr

/-- A function that reads the text. -/
abbrev VarlinkIdl := Checked VarlinkIdlPosition Errno

namespace VarlinkIdl

/-- `DEPTH_MAX` -/
def depthMax : Nat := 64

/-- `VALID_CHARS_RESERVED` -/
def validCharsReserved : Bytes := ascii "abcdefghijklmnopqrstuvwxyz"

/-- `VALID_CHARS_IDENTIFIER` -/
def validCharsIdentifier : Bytes := ascii "abcdefghijklmnopqrstuvwxyzABCDEFGHIJKLMNOPQRSTUVWXYZ0123456789_"

/-- `VALID_CHARS_INTERFACE_NAME` -/
def validCharsInterfaceName : Bytes := ascii "abcdefghijklmnopqrstuvwxyzABCDEFGHIJKLMNOPQRSTUVWXYZ0123456789.-"

/-! ## Tokens -/

/-- `advance_line_column`, over the octets `s`. -/
def advanceLineColumn (s : Bytes) (c : VarlinkIdlPosition) : VarlinkIdlPosition :=
  s.foldl (fun c x =>
    if x = newline then { c with line := c.line + 1, column := 1 } else { c with column := c.column + 1 }) c

/-- `advance_line_column(*p, l, line, column); *p += l;` -/
def skip (l : Nat) : VarlinkIdl Unit :=
  .modify fun c => { advanceLineColumn (c.p.take l) c with p := c.p.drop l }

/-- `strspn` -/
def strspn (s accept : Bytes) : Nat := (s.takeWhile accept.contains).length

/-- `token_match`; a list without members stands for a null pointer. -/
def tokenMatch (p allowedDelimiters allowedChars : Bytes) : Nat :=
  if p.head?.any allowedDelimiters.contains then 1 else strspn p allowedChars

/-- `varlink_idl_subparse_whitespace` -/
def subparseWhitespace : VarlinkIdl Unit := do
  let c ← .get
  skip (c.p.takeWhile isWhitespace).length

/-- The end of `varlink_idl_subparse_token`, where a token of length `l` is found. -/
def takeToken (l : Nat) : VarlinkIdl (Option Bytes) := do
  let c ← .get
  skip l
  return some (c.p.take l)

/-- `varlink_idl_subparse_token` -/
def subparseToken (allowedDelimiters allowedChars : Bytes) : VarlinkIdl (Option Bytes) := do
  let c ← .get
  if c.p = [] then return none
  else if tokenMatch c.p allowedDelimiters allowedChars = 0 then do
    subparseWhitespace
    let c ← .get
    if c.p = [] then return none
    else if tokenMatch c.p allowedDelimiters allowedChars = 0 then .fail EBADMSG
    else takeToken (tokenMatch c.p allowedDelimiters allowedChars)
  else takeToken (tokenMatch c.p allowedDelimiters allowedChars)

/-- `varlink_idl_subparse_comment`.  The newline is counted, but it is read again. -/
def subparseComment : VarlinkIdl Bytes := do
  let c ← .get
  let comment := c.p.takeWhile fun x => !isNewline x
  if utf8IsValid comment then do
    .modify fun c => { advanceLineColumn ((c.p ++ [0]).take (comment.length + 1)) c with p := c.p.drop comment.length }
    return if comment.head? = some space then comment.tail else comment
  else .fail EBADMSG

/-! ## Types -/

/-- The mark `?` -/
def subparseNullable (field : VarlinkField) : VarlinkIdl VarlinkField := do
  let c ← .get
  if (startswith c.p (ascii "?")).isSome then do
    skip 1
    return { field with fieldFlags := { field.fieldFlags with nullable := true } }
  else return { field with fieldFlags := { field.fieldFlags with nullable := false } }

/-- The marks `[]` and `[string]` -/
def subparseContainer (field : VarlinkField) : VarlinkIdl VarlinkField := do
  let c ← .get
  if (startswith c.p (ascii "[]")).isSome then do
    skip 2
    return { field with fieldFlags := { field.fieldFlags with map := false, array := true } }
  else if (startswith c.p (ascii "[string]")).isSome then do
    skip 8
    return { field with fieldFlags := { field.fieldFlags with array := false, map := true } }
  else return { field with fieldFlags := { field.fieldFlags with map := false, array := false } }

/-- The types that have a name of their own, in the order in which they are looked for. -/
def elementalTypes : List (Bytes × VarlinkFieldType) :=
  [(ascii "bool", .bool), (ascii "int", .int), (ascii "float", .float), (ascii "string", .string),
    (ascii "object", .object)]

/-- The type behind the marks, where `anonymous` reads the symbol of an anonymous type. -/
def subparseTypeName (anonymous : VarlinkIdl VarlinkSymbol) (field : VarlinkField) : VarlinkIdl VarlinkField := do
  let c ← .get
  match elementalTypes.find? fun t => (startswith c.p t.1).isSome with
  | some t => do
    skip t.1.length
    return { field with fieldType := t.2 }
  | none =>
    if c.p.head? = some 40 then do
      let symbol ← anonymous
      if symbol.symbolType = .structType then return { field with fieldType := .struct, symbol := .anonymous symbol }
      else do
        .assert (symbol.symbolType = .enumType)
        return { field with fieldType := .enum, symbol := .anonymous symbol }
    else do
      let token ← subparseToken [] validCharsIdentifier
      match token with
      | none => .fail EBADMSG
      | some token => return { field with namedType := some token, fieldType := .namedType }

/-- `varlink_idl_subparse_field_type` -/
def subparseFieldType (anonymous : VarlinkIdl VarlinkSymbol) (field : VarlinkField) : VarlinkIdl VarlinkField := do
  subparseWhitespace
  let field ← subparseNullable field
  let field ← subparseContainer field
  subparseTypeName anonymous field

/-! ## Fields -/

/-- The states of `varlink_idl_subparse_struct_or_enum`. -/
inductive FieldsState where
  | opening
  | name
  | colon
  | comma
  | done
  deriving DecidableEq, Repr

/-- The variables of `varlink_idl_subparse_struct_or_enum`. -/
structure FieldsParser where
  state : FieldsState
  fieldName : Option Bytes
  allowedDelimiters : Bytes
  allowedChars : Bytes
  symbol : VarlinkSymbol

/-- The variables at first. -/
def FieldsParser.start (symbol : VarlinkSymbol) : FieldsParser :=
  { state := .opening, fieldName := none, allowedDelimiters := ascii "(", allowedChars := [], symbol }

/-- One more field at the end. -/
def FieldsParser.addField (v : FieldsParser) (field : VarlinkField) : FieldsParser :=
  { v with symbol := { v.symbol with fields := v.symbol.fields ++ [field] } }

/-- The next name is to be read, as it is after a comma. -/
def FieldsParser.expectName (v : FieldsParser) : FieldsParser :=
  { v with state := .name, allowedDelimiters := ascii "#", allowedChars := validCharsIdentifier }

/-- `STATE_NAME` -/
def nameStep (v : FieldsParser) (token : Option Bytes) : VarlinkIdl FieldsParser := do
  .assert (v.fieldName = none)
  match token with
  | none => .fail EBADMSG
  | some token =>
    if token = ascii "#" then do
      let comment ← subparseComment
      return v.addField (.new comment .comment .regular)
    else if token = ascii ")" then return { v with state := .done }
    else return { v with fieldName := some token, state := .colon, allowedDelimiters := ascii ":,)", allowedChars := [] }

/-- `STATE_COLON`, where a field with a type is declared. -/
def structFieldStep (anonymous : VarlinkIdl VarlinkSymbol) (direction : VarlinkFieldDirection) (v : FieldsParser)
    (fieldName : Bytes) : VarlinkIdl FieldsParser :=
  let symbolType := if v.symbol.symbolType = .invalid then .structType else v.symbol.symbolType
  if symbolType = .enumType then .fail EBADMSG
  else do
    let field ← subparseFieldType anonymous (.new fieldName .invalid direction)
    return { FieldsParser.addField { v with symbol := { v.symbol with symbolType } } field with
      fieldName := none, state := .comma, allowedDelimiters := ascii ",)", allowedChars := [] }

/-- `STATE_COLON`, where the value of an enumeration is declared. -/
def enumValueStep (v : FieldsParser) (fieldName token : Bytes) : VarlinkIdl FieldsParser :=
  let symbolType := if v.symbol.symbolType = .invalid then .enumType else v.symbol.symbolType
  if symbolType ≠ .enumType then .fail EBADMSG
  else
    let v := { FieldsParser.addField { v with symbol := { v.symbol with symbolType } }
      (.new fieldName .enumValue .regular) with fieldName := none }
    if token = ascii "," then return v.expectName
    else do
      .assert (token = ascii ")")
      return { v with state := .done }

/-- `STATE_COLON` -/
def colonStep (anonymous : VarlinkIdl VarlinkSymbol) (direction : VarlinkFieldDirection) (v : FieldsParser)
    (token : Option Bytes) : VarlinkIdl FieldsParser :=
  match v.fieldName with
  | none => .stuck
  | some fieldName =>
    match token with
    | none => .fail EBADMSG
    | some token =>
      if token = ascii ":" then structFieldStep anonymous direction v fieldName
      else if token = ascii "," ∨ token = ascii ")" then enumValueStep v fieldName token
      else .fail EBADMSG

/-- `STATE_COMMA` -/
def commaStep (v : FieldsParser) (token : Option Bytes) : VarlinkIdl FieldsParser := do
  .assert (v.fieldName = none)
  match token with
  | none => .fail EBADMSG
  | some token =>
    if token = ascii "," then return v.expectName
    else if token = ascii ")" then return { v with state := .done }
    else .fail EBADMSG

/-- What is done with a token in `varlink_idl_subparse_struct_or_enum`. -/
def fieldsStep (anonymous : VarlinkIdl VarlinkSymbol) (direction : VarlinkFieldDirection) (v : FieldsParser)
    (token : Option Bytes) : VarlinkIdl FieldsParser :=
  match v.state with
  | .opening =>
    if token = some (ascii "(") then
      return { v with state := .name, allowedDelimiters := ascii ")#", allowedChars := validCharsIdentifier }
    else .fail EBADMSG
  | .name => nameStep v token
  | .colon => colonStep anonymous direction v token
  | .comma => commaStep v token
  | .done => .stuck

/-- The loop of `varlink_idl_subparse_struct_or_enum`, with a bound for the number of its rounds and those of the loops
    in it. -/
def fieldsLoop : Nat → VarlinkFieldDirection → Nat → FieldsParser → VarlinkIdl VarlinkSymbol
  | 0, _, _, _ => .stuck
  | fuel + 1, direction, depth, v =>
    if v.state = .done then
      if v.symbol.symbolType = .invalid then .fail EBADMSG else return v.symbol
    else do
      let token ← subparseToken v.allowedDelimiters v.allowedChars
      let v ← fieldsStep
        (if depthMax < depth + 1 then .fail EBADMSG
          else fieldsLoop fuel .regular (depth + 1) (.start (.new none .invalid))) direction v token
      fieldsLoop fuel direction depth v

/-- `varlink_idl_subparse_struct_or_enum` -/
def subparseStructOrEnum (fuel : Nat) (symbol : VarlinkSymbol) (direction : VarlinkFieldDirection) (depth : Nat) :
    VarlinkIdl VarlinkSymbol :=
  if depthMax < depth then .fail EBADMSG else fieldsLoop fuel direction depth (.start symbol)

/-! ## Interfaces -/

/-- The states of `varlink_idl_parse`, as far as they are used. -/
inductive ParseState where
  | preInterface
  | interface
  | preSymbol
  | method
  | methodArrow
  | type
  | error
  | done
  deriving DecidableEq, Repr

/-- The variables of `varlink_idl_parse`. -/
structure Parser where
  state : ParseState
  allowedDelimiters : Bytes
  allowedChars : Bytes
  interface : Option VarlinkInterface
  symbol : Option VarlinkSymbol

/-- The variables at first. -/
def Parser.start : Parser :=
  { state := .preInterface, allowedDelimiters := ascii "#", allowedChars := validCharsReserved, interface := none,
    symbol := none }

/-- The interface, after `varlink_interface_realloc`. -/
def Parser.realloc (v : Parser) : VarlinkInterface := v.interface.getD ⟨none, []⟩

/-- One more symbol in the interface, which is taken from the variable `symbol`. -/
def Parser.addSymbol (v : Parser) (symbol : VarlinkSymbol) : Parser :=
  { v with interface := some { v.realloc with symbols := v.realloc.symbols ++ [symbol] }, symbol := none }

/-- A whole symbol has been read. -/
def Parser.nextSymbol (v : Parser) (symbol : VarlinkSymbol) : Parser :=
  { v.addSymbol symbol with state := .preSymbol, allowedChars := validCharsReserved ++ ascii "#" }

/-- `STATE_PRE_INTERFACE` -/
def preInterfaceStep (v : Parser) (token : Option Bytes) : VarlinkIdl Parser :=
  match token with
  | none => .fail EBADMSG
  | some token =>
    if token = ascii "#" then do
      let comment ← subparseComment
      return v.addSymbol (.new (some comment) .interfaceComment)
    else if token = ascii "interface" then
      return { v with state := .interface, allowedDelimiters := [], allowedChars := validCharsInterfaceName }
    else .fail EBADMSG

/-- `STATE_INTERFACE` -/
def interfaceStep (v : Parser) (token : Option Bytes) : VarlinkIdl Parser :=
  match token with
  | none => .fail EBADMSG
  | some token => do
    .assert (v.realloc.name = none)
    return { v with
      interface := some { v.realloc with name := some token }, state := .preSymbol,
      allowedDelimiters := ascii "#", allowedChars := validCharsReserved }

/-- `STATE_PRE_SYMBOL` -/
def preSymbolStep (v : Parser) (token : Option Bytes) : VarlinkIdl Parser :=
  match token with
  | none => return { v with state := .done }
  | some token =>
    if token = ascii "#" then do
      let comment ← subparseComment
      .assert v.symbol.isNone
      return v.addSymbol (.new (some comment) .symbolComment)
    else if token = ascii "method" then return { v with state := .method, allowedChars := validCharsIdentifier }
    else if token = ascii "type" then return { v with state := .type, allowedChars := validCharsIdentifier }
    else if token = ascii "error" then return { v with state := .error, allowedChars := validCharsIdentifier }
    else .fail EBADMSG

/-- `STATE_METHOD` -/
def methodStep (fuel : Nat) (v : Parser) (token : Option Bytes) : VarlinkIdl Parser := do
  .assert v.symbol.isNone
  match token with
  | none => .fail EBADMSG
  | some token => do
    let symbol ← subparseStructOrEnum fuel (.new (some token) .method) .input 0
    return { v with symbol := some symbol, state := .methodArrow, allowedChars := ascii "->" }

/-- `STATE_METHOD_ARROW` -/
def methodArrowStep (fuel : Nat) (v : Parser) (token : Option Bytes) : VarlinkIdl Parser :=
  match v.symbol with
  | none => .stuck
  | some symbol =>
    if token = some (ascii "->") then do
      let symbol ← subparseStructOrEnum fuel symbol .output 0
      return v.nextSymbol symbol
    else .fail EBADMSG

/-- `STATE_TYPE` and `STATE_ERROR` -/
def declarationStep (fuel : Nat) (symbolType : VarlinkSymbolType) (v : Parser) (token : Option Bytes) :
    VarlinkIdl Parser := do
  .assert v.symbol.isNone
  match token with
  | none => .fail EBADMSG
  | some token => do
    let symbol ← subparseStructOrEnum fuel (.new (some token) symbolType) .regular 0
    return v.nextSymbol symbol

/-- What is done with a token in `varlink_idl_parse`. -/
def parseStep (fuel : Nat) (v : Parser) (token : Option Bytes) : VarlinkIdl Parser :=
  match v.state with
  | .preInterface => preInterfaceStep v token
  | .interface => interfaceStep v token
  | .preSymbol => preSymbolStep v token
  | .method => methodStep fuel v token
  | .methodArrow => methodArrowStep fuel v token
  | .type => declarationStep fuel .invalid v token
  | .error => declarationStep fuel .error v token
  | .done => .stuck

/-- The loop of `varlink_idl_parse`. -/
def parseLoop : Nat → Parser → VarlinkIdl (Option VarlinkInterface)
  | 0, _ => .stuck
  | fuel + 1, v =>
    if v.state = .done then return v.interface
    else do
      let token ← subparseToken v.allowedDelimiters v.allowedChars
      let v ← parseStep fuel v token
      parseLoop fuel v

/-! ## Named types -/

/-- `varlink_idl_find_symbol`: the number of the symbol. -/
def findSymbol {σ : Type} (interface : VarlinkInterface) (type : VarlinkSymbolType) (name : Bytes) :
    Checked σ Errno (Option Nat) := do
  .assert (type ≠ .symbolComment ∧ type ≠ .interfaceComment)
  return if name = [] then none
    else interface.symbols.findIdx? fun s => (type = .invalid ∨ s.symbolType = type) ∧ s.name = some name

/-- A round of the loop of `varlink_idl_resolve_symbol_types`. -/
def resolveField (interface : VarlinkInterface) (field : VarlinkField) : VarlinkIdl VarlinkField :=
  if field.fieldType ≠ .namedType then return field
  else
    match field.symbol with
    | .null =>
      match field.namedType with
      | none => .fail ENETUNREACH
      | some namedType => do
        let found ← findSymbol interface .invalid namedType
        match found with
        | none => .fail ENETUNREACH
        | some i =>
          if interface.symbols[i]?.any fun s => s.symbolType = .structType ∨ s.symbolType = .enumType then
            return { field with symbol := .named i }
          else .fail ENETUNREACH
    | _ => return field

/-- The loop of `varlink_idl_resolve_symbol_types`. -/
def resolveFields (interface : VarlinkInterface) : List VarlinkField → VarlinkIdl (List VarlinkField)
  | [] => return []
  | field :: fields => do
    let field ← resolveField interface field
    let fields ← resolveFields interface fields
    return field :: fields

/-- `varlink_idl_resolve_symbol_types` -/
def resolveSymbolTypes (interface : VarlinkInterface) (symbol : VarlinkSymbol) : VarlinkIdl VarlinkSymbol := do
  let fields ← resolveFields interface symbol.fields
  return { symbol with fields }

/-- The loop of `varlink_idl_resolve_types`.  The names and the types of the symbols do not change in it. -/
def resolveSymbols (interface : VarlinkInterface) : List VarlinkSymbol → VarlinkIdl (List VarlinkSymbol)
  | [] => return []
  | symbol :: symbols => do
    let symbol ← resolveSymbolTypes interface symbol
    let symbols ← resolveSymbols interface symbols
    return symbol :: symbols

/-- `varlink_idl_resolve_types` -/
def resolveTypes (interface : Option VarlinkInterface) : VarlinkIdl VarlinkInterface :=
  match interface with
  | none => .stuck
  | some interface => do
    let symbols ← resolveSymbols interface interface.symbols
    return { interface with symbols }

/-- What `varlink_idl_parse` has read of a text when it comes to the named types. -/
def declarations (text : Bytes) : VarlinkIdl (Option VarlinkInterface) := parseLoop (text.length + 2) .start

/-- `varlink_idl_parse`: the interface or an error, and the line and the column at which it ends, or no result if an
    assertion fails. -/
def parse (text : Bytes) (line column : UInt32) : Option (Result VarlinkInterface × UInt32 × UInt32) :=
  ((declarations text >>= resolveTypes) ⟨text, line, column⟩).map fun x => (x.1, x.2.line, x.2.column)

end VarlinkIdl

end Elogind
