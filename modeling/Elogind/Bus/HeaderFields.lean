/-
  Elogind.Bus.HeaderFields

  The header fields of a message that came in (bus-message.c): every field is a code and a variant,
  and fields with an unknown code are skipped by a walk of their own.
-/

import Elogind.Bus.MessageRead

namespace Elogind

open BusType Lib

/-! ## Values in the header -/

section Peek

variable (endian : Endian) (fields : Bytes)

/-- `message_peek_fields`: the position after the bytes, and the bytes. -/
def messagePeekFields (rindex align nbytes : Nat) : Result (Nat × Bytes) :=
  let start := alignTo rindex align
  let stop := start + nbytes
  if start > fields.length then .error Errno.EBADMSG
  else if stop > fields.length then .error Errno.EBADMSG
  -- verify that the padding is 0
  else if ((fields.drop rindex).take (start - rindex)).any (· ≠ 0) then .error Errno.EBADMSG
  else .ok (stop, (fields.drop start).take nbytes)

/-- `message_peek_field_uint32` -/
def messagePeekFieldUint32 (ri : Nat) : Result (Nat × Nat) :=
  match messagePeekFields fields ri 4 4 with
  | .error e => .error e
  | .ok (ri, q) => .ok (ri, endian.value q)

/-- A text of `l` bytes and the zero after it. -/
def messagePeekFieldText (validate : Bytes → Bool) (ri l : Nat) : Result (Nat × Bytes) :=
  match messagePeekFields fields ri 1 (l + 1) with
  | .error e => .error e
  | .ok (ri, q) => if !BusMessage.validateText validate q l then .error Errno.EBADMSG else .ok (ri, q.take l)

/-- `message_peek_field_string`; the validation without a function is that of a string. -/
def messagePeekFieldString (validate : Bytes → Bool) (ri : Nat) : Result (Nat × Bytes) :=
  match messagePeekFieldUint32 endian fields ri with
  | .error e => .error e
  | .ok (ri, l) =>
    if l = uint32Max then .error Errno.EBADMSG else messagePeekFieldText fields validate ri l

/-- `message_peek_field_signature` -/
def messagePeekFieldSignature (ri : Nat) : Result (Nat × Bytes) :=
  match messagePeekFields fields ri 1 1 with
  | .error e => .error e
  | .ok (ri, q) =>
    let l := endian.value q
    if l = 255 then .error Errno.EBADMSG else messagePeekFieldText fields (signatureIsValid · true) ri l

/-- The basic value that stands in the header is skipped. -/
def skipBasic (t : UInt8) (ri : Nat) : Result Nat :=
  if t = string then (messagePeekFieldString endian fields utf8IsValid ri).map Prod.fst
  else if t = objectPath then (messagePeekFieldString endian fields objectPathIsValid ri).map Prod.fst
  else if t = signature then (messagePeekFieldSignature endian fields ri).map Prod.fst
  else (messagePeekFields fields ri ((getAlignment t).getD 1) ((getSize t).getD 1)).map Prod.fst

/-- The size of an array in the header and the space up to its first element. -/
def skipArraySize (element : UInt8) (ri : Nat) : Result (Nat × Nat) :=
  match getAlignment element with
  | none => .error Errno.EINVAL
  | some alignment =>
    match messagePeekFieldUint32 endian fields ri with
    | .error e => .error e
    | .ok (ri, nas) =>
      if nas > busArrayMaxSize then .error Errno.EBADMSG
      else
        match messagePeekFields fields ri alignment 0 with
        | .error e => .error e
        | .ok (ri, _) => .ok (ri, nas)

/-- `message_skip_fields`.  `stop` is where an array ends; other values have none.  The type of a
    structure is that of containers, `r`, which does not occur in a signature. -/
def skipFields : Nat → Option Nat → Nat → Bytes → Result Nat
  | 0, _, _, _ => .error Errno.EBADMSG
  | fuel + 1, stop, ri, s =>
    if stop.any (· ≤ ri) then .ok ri
    else
      let t := s.headD 0
      if t = 0 then .ok ri
      else if isBasic t then
        match skipBasic endian fields t ri with
        | .error e => .error e
        | .ok ri => skipFields fuel stop ri s.tail
      else if t = array then
        match signatureElementLength s.tail with
        | .error e => .error e
        | .ok l =>
          let sig := s.tail.take l
          match skipArraySize endian fields (sig.headD 0) ri with
          | .error e => .error e
          | .ok (ri, nas) =>
            match skipFields fuel (some (ri + nas)) ri sig with
            | .error e => .error e
            | .ok ri => skipFields fuel stop ri (s.drop (1 + l))
      else if t = variant then
        match messagePeekFieldSignature endian fields ri with
        | .error e => .error e
        | .ok (ri, sig) =>
          match skipFields fuel none ri sig with
          | .error e => .error e
          | .ok ri => skipFields fuel stop ri s.tail
      else if t = struct ∨ t = dictEntry then
        match signatureElementLength s with
        | .error e => .error e
        | .ok l =>
          match skipFields fuel none ri (s.tail.take l) with
          | .error e => .error e
          | .ok ri => skipFields fuel stop ri (s.drop l)
      else .error Errno.EBADMSG

/-- Every call of `message_skip_fields` and every round of its loop uses up a byte of a signature,
    and every signature but the first one bytes of the header. -/
def messageSkipFields (ri : Nat) (s : Bytes) : Result Nat :=
  skipFields endian fields (256 * (fields.length + 1)) none ri s

end Peek

/-! ## The fields -/

/-- A message while its fields are parsed. -/
structure FieldsState where
  m : BusMessage
  /-- The signature of the body was set; it may be empty. -/
  signatureSet : Bool
  /-- The number of descriptors that the header announces. -/
  unixFds : Option Nat
  deriving DecidableEq, Repr

/-- The fields that hold a text. -/
inductive TextField where
  | path
  | interface
  | member
  | errorName
  | destination
  | sender
  deriving DecidableEq, Repr

namespace TextField

def code : TextField → UInt8
  | path => HeaderField.path
  | interface => HeaderField.interface
  | member => HeaderField.member
  | errorName => HeaderField.errorName
  | destination => HeaderField.destination
  | sender => HeaderField.sender

/-- The only type that the variant may hold. -/
def type : TextField → UInt8
  | path => objectPath
  | _ => string

def validate : TextField → Bytes → Bool
  | path => objectPathIsValid
  | interface => interfaceNameIsValid
  | member => memberNameIsValid
  | errorName => errorNameIsValid
  | destination => serviceNameIsValid
  | sender => serviceNameIsValid

def get (m : BusMessage) : TextField → Option Bytes
  | path => m.path
  | interface => m.interface
  | member => m.member
  | errorName => m.errorName
  | destination => m.destination
  | sender => m.sender

def set (m : BusMessage) (t : Bytes) : TextField → BusMessage
  | path => { m with path := some t }
  | interface => { m with interface := some t }
  | member => { m with member := some t }
  | errorName => { m with errorName := some t }
  | destination => { m with destination := some t }
  | sender => { m with sender := some t }

def ofCode (c : UInt8) : Option TextField :=
  [path, interface, member, errorName, destination, sender].find? fun t => t.code == c

end TextField

namespace FieldsState

/-- A field that holds a text and may stand in the header once. -/
def parseText (st : FieldsState) (fields : Bytes) (f : TextField) (ri : Nat) (s : Bytes) :
    Result (Nat × FieldsState) :=
  if (f.get st.m).isSome then .error Errno.EBADMSG
  else if s ≠ [f.type] then .error Errno.EBADMSG
  else
    match messagePeekFieldString st.m.endian fields f.validate ri with
    | .error e => .error e
    | .ok (ri, text) => .ok (ri, { st with m := f.set st.m text })

/-- The fields that hold something else, and those that are not known. -/
def parseOther (st : FieldsState) (fields : Bytes) (code : UInt8) (ri : Nat) (s : Bytes) :
    Result (Nat × FieldsState) :=
  let m := st.m
  if code = HeaderField.signature then
    if st.signatureSet then .error Errno.EBADMSG
    else if s ≠ [signature] then .error Errno.EBADMSG
    else
      match messagePeekFieldSignature m.endian fields ri with
      | .error e => .error e
      | .ok (ri, t) =>
        .ok (ri, { st with
          m := { m with rootContainer := { m.rootContainer with signature := t } }, signatureSet := true })
  else if code = HeaderField.replySerial then
    if m.replyCookie ≠ 0 then .error Errno.EBADMSG
    else if s ≠ [uint32] then .error Errno.EBADMSG
    else
      match messagePeekFieldUint32 m.endian fields ri with
      | .error e => .error e
      | .ok (ri, serial) =>
        if serial = 0 then .error Errno.EBADMSG
        else .ok (ri, { st with m := { m with replyCookie := serial } })
  else if code = HeaderField.unixFds then
    if st.unixFds.isSome then .error Errno.EBADMSG
    else if s ≠ [uint32] then .error Errno.EBADMSG
    else
      match messagePeekFieldUint32 m.endian fields ri with
      | .error _ => .error Errno.EBADMSG
      | .ok (ri, n) => .ok (ri, { st with unixFds := some n })
  else
    match messageSkipFields m.endian fields ri s with
    | .error e => .error e
    | .ok ri => .ok (ri, st)

/-- A field after its code and its signature were read. -/
def parseField (st : FieldsState) (fields : Bytes) (code : UInt8) (ri : Nat) (s : Bytes) :
    Result (Nat × FieldsState) :=
  if code = 0 then .error Errno.EBADMSG
  else
    match TextField.ofCode code with
    | some f => st.parseText fields f ri s
    | none => st.parseOther fields code ri s

/-- One round of the loop in `message_parse_fields`. -/
def parseRound (st : FieldsState) (fields : Bytes) (ri : Nat) : Result (Nat × FieldsState) :=
  match messagePeekFields fields ri 8 1 with
  | .error e => .error e
  | .ok (ri, u8) =>
    match messagePeekFieldSignature st.m.endian fields ri with
    | .error e => .error e
    | .ok (ri, s) => st.parseField fields (u8.headD 0) ri s

/-- The loop of `message_parse_fields`.  Every round gets further in the header. -/
def parseLoop (fields : Bytes) : Nat → FieldsState → Nat → Result FieldsState
  | 0, _, _ => .error Errno.EBADMSG
  | fuel + 1, st, ri =>
    if fields.length ≤ ri then .ok st
    else
      match st.parseRound fields ri with
      | .error e => .error e
      | .ok (ri, st) => parseLoop fields fuel st ri

end FieldsState

namespace BusMessage

/-- The object path and the interface that stand for the local connection. -/
def localPath : Bytes := ascii "/org/freedesktop/DBus/Local"
def localInterface : Bytes := ascii "org.freedesktop.DBus.Local"

/-- The fields that a message of its type must have, and must not have. -/
def fieldsComplete (m : BusMessage) : Bool :=
  if m.type = MessageType.signal then
    m.path.isSome && m.interface.isSome && m.member.isSome && m.replyCookie == 0
  else if m.type = MessageType.methodCall then m.path.isSome && m.member.isSome && m.replyCookie == 0
  else if m.type = MessageType.methodReturn then m.replyCookie != 0
  else if m.type = MessageType.methodError then m.replyCookie != 0 && m.errorName.isSome
  else true

/-- A message that claims to be local. -/
def claimsLocal (m : BusMessage) : Bool :=
  m.path == some localPath || m.interface == some localInterface || m.sender == some localInterface

/-- The error message is the first value of an error, if that is a string. -/
def readErrorMessage (m : BusMessage) : BusMessage :=
  if m.type = MessageType.methodError then
    match m.readBasic string with
    | (m, .ok (some (.text _ s))) => { m with errorMessage := some s }
    | (m, _) => m
  else m

/-- What is checked after the fields were read. -/
def finishFields (st : FieldsState) : Result BusMessage :=
  if st.m.fds.length ≠ st.unixFds.getD 0 then .error Errno.EBADMSG
  else if !st.m.fieldsComplete then .error Errno.EBADMSG
  -- refuse messages that come from elsewhere and claim they are local
  else if st.m.claimsLocal then .error Errno.EBADMSG
  else .ok st.m.readErrorMessage

/-- The state before the first field. -/
def fieldsStart (m : BusMessage) : FieldsState := ⟨{ m with userBodySize := m.bodySize }, false, none⟩

/-- `message_parse_fields` -/
def parseFields (m : BusMessage) : Result BusMessage :=
  match FieldsState.parseLoop m.fields (m.fields.length + 1) m.fieldsStart 0 with
  | .error e => .error e
  | .ok st => finishFields st

/-- `message_from_header`, for a buffer that has a whole header. -/
def fromHeader (buffer : Bytes) (fds : List Int) : Result BusMessage :=
  let code := buffer.getD 0 0
  let endian : Endian := if code = Endian.big.code then .big else .little
  let fieldsSize := endian.value ((buffer.drop 12).take 4)
  let bodySize := endian.value ((buffer.drop 4).take 4)
  let serial := endian.value ((buffer.drop 8).take 4)
  if buffer.length < 16 then .error Errno.EBADMSG
  else if buffer.getD 3 0 ≠ 1 ∧ buffer.getD 3 0 ≠ 2 then .error Errno.EBADMSG
  else if buffer.getD 1 0 = 0 then .error Errno.EBADMSG
  else if code ≠ Endian.little.code ∧ code ≠ Endian.big.code then .error Errno.EBADMSG
  else if serial = 0 then .error Errno.EBADMSG
  else if alignTo fieldsSize 8 > buffer.length - 16 ∨
      bodySize ≠ buffer.length - 16 - alignTo fieldsSize 8 then .error Errno.EBADMSG
  else .ok {
    endian := endian
    type := buffer.getD 1 0
    flags := buffer.getD 2 0
    version := buffer.getD 3 0
    serial := serial
    fields := (buffer.drop 16).take fieldsSize
    path := none
    interface := none
    member := none
    destination := none
    sender := none
    errorName := none
    errorMessage := none
    replyCookie := 0
    bodySize := bodySize
    userBodySize := 0
    parts := []
    rindex := 0
    fds := fds
    rootContainer := ⟨0, [], 0, none, 0⟩
    containers := []
    enforcedReplySignature := none
    timeout := 0
    allowFds := false
    sealed := true
    poisoned := false }

/-- `bus_message_from_malloc` -/
def fromMalloc (buffer : Bytes) (fds : List Int) : Result BusMessage :=
  match fromHeader buffer fds with
  | .error e => .error e
  | .ok m =>
    let sz := buffer.length - 16 - alignTo m.fields.length 8
    let parts : List BodyPart :=
      if sz > 0 then [⟨buffer.drop (16 + alignTo m.fields.length 8), none, true, false⟩] else []
    parseFields { m with parts }

end BusMessage

end Elogind
