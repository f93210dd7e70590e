/-
  Elogind.Bus.MessageRead

  Reading the values of a sealed message (bus-message.c).  The part that was found last is
  remembered in the source; that only saves time and is left out.
-/

import Elogind.Bus.Message
import Elogind.Bus.Wire

namespace Elogind

open BusType Lib

/-- `BUS_ARRAY_MAX_SIZE` -/
def busArrayMaxSize : Nat := 67108864

/-- `BUS_CONTAINER_DEPTH` -/
def busContainerDepth : Nat := 128

namespace BusMessage

/-! ## Bytes of the body -/

/-- The loop of `find_part`; `n` is the number of the first of the parts and `start` is where it
    starts. -/
def findPartFrom (index sz : Nat) : Nat → Nat → List BodyPart → Option (Nat × Nat)
  | _, _, [] => none
  | n, start, part :: parts =>
    if index < start then none
    else if index + sz ≤ start + part.size then some (n, index - start)
    else findPartFrom index sz (n + 1) (start + part.size) parts

/-- `find_part`.  The first part is there even when the body has no bytes. -/
def findPart (m : BusMessage) (index sz : Nat) : Option (Nat × Nat) :=
  findPartFrom index sz 0 0 (if m.parts = [] then [.inline []] else m.parts)

/-- The memory at an address in the body. -/
def bytesAt (m : BusMessage) (q : Nat × Nat) (n : Nat) : Bytes :=
  (((m.parts.map BodyPart.data).getD q.1 []).drop q.2).take n

/-- `message_peek_body`: the position after the bytes, and their address. -/
def peekBody (m : BusMessage) (rindex align nbytes : Nat) : Result (Nat × (Nat × Nat)) :=
  let start := alignTo rindex align
  let stop := start + nbytes
  if start > m.userBodySize then .error Errno.EBADMSG
  else if stop > m.userBodySize then .error Errno.EBADMSG
  else
    match m.findPart rindex (start - rindex) with
    | none => .error Errno.EBADMSG
    | some q =>
      -- verify the padding
      if (m.bytesAt q (start - rindex)).any (· ≠ 0) then .error Errno.EBADMSG
      else
        match m.findPart start nbytes with
        | none => .error Errno.EBADMSG
        | some q => .ok (stop, q)

/-- `validate_nul` -/
def validateNul (s : Bytes) (l : Nat) : Bool := !(s.take l).contains 0 && s.getD l 1 == 0

/-- `validate_string`, `validate_object_path` and `validate_signature`; `validate` is the test of the
    C string. -/
def validateText (validate : Bytes → Bool) (s : Bytes) (l : Nat) : Bool :=
  validateNul s l && validate (s.take l)

/-- A text of `l` bytes and the zero after it. -/
def peekText (m : BusMessage) (rindex l : Nat) (validate : Bytes → Bool) : Result (Nat × Bytes) :=
  match m.peekBody rindex 1 (l + 1) with
  | .error e => .error e
  | .ok (rindex, q) =>
    let s := m.bytesAt q (l + 1)
    if !validateText validate s l then .error Errno.EBADMSG else .ok (rindex, s.take l)

/-- A text whose length has four bytes. -/
def peekString (m : BusMessage) (rindex : Nat) (validate : Bytes → Bool) : Result (Nat × Bytes) :=
  match m.peekBody rindex 4 4 with
  | .error e => .error e
  | .ok (rindex, q) =>
    let l := m.endian.value (m.bytesAt q 4)
    if l = uint32Max then .error Errno.EBADMSG else m.peekText rindex l validate

/-- A signature, whose length has one byte. -/
def peekSignature (m : BusMessage) (rindex : Nat) : Result (Nat × Bytes) :=
  match m.peekBody rindex 1 1 with
  | .error e => .error e
  | .ok (rindex, q) =>
    let l := m.endian.value (m.bytesAt q 1)
    if l = 255 then .error Errno.EBADMSG else m.peekText rindex l (signatureIsValid · true)

/-! ## Basic values -/

/-- `*c->array_size` -/
def arraySizeOf (m : BusMessage) (c : Container) : Nat :=
  m.endian.value (m.bytesAt (c.arraySize.getD (0, 0)) 4)

/-- `message_end_of_signature` -/
def endOfSignature (m : BusMessage) : Bool := m.lastContainer.next == 0

/-- `message_end_of_array` -/
def endOfArray (m : BusMessage) : Bool :=
  let c := m.lastContainer
  c.enclosing == array && c.begin + m.arraySizeOf c ≤ m.rindex

/-- What `sd_bus_message_read_basic` stores for a number of the given type. -/
def numberRead (m : BusMessage) (type : UInt8) (n : Nat) : Result Basic :=
  if type = boolean then .ok (.num type (if n = 0 then 0 else 1))
  else if type = unixFd then
    match m.fds[n]? with
    | none => .error Errno.EBADMSG
    | some fd => .ok (.num type (fd % 2 ^ 32).toNat)
  else .ok (.num type n)

/-- The value that stands at the position, and the position after it. -/
def basicRead (m : BusMessage) (type : UInt8) : Result (Nat × Basic) :=
  if type = string ∨ type = objectPath then
    match m.peekString m.rindex (if type = objectPath then objectPathIsValid else utf8IsValid) with
    | .error e => .error e
    | .ok (rindex, s) => .ok (rindex, .text type s)
  else if type = signature then
    match m.peekSignature m.rindex with
    | .error e => .error e
    | .ok (rindex, s) => .ok (rindex, .text type s)
  else
    let sz := (getSize type).getD 1
    match m.peekBody m.rindex ((getAlignment type).getD 1) sz with
    | .error e => .error e
    | .ok (rindex, q) =>
      match m.numberRead type (m.endian.value (m.bytesAt q sz)) with
      | .error e => .error e
      | .ok b => .ok (rindex, b)

/-- `sd_bus_message_read_basic`; nothing is returned at the end of an array. -/
def readBasic (m : BusMessage) (type : UInt8) : BusMessage × Result (Option Basic) :=
  if !m.sealed then (m, .error Errno.EPERM)
  else if !isBasic type then (m, .error Errno.EINVAL)
  else if m.endOfSignature then (m, .error Errno.ENXIO)
  else if m.endOfArray then (m, .ok none)
  else if m.lastContainer.next ≠ type then (m, .error Errno.ENXIO)
  else
    match m.basicRead type with
    | .error e => (m, .error e)
    | .ok (rindex, b) => ({ m with rindex }.advance 1, .ok (some b))

/-! ## Containers -/

/-- `bus_message_enter_array`; the address is that of the size. -/
def enterArray (m : BusMessage) (contents : Bytes) : Result (BusMessage × (Nat × Nat)) :=
  let c := m.lastContainer
  if !signatureIsSingle contents true then .error Errno.EINVAL
  else if c.next = 0 then .error Errno.ENXIO
  else if c.next ≠ array then .error Errno.ENXIO
  else if ¬ (contents <+: c.signature.drop (c.index + 1)) then .error Errno.ENXIO
  else
    match m.peekBody m.rindex 4 4 with
    | .error e => .error e
    | .ok (rindex, q) =>
      if m.endian.value (m.bytesAt q 4) > busArrayMaxSize then .error Errno.EBADMSG
      else
        match getAlignment (contents.headD 0) with
        | none => .error Errno.EINVAL
        | some alignment =>
          match m.peekBody rindex alignment 0 with
          | .error e => .error e
          | .ok (rindex, _) => .ok ({ m with rindex }.advance (1 + contents.length), q)

/-- `bus_message_enter_variant` -/
def enterVariant (m : BusMessage) (contents : Bytes) : Result BusMessage :=
  let c := m.lastContainer
  if !signatureIsSingle contents false then .error Errno.EINVAL
  else if contents.headD 0 = dictEntryBegin then .error Errno.EINVAL
  else if c.next = 0 then .error Errno.ENXIO
  else if c.next ≠ variant then .error Errno.ENXIO
  else
    match m.peekSignature m.rindex with
    | .error e => .error e
    | .ok (rindex, s) =>
      if s ≠ contents then .error Errno.ENXIO else .ok ({ m with rindex }.advance 1)

/-- `bus_message_enter_struct` -/
def enterStruct (m : BusMessage) (contents : Bytes) : Result BusMessage :=
  let c := m.lastContainer
  if !signatureIsValid contents false then .error Errno.EINVAL
  else if c.next = 0 then .error Errno.ENXIO
  else if ¬ (structBegin :: contents ++ [structEnd] <+: c.signature.drop c.index) then .error Errno.ENXIO
  else
    match m.peekBody m.rindex 8 0 with
    | .error e => .error e
    | .ok (rindex, _) => .ok ({ m with rindex }.advance (1 + contents.length + 1))

/-- `bus_message_enter_dict_entry`; nothing is returned when the array has no more types. -/
def enterDictEntry (m : BusMessage) (contents : Bytes) : Result (Option BusMessage) :=
  let c := m.lastContainer
  if !signatureIsPair contents then .error Errno.EINVAL
  else if c.enclosing ≠ array then .error Errno.ENXIO
  else if c.next = 0 then .ok none
  else if ¬ (dictEntryBegin :: contents ++ [dictEntryEnd] <+: c.signature.drop c.index) then
    .error Errno.ENXIO
  else
    match m.peekBody m.rindex 8 0 with
    | .error e => .error e
    | .ok (rindex, _) => .ok (some ({ m with rindex }.advance (1 + contents.length + 1)))

/-- The four kinds of containers; nothing is returned where there is no member to enter. -/
def enterKind (m : BusMessage) (type : UInt8) (contents : Bytes) :
    Result (Option (BusMessage × Option (Nat × Nat))) :=
  if type = array then
    match m.enterArray contents with
    | .error e => .error e
    | .ok (m, q) => .ok (some (m, some q))
  else if type = variant then
    match m.enterVariant contents with
    | .error e => .error e
    | .ok m => .ok (some (m, none))
  else if type = struct then
    match m.enterStruct contents with
    | .error e => .error e
    | .ok m => .ok (some (m, none))
  else if type = dictEntry then
    match m.enterDictEntry contents with
    | .error e => .error e
    | .ok none => .ok none
    | .ok (some m) => .ok (some (m, none))
  else .error Errno.EINVAL

/-- `sd_bus_message_enter_container`, with the type and the contents given. -/
def enterContainer (m : BusMessage) (type : UInt8) (contents : Bytes) : BusMessage × Result Bool :=
  if !m.sealed then (m, .error Errno.EPERM)
  else if m.containers.length ≥ busContainerDepth then (m, .error Errno.EBADMSG)
  else if m.endOfSignature then (m, .error Errno.ENXIO)
  else if m.endOfArray then (m, .ok false)
  else
    match m.enterKind type contents with
    | .error e => (m, .error e)
    | .ok none => (m, .ok false)
    | .ok (some (m, arraySize)) =>
      ({ m with containers := ⟨type, contents, 0, arraySize, m.rindex⟩ :: m.containers }, .ok true)

/-- `sd_bus_message_exit_container` -/
def exitContainer (m : BusMessage) : BusMessage × Result Unit :=
  if !m.sealed then (m, .error Errno.EPERM)
  else
    match m.containers with
    | [] => (m, .error Errno.ENXIO)
    | c :: cs =>
      if c.enclosing ≠ array ∧ c.next ≠ 0 then (m, .error Errno.EBUSY)
      else if c.enclosing = array ∧ c.begin + m.arraySizeOf c ≠ m.rindex then (m, .error Errno.EBUSY)
      else ({ m with containers := cs }, .ok ())

/-- `sd_bus_message_peek_type`: the type that comes next and, for a container, the types of its
    contents; nothing at the end. -/
def peekType (m : BusMessage) : Result (Option (UInt8 × Bytes)) :=
  let c := m.lastContainer
  if m.endOfSignature || m.endOfArray then .ok none
  else if isBasic c.next then .ok (some (c.next, []))
  else if c.next = array then
    let element := c.signature.drop (c.index + 1)
    match signatureElementLength element with
    | .error e => .error e
    | .ok l => .ok (some (array, element.take l))
  else if c.next = structBegin ∨ c.next = dictEntryBegin then
    match signatureElementLength (c.signature.drop c.index) with
    | .error e => .error e
    | .ok l =>
      .ok (some (if c.next = structBegin then struct else dictEntry,
        (c.signature.drop (c.index + 1)).take (l - 2)))
  else if c.next = variant then
    match m.peekSignature m.rindex with
    | .error e => .error e
    | .ok (_, s) => .ok (some (variant, s))
  else .error Errno.EINVAL

/-- `sd_bus_message_rewind` to the start of the message. -/
def rewind (m : BusMessage) : BusMessage :=
  { m with rindex := 0, containers := [], rootContainer := { m.rootContainer with index := 0 } }

end BusMessage

end Elogind
