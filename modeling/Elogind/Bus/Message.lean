/-
  Elogind.Bus.Message

  Messages while they are put together (bus-message.c): the header fields, the body with its
  parts, and the stack of containers that are open.

  A pointer into the body is the number of a part and an offset in it, so that it stays valid
  when the memory of the part moves.  Memory is never short.
-/

import Elogind.Bus.Calls
import Elogind.Bus.Names
import Elogind.Bus.Signature
import Elogind.Lib.Octets

namespace Elogind

open BusType Lib

/-- `UINT32_MAX` -/
def uint32Max : Nat := 2 ^ 32 - 1

namespace MessageType

def methodCall : UInt8 := 1
def methodReturn : UInt8 := 2
def methodError : UInt8 := 3
def signal : UInt8 := 4

end MessageType

namespace MessageFlag

def noReplyExpected : UInt8 := 1
def allowInteractiveAuthorization : UInt8 := 4

end MessageFlag

namespace HeaderField

def path : UInt8 := 1
def interface : UInt8 := 2
def member : UInt8 := 3
def errorName : UInt8 := 4
def replySerial : UInt8 := 5
def destination : UInt8 := 6
def sender : UInt8 := 7
def signature : UInt8 := 8
def unixFds : UInt8 := 9

end HeaderField

/-- `BUS_LITTLE_ENDIAN` and `BUS_BIG_ENDIAN` -/
def Lib.Endian.code : Endian → UInt8
  | .little => 108
  | .big => 66

/-- `struct bus_body_part`; its size is the number of its bytes. -/
structure BodyPart where
  data : Bytes
  /-- The descriptor of a part that stands in a memfd. -/
  memfd : Option Int
  sealed : Bool
  isZero : Bool
  deriving DecidableEq, Repr

namespace BodyPart

def size (part : BodyPart) : Nat := part.data.length

/-- A new part after `part_make_space`. -/
def inline (data : Bytes) : BodyPart := ⟨data, none, false, false⟩

/-- `part_zero` -/
def zero (sz : Nat) : BodyPart := ⟨zeros sz, none, true, true⟩

end BodyPart

/-- `struct bus_container` -/
structure Container where
  /-- The type of the container; zero for the message itself. -/
  enclosing : UInt8
  signature : Bytes
  index : Nat
  /-- Where the size of an array stands in the body. -/
  arraySize : Option (Nat × Nat)
  /-- Where the contents start; only used when a message is read. -/
  begin : Nat
  deriving DecidableEq, Repr

namespace Container

/-- `c->signature[c->index]`: the type that comes next, zero at the end. -/
def next (c : Container) : UInt8 := c.signature.getD c.index 0

end Container

/-- `struct sd_bus_message` -/
structure BusMessage where
  endian : Endian
  type : UInt8
  flags : UInt8
  version : UInt8
  /-- `header->serial` -/
  serial : Nat
  /-- The header fields; their size is `fields_size`. -/
  fields : Bytes
  path : Option Bytes
  interface : Option Bytes
  member : Option Bytes
  destination : Option Bytes
  sender : Option Bytes
  errorName : Option Bytes
  errorMessage : Option Bytes
  replyCookie : Nat
  bodySize : Nat
  userBodySize : Nat
  parts : List BodyPart
  rindex : Nat
  fds : List Int
  rootContainer : Container
  /-- The containers that are open, the innermost one first. -/
  containers : List Container
  enforcedReplySignature : Option Bytes
  timeout : Nat
  allowFds : Bool
  sealed : Bool
  poisoned : Bool
  deriving DecidableEq, Repr

/-- `fcntl(fd, F_DUPFD_CLOEXEC, 3)`; the number of the copy may depend on how many the message
    has. -/
abbrev DupFd := Nat → Int → Result Int

namespace BusMessage

/-! ## Header fields -/

/-- `message_extend_fields`, with what the caller writes into the new space. -/
def extendFields (m : BusMessage) (bytes : Bytes) : BusMessage × Bool :=
  if m.poisoned then (m, false)
  else
    -- the header before the fields has 16 bytes
    let oldSize := 16 + m.fields.length
    let start := alignTo oldSize 8
    let newSize := start + bytes.length
    if newSize > uint32Max then ({ m with poisoned := true }, false)
    else ({ m with fields := m.fields ++ zeros (start - oldSize) ++ bytes }, true)

/-- A header field whose variant holds one basic value; `bytes` are those of the value. -/
def appendField (m : BusMessage) (h type : UInt8) (bytes : Bytes) : BusMessage × Result Unit :=
  match m.extendFields ([h, 1, type, 0] ++ bytes) with
  | (m, false) => (m, .error Errno.ENOMEM)
  | (m, true) => (m, .ok ())

/-- `message_append_field_signature` -/
def appendFieldSignature (m : BusMessage) (h : UInt8) (s : Bytes) : BusMessage × Result Unit :=
  if s.length > maximumSignatureLength then (m, .error Errno.EINVAL)
  else m.appendField h BusType.signature (UInt8.ofNat s.length :: s ++ [0])

/-- `message_append_field_uint32` -/
def appendFieldUint32 (m : BusMessage) (h : UInt8) (x : Nat) : BusMessage × Result Unit :=
  m.appendField h uint32 (m.endian.octets 4 x)

/-! ## The body -/

/-- The bytes of the body. -/
def body (m : BusMessage) : Bytes := m.parts.flatMap BodyPart.data

/-- `*c->array_size += expand` -/
def addToSize (e : Endian) (expand : Nat) (parts : List BodyPart) (p : Nat × Nat) : List BodyPart :=
  parts.modify p.1 fun part => { part with data := e.addAt p.2 expand part.data }

/-- `message_extend_containers` -/
def extendContainers (m : BusMessage) (expand : Nat) : BusMessage :=
  { m with parts := (m.containers.filterMap Container.arraySize).foldl (addToSize m.endian expand) m.parts }

/-- `message_append_part`, with what the caller makes of the new part. -/
def appendPart (m : BusMessage) (part : BodyPart) : BusMessage := { m with parts := m.parts ++ [part] }

/-- Bytes in a part of their own, after a part with the padding; and where they stand. -/
def addNewPart (m : BusMessage) (padding : Nat) (bytes : Bytes) : BusMessage × (Nat × Nat) :=
  let m := if padding > 0 then m.appendPart (.zero padding) else m
  (m.appendPart (.inline bytes), (m.parts.length, 0))

/-- Padding and bytes at the end of the last part; and where the bytes stand. -/
def extendPart (m : BusMessage) (last : BodyPart) (padding : Nat) (bytes : Bytes) : BusMessage × (Nat × Nat) :=
  ({ m with parts := m.parts.dropLast ++ [{ last with data := last.data ++ zeros padding ++ bytes }] },
    (m.parts.length - 1, last.size + padding))

/-- `message_extend_body`, with what the caller writes into the new space.  The sizes do not
    overflow here, so that one comparison is enough. -/
def extendBody (m : BusMessage) (align : Nat) (bytes : Bytes) : BusMessage × Option (Nat × Nat) :=
  if m.poisoned then (m, none)
  else
    let startBody := alignTo m.bodySize align
    let endBody := startBody + bytes.length
    let padding := startBody - m.bodySize
    let added := padding + bytes.length
    if endBody > uint32Max then ({ m with poisoned := true }, none)
    else
      let r :=
        -- without new bytes the pointer is only not NULL
        if added = 0 then (m, (0, 0))
        else
          match m.parts.getLast? with
          | none => m.addNewPart padding bytes
          | some last =>
            if last.sealed || padding ≠ alignTo last.size align - last.size then m.addNewPart padding bytes
            else m.extendPart last padding bytes
      ({ r.1 with bodySize := endBody }.extendContainers added, some r.2)

/-! ## Containers and the types they expect -/

/-- `message_get_last_container` -/
def lastContainer (m : BusMessage) : Container := m.containers.headD m.rootContainer

/-- A change of the container that `message_get_last_container` points to. -/
def setLastContainer (m : BusMessage) (c : Container) : BusMessage :=
  match m.containers with
  | [] => { m with rootContainer := c }
  | _ :: cs => { m with containers := c :: cs }

section SetLastContainer

variable (m : BusMessage) (c : Container)

@[simp] theorem lastContainer_setLastContainer : (m.setLastContainer c).lastContainer = c := by
  unfold setLastContainer lastContainer
  cases m.containers <;> rfl

@[simp] theorem endian_setLastContainer : (m.setLastContainer c).endian = m.endian := by
  unfold setLastContainer
  cases m.containers <;> rfl

@[simp] theorem fds_setLastContainer : (m.setLastContainer c).fds = m.fds := by
  unfold setLastContainer
  cases m.containers <;> rfl

@[simp] theorem allowFds_setLastContainer : (m.setLastContainer c).allowFds = m.allowFds := by
  unfold setLastContainer
  cases m.containers <;> rfl

@[simp] theorem poisoned_setLastContainer : (m.setLastContainer c).poisoned = m.poisoned := by
  unfold setLastContainer
  cases m.containers <;> rfl

end SetLastContainer

/-- The types `types` come next: the signature of the container says so, or it can be extended,
    which only that of the message can. -/
def expectTypes (m : BusMessage) (types : Bytes) : Result BusMessage :=
  let c := m.lastContainer
  if c.next ≠ 0 then
    if types <+: c.signature.drop c.index then .ok m else .error Errno.ENXIO
  else if c.enclosing ≠ 0 then .error Errno.ENXIO
  else .ok (m.setLastContainer { c with signature := c.signature ++ types })

/-- `if (c->enclosing != SD_BUS_TYPE_ARRAY) c->index += n` -/
def advance (m : BusMessage) (n : Nat) : BusMessage :=
  let c := m.lastContainer
  if c.enclosing = array then m else m.setLastContainer { c with index := c.index + n }

/-! ## Basic values -/

/-- The C string at an address; that at NULL is empty, as `strempty` makes it. -/
def cString (p : Option Bytes) : Bytes := (p.getD []).takeWhile (· ≠ 0)

/-- The `int` at an address. -/
def intAt (e : Endian) (memory : Bytes) : Int :=
  let n := e.value (memory.takeD 4 0)
  if n < 2 ^ 31 then n else n - 2 ^ 32

/-- `message_push_fd` -/
def pushFd (dup : DupFd) (m : BusMessage) (fd : Int) : Result Int :=
  if fd < 0 then .error Errno.EINVAL
  else if !m.allowFds then .error Errno.EOPNOTSUPP
  else dup m.fds.length fd

/-- The value at `p` as `message_append_basic` stores it: the alignment, the bytes, and the copy of
    a descriptor. -/
def basicBytes (dup : DupFd) (m : BusMessage) (type : UInt8) (p : Option Bytes) :
    Result (Nat × Bytes × Option Int) :=
  let s := cString p
  if type = string then
    if !utf8IsValid s then .error Errno.EINVAL
    else .ok (4, m.endian.octets 4 s.length ++ s ++ [0], none)
  else if type = objectPath then
    if p.isNone || !objectPathIsValid s then .error Errno.EINVAL
    else .ok (4, m.endian.octets 4 s.length ++ s ++ [0], none)
  else if type = signature then
    if !signatureIsValid s true then .error Errno.EINVAL
    else .ok (1, UInt8.ofNat s.length :: s ++ [0], none)
  else if type = boolean then
    .ok (4, m.endian.octets 4 (if p.any fun memory => intAt m.endian memory ≠ 0 then 1 else 0), none)
  else if type = unixFd then
    match p with
    | none => .error Errno.EINVAL
    | some memory =>
      match pushFd dup m (intAt m.endian memory) with
      | .error e => .error e
      | .ok copy => .ok (4, m.endian.octets 4 m.fds.length, some copy)
  else .ok ((getAlignment type).getD 1, (p.getD []).takeD ((getSize type).getD 1) 0, none)

/-- `message_append_basic`; `p` is the memory that the pointer points to. -/
def messageAppendBasic (dup : DupFd) (m : BusMessage) (type : UInt8) (p : Option Bytes) :
    BusMessage × Result Unit :=
  if m.sealed then (m, .error Errno.EPERM)
  else if !isBasic type then (m, .error Errno.EINVAL)
  else if m.poisoned then (m, .error Errno.ESTALE)
  else
    match m.expectTypes [type] with
    | .error e => (m, .error e)
    | .ok m =>
      -- from here on the signature may have been extended
      match basicBytes dup m type p with
      | .error e => (m, .error e)
      | .ok (align, bytes, copy) =>
        match m.extendBody align bytes with
        | (m, none) => (m, .error Errno.ENOMEM)
        | (m, some _) => ({ m with fds := m.fds ++ copy.toList }.advance 1, .ok ())

/-! ## Containers -/

/-- `bus_message_open_array` -/
def openArray (m : BusMessage) (contents : Bytes) : BusMessage × Result (Nat × Nat) :=
  if !signatureIsSingle contents true then (m, .error Errno.EINVAL)
  else
    match m.expectTypes (array :: contents) with
    | .error e => (m, .error e)
    | .ok m =>
      match getAlignment (contents.headD 0) with
      | none => (m, .error Errno.EINVAL)
      | some alignment =>
        match m.extendBody 4 (m.endian.octets 4 0) with
        | (m, none) => (m, .error Errno.ENOMEM)
        | (m, some a) =>
          -- the space between the size and the first element
          match m.extendBody alignment [] with
          | (m, none) => (m, .error Errno.ENOMEM)
          | (m, some _) => (m.advance (1 + contents.length), .ok a)

/-- `bus_message_open_variant` -/
def openVariant (m : BusMessage) (contents : Bytes) : BusMessage × Result Unit :=
  if !signatureIsSingle contents false then (m, .error Errno.EINVAL)
  else if contents.headD 0 = dictEntryBegin then (m, .error Errno.EINVAL)
  else
    match m.expectTypes [variant] with
    | .error e => (m, .error e)
    | .ok m =>
      match m.extendBody 1 (UInt8.ofNat contents.length :: contents ++ [0]) with
      | (m, none) => (m, .error Errno.ENOMEM)
      | (m, some _) => (m.advance 1, .ok ())

/-- `bus_message_open_struct` -/
def openStruct (m : BusMessage) (contents : Bytes) : BusMessage × Result Unit :=
  if !signatureIsValid contents false then (m, .error Errno.EINVAL)
  else
    match m.expectTypes (structBegin :: contents ++ [structEnd]) with
    | .error e => (m, .error e)
    | .ok m =>
      match m.extendBody 8 [] with
      | (m, none) => (m, .error Errno.ENOMEM)
      | (m, some _) => (m.advance (1 + contents.length + 1), .ok ())

/-- `bus_message_open_dict_entry`.  An entry only stands in an array, whose signature is never
    extended. -/
def openDictEntry (m : BusMessage) (contents : Bytes) : BusMessage × Result Unit :=
  let c := m.lastContainer
  if !signatureIsPair contents then (m, .error Errno.EINVAL)
  else if c.enclosing ≠ array then (m, .error Errno.ENXIO)
  else if ¬ (dictEntryBegin :: contents ++ [dictEntryEnd] <+: c.signature.drop c.index) then
    (m, .error Errno.ENXIO)
  else
    match m.extendBody 8 [] with
    | (m, none) => (m, .error Errno.ENOMEM)
    | (m, some _) => (m, .ok ())

/-- The four kinds of containers; the pointer is that to the size of an array. -/
def openKind (m : BusMessage) (type : UInt8) (contents : Bytes) : BusMessage × Result (Option (Nat × Nat)) :=
  if type = array then
    match m.openArray contents with
    | (m, .error e) => (m, .error e)
    | (m, .ok a) => (m, .ok (some a))
  else
    let r :=
      if type = variant then m.openVariant contents
      else if type = struct then m.openStruct contents
      else if type = dictEntry then m.openDictEntry contents
      else (m, .error Errno.EINVAL)
    match r with
    | (m, .error e) => (m, .error e)
    | (m, .ok ()) => (m, .ok none)

/-- `sd_bus_message_open_container` -/
def openContainer (m : BusMessage) (type : UInt8) (contents : Bytes) : BusMessage × Result Unit :=
  if m.sealed then (m, .error Errno.EPERM)
  else if m.poisoned then (m, .error Errno.ESTALE)
  else
    match m.openKind type contents with
    | (m, .error e) => (m, .error e)
    | (m, .ok arraySize) =>
      ({ m with containers := ⟨type, contents, 0, arraySize, 0⟩ :: m.containers }, .ok ())

/-! ## Sealing -/

/-- `sd_bus_message_seal`.  Parts in a memfd are sealed when they are added, so that nothing is
    left to do for them. -/
def messageSeal (m : BusMessage) (cookie timeout : Nat) : BusMessage × Result Unit :=
  if m.sealed then (m, .error Errno.EPERM)
  else if m.containers ≠ [] then (m, .error Errno.EBADMSG)
  else if m.poisoned then (m, .error Errno.ESTALE)
  else if cookie > uint32Max then (m, .error Errno.EOPNOTSUPP)
  else if m.type = MessageType.methodReturn ∧
      (m.enforcedReplySignature.any fun s => s ≠ m.rootContainer.signature) then (m, .error Errno.ENOMSG)
  else
    let r :=
      if m.rootContainer.signature ≠ [] then
        m.appendFieldSignature HeaderField.signature m.rootContainer.signature
      else (m, .ok ())
    match r with
    | (m, .error e) => (m, .error e)
    | (m, .ok ()) =>
      let r :=
        if m.fds ≠ [] then m.appendFieldUint32 HeaderField.unixFds m.fds.length else (m, .ok ())
      match r with
      | (m, .error e) => (m, .error e)
      | (m, .ok ()) =>
        ({ m with
            userBodySize := m.bodySize
            serial := cookie
            timeout := if m.flags &&& MessageFlag.noReplyExpected ≠ 0 then 0 else timeout
            rootContainer := { m.rootContainer with index := 0 }
            sealed := true }, .ok ())

/-- The bytes of a sealed message: the header, the fields up to a multiple of eight, the body. -/
def blob (m : BusMessage) : Bytes :=
  [m.endian.code, m.type, m.flags, m.version] ++ m.endian.octets 4 m.bodySize ++
    m.endian.octets 4 m.serial ++ m.endian.octets 4 m.fields.length ++
    m.fields ++ zeros (alignTo m.fields.length 8 - m.fields.length) ++ m.body

end BusMessage

/-! ## New messages -/

/-- What a message takes over from its `sd_bus`. -/
structure MessageBus where
  state : BusState
  /-- `BUS_NATIVE_ENDIAN` -/
  nativeEndian : Endian
  messageVersion : UInt8
  canFds : Bool
  allowInteractiveAuthorization : Bool
  /-- `sd_bus_get_method_call_timeout` -/
  methodCallTimeout : Result Nat

namespace BusMessage

/-- A message that has nothing but its header. -/
def blank (bus : MessageBus) (type : UInt8) : BusMessage where
  endian := bus.nativeEndian
  type := type
  flags := if bus.allowInteractiveAuthorization then MessageFlag.allowInteractiveAuthorization else 0
  version := bus.messageVersion
  serial := 0
  fields := []
  path := none
  interface := none
  member := none
  destination := none
  sender := none
  errorName := none
  errorMessage := none
  replyCookie := 0
  bodySize := 0
  userBodySize := 0
  parts := []
  rindex := 0
  fds := []
  rootContainer := ⟨0, [], 0, none, 0⟩
  containers := []
  enforcedReplySignature := none
  timeout := 0
  allowFds := bus.canFds || !(bus.state = .hello ∨ bus.state = .running)
  sealed := false
  poisoned := false

/-- A connection that is running, and a signal on it that is still empty. -/
def sampleBus : MessageBus := ⟨.running, .little, 1, true, false, .ok 25000000⟩

def emptySignal : BusMessage := blank sampleBus MessageType.signal

end BusMessage

end Elogind
