/-
  Elogind.Bus.ReadBody

  Reading a message whose body nobody has checked (bus-message.c).

  The bytes of the body that the calls look at and the descriptors that they use are part of the
  state, although the code does not remember them.
-/

import Elogind.Basic.ParseUtil
import Elogind.Bus.BadMessage

namespace Elogind

open BusType Lib List BusMessage

/-- Bytes that are looked at: their address and how many they are. -/
abbrev Load := (Nat × Nat) × Nat

/-- They are inside a part of the body. -/
def InBody (parts : List BodyPart) (l : Load) : Prop :=
  l.2 = 0 ∨ ∃ part, parts[l.1.1]? = some part ∧ l.1.2 + l.2 ≤ part.size

/-! ## What the calls look at -/

/-- What is looked at after a call that succeeds. -/
def loadsAfter {α : Type} (loads : α → List Load) : Result α → List Load
  | .error _ => []
  | .ok a => loads a

namespace BusMessage

/-- The padding in front of what `message_peek_body` finds. -/
def peekBodyLoads (m : BusMessage) (rindex align nbytes : Nat) : List Load :=
  let start := alignTo rindex align
  if start > m.userBodySize ∨ start + nbytes > m.userBodySize then []
  else ((m.findPart rindex (start - rindex)).map fun q => (q, start - rindex)).toList

/-- A text and the zero after it. -/
def peekTextLoads (m : BusMessage) (rindex l : Nat) : List Load :=
  m.peekBodyLoads rindex 1 (l + 1) ++ loadsAfter (fun p => [(p.2, l + 1)]) (m.peekBody rindex 1 (l + 1))

def peekStringLoads (m : BusMessage) (rindex : Nat) : List Load :=
  let text (p : Nat × (Nat × Nat)) : List Load :=
    let l := m.endian.value (m.bytesAt p.2 4)
    (p.2, 4) :: if l = uint32Max then [] else m.peekTextLoads p.1 l
  m.peekBodyLoads rindex 4 4 ++ loadsAfter text (m.peekBody rindex 4 4)

def peekSignatureLoads (m : BusMessage) (rindex : Nat) : List Load :=
  let text (p : Nat × (Nat × Nat)) : List Load :=
    let l := m.endian.value (m.bytesAt p.2 1)
    (p.2, 1) :: if l = 255 then [] else m.peekTextLoads p.1 l
  m.peekBodyLoads rindex 1 1 ++ loadsAfter text (m.peekBody rindex 1 1)

/-- The size of an array. -/
def arraySizeLoads (c : Container) : List Load :=
  if c.enclosing = array then [(c.arraySize.getD (0, 0), 4)] else []

/-- The bytes of a number. -/
def numberLoads (m : BusMessage) (type : UInt8) : List Load :=
  let sz := (getSize type).getD 1
  let align := (getAlignment type).getD 1
  m.peekBodyLoads m.rindex align sz ++ loadsAfter (fun p => [(p.2, sz)]) (m.peekBody m.rindex align sz)

def readBasicLoads (m : BusMessage) (type : UInt8) : List Load :=
  if !m.sealed || !isBasic type || m.endOfSignature then []
  else arraySizeLoads m.lastContainer ++
    if m.endOfArray || m.lastContainer.next ≠ type then []
    else if type = string ∨ type = objectPath then m.peekStringLoads m.rindex
    else if type = signature then m.peekSignatureLoads m.rindex
    else m.numberLoads type

/-- The descriptor that `sd_bus_message_read_basic` takes, after its number was compared with `n_fds`. -/
def fdLoads (m : BusMessage) (type : UInt8) : List Nat :=
  if type ≠ unixFd then []
  else
    match m.peekBody m.rindex 4 4 with
    | .error _ => []
    | .ok (_, q) =>
      let j := m.endian.value (m.bytesAt q 4)
      if j ≥ m.fds.length then [] else [j]

/-- If the contents are those that come next; otherwise less is looked at. -/
def enterContainerLoads (m : BusMessage) (type : UInt8) (contents : Bytes) : List Load :=
  if !m.sealed || m.endOfSignature then []
  else arraySizeLoads m.lastContainer ++
    if m.endOfArray then []
    else if type = array then
      let elements (p : Nat × (Nat × Nat)) : List Load :=
        (p.2, 4) :: m.peekBodyLoads p.1 ((getAlignment (contents.headD 0)).getD 1) 0
      m.peekBodyLoads m.rindex 4 4 ++ loadsAfter elements (m.peekBody m.rindex 4 4)
    else if type = variant then m.peekSignatureLoads m.rindex
    else m.peekBodyLoads m.rindex 8 0

def exitContainerLoads (m : BusMessage) : List Load := m.containers.head?.toList.flatMap arraySizeLoads

def peekTypeLoads (m : BusMessage) : List Load :=
  if m.endOfSignature then []
  else arraySizeLoads m.lastContainer ++
    if m.endOfArray || m.lastContainer.next ≠ variant then [] else m.peekSignatureLoads m.rindex

/-- `message_quit_container`, with what was saved when the container was entered. -/
def quitContainer (m : BusMessage) (before savedIndex : Nat) : BusMessage :=
  let m := { m with rindex := before, containers := m.containers.drop 1 }
  m.setLastContainer { m.lastContainer with index := savedIndex }

/-- `sd_bus_message_rewind` to the start of the container. -/
def rewindContainer (m : BusMessage) : BusMessage :=
  let c := m.lastContainer
  { m.setLastContainer { c with index := 0 } with rindex := c.begin }

end BusMessage

/-! ## The calls -/

/-- A message that is read. -/
structure Reading where
  m : BusMessage
  /-- The bytes of the body that were looked at. -/
  loads : List Load
  /-- The descriptors of the message that were used. -/
  fdIndices : List Nat
  deriving DecidableEq, Repr

namespace Reading

def start (m : BusMessage) : Reading := ⟨m, [], []⟩

/-- More bytes are looked at. -/
def look (s : Reading) (loads : List Load) : Reading := { s with loads := s.loads ++ loads }

/-- `sd_bus_message_read_basic` -/
def readBasic (s : Reading) (type : UInt8) : Reading × Result (Option Basic) :=
  (⟨(s.m.readBasic type).1, s.loads ++ s.m.readBasicLoads type, s.fdIndices ++ s.m.fdLoads type⟩,
    (s.m.readBasic type).2)

/-- `sd_bus_message_enter_container`, with the type and the contents given. -/
def enterContainer (s : Reading) (type : UInt8) (contents : Bytes) : Reading × Result Bool :=
  ({ s.look (s.m.enterContainerLoads type contents) with m := (s.m.enterContainer type contents).1 },
    (s.m.enterContainer type contents).2)

/-- `sd_bus_message_exit_container` -/
def exitContainer (s : Reading) : Reading × Result Unit :=
  ({ s.look s.m.exitContainerLoads with m := s.m.exitContainer.1 }, s.m.exitContainer.2)

/-- `sd_bus_message_peek_type` -/
def peekType (s : Reading) : Reading × Result (Option (UInt8 × Bytes)) :=
  (s.look s.m.peekTypeLoads, s.m.peekType)

/-- `sd_bus_message_enter_container`.  Where the contents are not given they are peeked; a basic type has
    none, and `strdup` of NULL does not return. -/
def enterPeeked (s : Reading) (type : UInt8) (contents : Option Bytes) : Option (Reading × Result Bool) :=
  if !s.m.sealed then some (s, .error Errno.EPERM)
  else
    match contents with
    | some contents =>
      if type = 0 then some (s, .error Errno.EINVAL) else some (s.enterContainer type contents)
    | none =>
      match s.peekType with
      | (s, .error e) => some (s, .error e)
      | (s, .ok none) =>
        if type ≠ 0 then some (s, .error Errno.ENXIO)
        else if s.m.containers.length ≥ busContainerDepth then some (s, .error Errno.EBADMSG)
        else if s.m.endOfSignature then some (s, .error Errno.ENXIO)
        else some (s.look (BusMessage.arraySizeLoads s.m.lastContainer), .ok false)
      | (s, .ok (some (t, contents))) =>
        if type ≠ 0 ∧ type ≠ t then some (s, .error Errno.ENXIO)
        else if isBasic t then
          if s.m.containers.length ≥ busContainerDepth then some (s, .error Errno.EBADMSG) else none
        else some (s.enterContainer t contents)

/-- A loop that ends when there is nothing more. -/
def untilDone (next : Reading → Reading × Result Bool) : Nat → Reading → Reading × Result Unit
  | 0, s => (s, .error Errno.EBADMSG)
  | n + 1, s =>
    match next s with
    | (s, .error e) => (s, .error e)
    | (s, .ok false) => (s, .ok ())
    | (s, .ok true) => untilDone next n s

/-- What is left of the types after a container, and then its end. -/
def thenExit (s : Reading) (rest : Reading → Reading × Result Bool) : Reading × Result Bool :=
  match s.exitContainer with
  | (s, .error e) => (s, .error e)
  | (s, .ok ()) =>
    match rest s with
    | (s, .error e) => (s, .error e)
    | (s, .ok _) => (s, .ok true)

/-- `sd_bus_message_skip` with the types given; `fuel` says how far it gets. -/
def skipTypes : Nat → Reading → Bytes → Reading × Result Bool
  | 0, s, _ => (s, .error Errno.EBADMSG)
  | fuel + 1, s, types =>
    let t := types.headD 0
    if t = 0 then (s, .ok false)
    else if isBasic t then
      match s.readBasic t with
      | (s, .error e) => (s, .error e)
      | (s, .ok none) => (s, .ok false)
      | (s, .ok (some _)) =>
        match skipTypes fuel s types.tail with
        | (s, .error e) => (s, .error e)
        | (s, .ok _) => (s, .ok true)
    else if t = array then
      match signatureElementLength types.tail with
      | .error e => (s, .error e)
      | .ok k =>
        match s.enterContainer array (types.tail.take k) with
        | (s, .error e) => (s, .error e)
        | (s, .ok false) => (s, .ok false)
        | (s, .ok true) =>
          match untilDone (fun s => skipTypes fuel s (types.tail.take k)) fuel s with
          | (s, .error e) => (s, .error e)
          | (s, .ok ()) => s.thenExit fun s => skipTypes fuel s (types.drop (1 + k))
    else if t = variant then
      match s.peekType with
      | (s, .error e) => (s, .error e)
      | (s, .ok none) => (s, .ok false)
      | (s, .ok (some (x, contents))) =>
        if x ≠ variant then (s, .error Errno.ENXIO)
        else
          match s.enterContainer variant contents with
          | (s, .error e) => (s, .error e)
          | (s, .ok false) => (s, .ok false)
          | (s, .ok true) =>
            match skipTypes fuel s contents with
            | (s, .error e) => (s, .error e)
            | (s, .ok _) => s.thenExit fun s => skipTypes fuel s types.tail
    else if t = structBegin ∨ t = dictEntryBegin then
      match signatureElementLength types with
      | .error e => (s, .error e)
      | .ok k =>
        if k < 2 then (s, .error ERANGE)
        else
          let contents := types.tail.take (k - 2)
          match s.enterContainer (if t = structBegin then struct else dictEntry) contents with
          | (s, .error e) => (s, .error e)
          | (s, .ok false) => (s, .ok false)
          | (s, .ok true) =>
            match skipTypes fuel s contents with
            | (s, .error e) => (s, .error e)
            | (s, .ok _) => s.thenExit fun s => skipTypes fuel s (types.drop k)
    else (s, .error Errno.EINVAL)

/-- `sd_bus_message_skip`; without types, the next one is skipped. -/
def skip (fuel : Nat) (s : Reading) (types : Option Bytes) : Reading × Result Bool :=
  if !s.m.sealed then (s, .error Errno.EPERM)
  else
    match types with
    | some types => skipTypes fuel s types
    | none =>
      if s.m.endOfSignature then (s, .error Errno.ENXIO)
      else
        let s := s.look (BusMessage.arraySizeLoads s.m.lastContainer)
        if s.m.endOfArray then (s, .ok false)
        else
          let c := s.m.lastContainer
          let signature := c.signature.drop c.index
          match signatureElementLength signature with
          | .error e => (s, .error e)
          | .ok l => skipTypes fuel s (signature.take l)

/-- The reader moves on. -/
def seek (s : Reading) (rindex : Nat) : Reading := { s with m := { s.m with rindex } }

/-- The end of `sd_bus_message_read_array`. -/
def finishArray (s : Reading) (before savedIndex : Nat) (bytes : Bytes) : Reading × Result (Option Bytes) :=
  match s.exitContainer with
  | (s, .error e) => ({ s with m := s.m.quitContainer before savedIndex }, .error e)
  | (s, .ok ()) => (s, .ok (some bytes))

/-- `sd_bus_message_read_array`, with the byte order of the machine; nothing is returned at the end of an
    array.  Nobody looks at the pointer to an array that is empty. -/
def readArray (native : Endian) (s : Reading) (type : UInt8) : Reading × Result (Option Bytes) :=
  if !s.m.sealed then (s, .error Errno.EPERM)
  else if !isTrivial type then (s, .error Errno.EINVAL)
  else if s.m.endian ≠ native then (s, .error Errno.EOPNOTSUPP)
  else
    let before := s.m.rindex
    let savedIndex := s.m.lastContainer.index
    match s.enterContainer array [type] with
    | (s, .error e) => (s, .error e)
    | (s, .ok false) => (s, .ok none)
    | (s, .ok true) =>
      let s := s.look (BusMessage.arraySizeLoads s.m.lastContainer)
      let sz := s.m.arraySizeOf s.m.lastContainer
      if sz = 0 then s.finishArray before savedIndex []
      else
        let align := (getAlignment type).getD 1
        let padding := s.m.peekBodyLoads s.m.rindex align sz
        match s.m.peekBody s.m.rindex align sz with
        | .error e => ({ s.look padding with m := s.m.quitContainer before savedIndex }, .error e)
        | .ok (rindex, q) =>
          ((s.look (padding ++ [(q, sz)])).seek rindex).finishArray before savedIndex (s.m.bytesAt q sz)

/-- `sd_bus_message_rewind` -/
def rewind (s : Reading) (complete : Bool) : Reading × Result Bool :=
  if !s.m.sealed then (s, .error Errno.EPERM)
  else
    let m := if complete then s.m.rewind else s.m.rewindContainer
    ({ s with m }, .ok (m.lastContainer.signature ≠ []))

end Reading

/-- The calls that read a message. -/
inductive ReadCall where
  | readBasic (type : UInt8)
  | enterContainer (type : UInt8) (contents : Option Bytes)
  | exitContainer
  | peekType
  | skip (fuel : Nat) (types : Option Bytes)
  | rewind (complete : Bool)
  | readArray (type : UInt8)
  deriving DecidableEq, Repr

namespace Reading

/-- A call, and whether it returns something; `none` if it does not return. -/
def call (native : Endian) (s : Reading) : ReadCall → Option (Reading × Result Bool)
  | .readBasic type => some ((s.readBasic type).1, (s.readBasic type).2.map Option.isSome)
  | .enterContainer type contents => s.enterPeeked type contents
  | .exitContainer => some (s.exitContainer.1, s.exitContainer.2.map fun _ => true)
  | .peekType => some (s.peekType.1, s.peekType.2.map Option.isSome)
  | .skip fuel types => some (s.skip fuel types)
  | .rewind complete => some (s.rewind complete)
  | .readArray type => some ((s.readArray native type).1, (s.readArray native type).2.map Option.isSome)

/-- The steps of a run. -/
def Step (native : Endian) (s : Reading) (c : ReadCall) (s' : Reading) : Prop :=
  ∃ r, s.call native c = some (s', r)

end Reading

/-! ## Addresses -/

/-- What `find_part` finds is inside a part. -/
theorem findPartFrom_inBody {index sz n start k off : Nat} {parts : List BodyPart}
    (h : BusMessage.findPartFrom index sz n start parts = some (k, off)) :
    ∃ i part, k = n + i ∧ parts[i]? = some part ∧ off + sz ≤ part.size := by
  induction parts generalizing n start with
  | nil => cases h
  | cons part parts ih =>
    rw [findPartFrom] at h
    split at h
    · cases h
    split at h
    · cases h
      exact ⟨0, part, rfl, rfl, by omega⟩
    · obtain ⟨i, part', rfl, hpart, hsize⟩ := ih h
      exact ⟨i + 1, part', by omega, hpart, hsize⟩

namespace BusMessage

variable {m m' : BusMessage}

variable {q : Nat × Nat} {rindex stop n : Nat} {c : Container} {contents s : Bytes}

theorem findPart_inBody {index sz : Nat} (h : m.findPart index sz = some q) :
    InBody m.parts (q, sz) := by
  obtain ⟨k, off⟩ := q
  obtain ⟨i, part, hk, hpart, hsize⟩ := findPartFrom_inBody h
  rw [Nat.zero_add] at hk
  subst hk
  by_cases hnone : m.parts = []
  · -- the first part has no bytes
    rw [if_pos hnone] at hpart
    obtain ⟨hi, hget⟩ := List.getElem?_eq_some_iff.mp hpart
    rw [length_singleton, Nat.lt_one_iff] at hi
    subst hi
    rw [← show BodyPart.inline [] = part from hget] at hsize
    exact .inl (by change off + sz ≤ 0 at hsize; omega)
  · rw [if_neg hnone] at hpart
    exact .inr ⟨part, hpart, hsize⟩

/-- What was peeked is inside the body and ends before its end. -/
theorem peekBody_inBody {align nbytes : Nat} (h : m.peekBody rindex align nbytes = .ok (stop, q)) :
    stop ≤ m.userBodySize ∧ InBody m.parts (q, nbytes) := by
  unfold peekBody at h
  dsimp only at h
  split at h
  · cases h
  split at h
  · cases h
  next hstop =>
  split at h
  · cases h
  split at h
  · cases h
  split at h
  · cases h
  · next hfind =>
    cases h
    exact ⟨Nat.le_of_not_lt hstop, findPart_inBody hfind⟩

theorem peekBodyLoads_inBody (m : BusMessage) (rindex align nbytes : Nat) :
    ∀ l ∈ m.peekBodyLoads rindex align nbytes, InBody m.parts l := by
  intro l hl
  unfold peekBodyLoads at hl
  dsimp only at hl
  split at hl
  · exact absurd hl not_mem_nil
  · rw [Option.mem_toList, Option.map_eq_some_iff] at hl
    obtain ⟨q, hq, rfl⟩ := hl
    exact findPart_inBody hq

/-- The padding, and then what follows a peek. -/
theorem peekBody_then_inBody {align nbytes : Nat} {loads : Nat × (Nat × Nat) → List Load}
    (h : ∀ p, m.peekBody rindex align nbytes = .ok p → ∀ l ∈ loads p, InBody m.parts l) :
    ∀ l ∈ m.peekBodyLoads rindex align nbytes ++ loadsAfter loads (m.peekBody rindex align nbytes),
      InBody m.parts l := by
  intro l hl
  rcases mem_append.mp hl with hl | hl
  · exact peekBodyLoads_inBody m rindex align nbytes l hl
  · cases hpeek : m.peekBody rindex align nbytes with
    | error e =>
      rw [hpeek] at hl
      exact absurd hl not_mem_nil
    | ok p =>
      rw [hpeek] at hl
      exact h p hpeek l hl

theorem peekTextLoads_inBody (m : BusMessage) (rindex l : Nat) : ∀ x ∈ m.peekTextLoads rindex l, InBody m.parts x := by
  refine peekBody_then_inBody fun p hpeek x hx => ?_
  obtain rfl := mem_singleton.mp hx
  exact (peekBody_inBody hpeek).2

/-- A text whose length was found inside the body. -/
theorem text_inBody (hq : InBody m.parts (q, n)) (b : Prop) [Decidable b] (rindex l : Nat) :
    ∀ x ∈ (q, n) :: if b then [] else m.peekTextLoads rindex l, InBody m.parts x := by
  intro x hx
  rcases mem_cons.mp hx with rfl | hx
  · exact hq
  · split at hx
    · exact absurd hx not_mem_nil
    · exact peekTextLoads_inBody m rindex l x hx

theorem peekStringLoads_inBody (m : BusMessage) (rindex : Nat) : ∀ x ∈ m.peekStringLoads rindex, InBody m.parts x :=
  peekBody_then_inBody fun _ hpeek => text_inBody (peekBody_inBody hpeek).2 _ _ _

theorem peekSignatureLoads_inBody (m : BusMessage) (rindex : Nat) :
    ∀ x ∈ m.peekSignatureLoads rindex, InBody m.parts x :=
  peekBody_then_inBody fun _ hpeek => text_inBody (peekBody_inBody hpeek).2 _ _ _

theorem numberLoads_inBody (m : BusMessage) (type : UInt8) : ∀ x ∈ m.numberLoads type, InBody m.parts x := by
  refine peekBody_then_inBody fun p hpeek x hx => ?_
  obtain rfl := mem_singleton.mp hx
  exact (peekBody_inBody hpeek).2

/-! ## Positions -/

/-- The positions that a container remembers are those of a message of this size. -/
structure Fits (parts : List BodyPart) (size : Nat) (c : Container) : Prop where
  index : c.index ≤ c.signature.length
  begin : c.begin ≤ size
  arraySize : c.enclosing = array → InBody parts (c.arraySize.getD (0, 0), 4)

/-- A message that can be read on. -/
structure Readable (m : BusMessage) : Prop where
  rindex : m.rindex ≤ m.userBodySize
  root : Fits m.parts m.userBodySize m.rootContainer
  containers : ∀ c ∈ m.containers, Fits m.parts m.userBodySize c

/-- The body, the descriptors and the byte order stay what they are. -/
structure SameBody (m m' : BusMessage) : Prop where
  parts : m'.parts = m.parts
  fds : m'.fds = m.fds
  size : m'.userBodySize = m.userBodySize

theorem SameBody.refl (m : BusMessage) : SameBody m m := ⟨rfl, rfl, rfl⟩

theorem SameBody.trans {m'' : BusMessage} (h : SameBody m m') (h' : SameBody m' m'') : SameBody m m'' :=
  ⟨h'.parts.trans h.parts, h'.fds.trans h.fds, h'.size.trans h.size⟩

theorem Readable.lastContainer (h : Readable m) : Fits m.parts m.userBodySize m.lastContainer := by
  unfold BusMessage.lastContainer
  cases hc : m.containers with
  | nil => exact h.root
  | cons c cs => exact h.containers c (by rw [hc]; exact mem_cons_self ..)

theorem sameBody_setLastContainer (m : BusMessage) (c : Container) : SameBody m (m.setLastContainer c) := by
  unfold setLastContainer
  cases m.containers with
  | nil | cons c' cs => exact ⟨rfl, rfl, rfl⟩

theorem Readable.setLastContainer (h : Readable m) (hc : Fits m.parts m.userBodySize c) :
    Readable (m.setLastContainer c) := by
  unfold BusMessage.setLastContainer
  cases hcs : m.containers with
  | nil => exact ⟨h.rindex, hc, fun c' hc' => absurd hc' not_mem_nil⟩
  | cons first cs =>
    refine ⟨h.rindex, h.root, fun c' hc' => ?_⟩
    rcases mem_cons.mp hc' with rfl | hc'
    · exact hc
    · exact h.containers c' (by rw [hcs]; exact mem_cons_of_mem first hc')

theorem sameBody_advance (m : BusMessage) (n : Nat) : SameBody m (m.advance n) := by
  unfold advance
  dsimp only
  split
  · exact SameBody.refl m
  · exact sameBody_setLastContainer m _

/-- The index moves on over types of the signature. -/
theorem Readable.advance (h : Readable m)
    (hn : m.lastContainer.index + n ≤ m.lastContainer.signature.length) : Readable (m.advance n) := by
  unfold BusMessage.advance
  dsimp only
  split
  · exact h
  · have hlast := h.lastContainer
    exact h.setLastContainer ⟨hn, hlast.begin, hlast.arraySize⟩

theorem Readable.withRindex (h : Readable m) (hle : rindex ≤ m.userBodySize) :
    Readable { m with rindex } := ⟨hle, h.root, h.containers⟩

/-- Where a type comes next, there is one. -/
theorem index_lt_of_next (h : c.next ≠ 0) : c.index < c.signature.length := by
  by_contra hlt
  rw [Container.next, getD_eq_getElem?_getD, getElem?_eq_none (by omega)] at h
  exact h rfl

theorem index_add_le_of_prefix {i : Nat} (h : contents <+: c.signature.drop (c.index + i))
    (hi : c.index + i ≤ c.signature.length) : c.index + i + contents.length ≤ c.signature.length := by
  have hlen := h.length_le
  rw [length_drop] at hlen
  omega

/-! ## One call of the reader -/

/-- What a call leaves behind. -/
structure Keeps (m m' : BusMessage) : Prop extends SameBody m m' where
  readable : Readable m'

theorem Readable.keeps (h : Readable m) : Keeps m m := ⟨SameBody.refl m, h⟩

/-- The position and the index after a value. -/
theorem Readable.keepsAdvance (h : Readable m) (hle : rindex ≤ m.userBodySize)
    (hn : m.lastContainer.index + n ≤ m.lastContainer.signature.length) :
    Keeps m ({ m with rindex }.advance n) := by
  have hmoved := h.withRindex hle
  have hsame := sameBody_advance { m with rindex } n
  exact ⟨⟨hsame.parts, hsame.fds, hsame.size⟩, hmoved.advance hn⟩

theorem peekText_le {l : Nat} {validate : Bytes → Bool}
    (h : m.peekText rindex l validate = .ok (stop, s)) : stop ≤ m.userBodySize := by
  unfold peekText at h
  split at h
  · cases h
  · next hpeek =>
    dsimp only at h
    split at h
    · cases h
    · cases h
      exact (peekBody_inBody hpeek).1

theorem peekString_le {validate : Bytes → Bool} (h : m.peekString rindex validate = .ok (stop, s)) :
    stop ≤ m.userBodySize := by
  unfold peekString at h
  split at h
  · cases h
  · dsimp only at h
    split at h
    · cases h
    · exact peekText_le h

theorem peekSignature_le (h : m.peekSignature rindex = .ok (stop, s)) : stop ≤ m.userBodySize := by
  unfold peekSignature at h
  split at h
  · cases h
  · dsimp only at h
    split at h
    · cases h
    · exact peekText_le h

theorem basicRead_le {type : UInt8} {b : Basic} (h : m.basicRead type = .ok (stop, b)) :
    stop ≤ m.userBodySize := by
  unfold basicRead at h
  split at h
  · split at h
    · cases h
    · next hpeek =>
      cases h
      exact peekString_le hpeek
  split at h
  · split at h
    · cases h
    · next hpeek =>
      cases h
      exact peekSignature_le hpeek
  · dsimp only at h
    split at h
    · cases h
    · next hpeek =>
      split at h
      · cases h
      · cases h
        exact (peekBody_inBody hpeek).1

theorem Readable.readBasic (h : Readable m) (type : UInt8) : Keeps m (m.readBasic type).1 := by
  unfold BusMessage.readBasic
  split
  · exact h.keeps
  split
  · exact h.keeps
  next hbasic =>
  split
  · exact h.keeps
  split
  · exact h.keeps
  split
  · exact h.keeps
  next hnext =>
  split
  · exact h.keeps
  · next hread =>
    refine h.keepsAdvance (basicRead_le hread) (index_lt_of_next ?_)
    rw [not_not.mp hnext]
    rintro rfl
    exact hbasic (by decide)

/-- What is entered keeps to the body, and its array size too. -/
theorem Readable.enterArray (h : Readable m) (hr : m.enterArray contents = .ok (m', q)) :
    Keeps m m' ∧ InBody m.parts (q, 4) := by
  unfold BusMessage.enterArray at hr
  dsimp only at hr
  split at hr
  · cases hr
  split at hr
  · cases hr
  next hnext =>
  split at hr
  · cases hr
  split at hr
  · cases hr
  next hcontents =>
  split at hr
  · cases hr
  next hpeek =>
  split at hr
  · cases hr
  split at hr
  · cases hr
  split at hr
  · cases hr
  next hpeek' =>
  cases hr
  have hindex := index_lt_of_next hnext
  have hn := index_add_le_of_prefix (not_not.mp hcontents) hindex
  exact ⟨h.keepsAdvance (peekBody_inBody hpeek').1 (by omega), (peekBody_inBody hpeek).2⟩

theorem Readable.enterVariant (h : Readable m) (hr : m.enterVariant contents = .ok m') :
    Keeps m m' := by
  unfold BusMessage.enterVariant at hr
  dsimp only at hr
  split at hr
  · cases hr
  split at hr
  · cases hr
  split at hr
  · cases hr
  next hnext =>
  split at hr
  · cases hr
  split at hr
  · cases hr
  next hpeek =>
  split at hr
  · cases hr
  cases hr
  exact h.keepsAdvance (peekSignature_le hpeek) (index_lt_of_next hnext)

/-- The types between two brackets. -/
theorem index_add_brackets {b e : UInt8} (h : ¬ ¬ (b :: contents ++ [e] <+: c.signature.drop c.index))
    (hfits : c.index ≤ c.signature.length) :
    c.index + (1 + contents.length + 1) ≤ c.signature.length := by
  have hn := index_add_le_of_prefix (i := 0) (not_not.mp h) hfits
  rw [length_append, length_cons, length_singleton] at hn
  omega

theorem Readable.enterStruct (h : Readable m) (hr : m.enterStruct contents = .ok m') : Keeps m m' := by
  unfold BusMessage.enterStruct at hr
  dsimp only at hr
  split at hr
  · cases hr
  split at hr
  · cases hr
  split at hr
  · cases hr
  next hcontents =>
  split at hr
  · cases hr
  next hpeek =>
  cases hr
  exact h.keepsAdvance (peekBody_inBody hpeek).1 (index_add_brackets hcontents h.lastContainer.index)

theorem Readable.enterDictEntry (h : Readable m) (hr : m.enterDictEntry contents = .ok (some m')) :
    Keeps m m' := by
  unfold BusMessage.enterDictEntry at hr
  dsimp only at hr
  split at hr
  · cases hr
  split at hr
  · cases hr
  split at hr
  · cases hr
  split at hr
  · cases hr
  next hcontents =>
  split at hr
  · cases hr
  next hpeek =>
  cases hr
  exact h.keepsAdvance (peekBody_inBody hpeek).1 (index_add_brackets hcontents h.lastContainer.index)

theorem Readable.enterKind (h : Readable m) {type : UInt8} {a : Option (Nat × Nat)}
    (hr : m.enterKind type contents = .ok (some (m', a))) :
    Keeps m m' ∧ (type = array → InBody m.parts (a.getD (0, 0), 4)) := by
  unfold BusMessage.enterKind at hr
  split at hr
  · split at hr
    · cases hr
    · next hin =>
      cases hr
      obtain ⟨hkeeps, hsize⟩ := h.enterArray hin
      exact ⟨hkeeps, fun _ => hsize⟩
  next hnot =>
  split at hr
  · split at hr
    · cases hr
    · next hin =>
      cases hr
      exact ⟨h.enterVariant hin, fun harray => absurd harray hnot⟩
  split at hr
  · split at hr
    · cases hr
    · next hin =>
      cases hr
      exact ⟨h.enterStruct hin, fun harray => absurd harray hnot⟩
  split at hr
  · split at hr
    · cases hr
    · cases hr
    · next hin =>
      cases hr
      exact ⟨h.enterDictEntry hin, fun harray => absurd harray hnot⟩
  · cases hr

theorem Readable.enterContainer (h : Readable m) (type : UInt8) (contents : Bytes) :
    Keeps m (m.enterContainer type contents).1 := by
  unfold BusMessage.enterContainer
  split
  · exact h.keeps
  split
  · exact h.keeps
  split
  · exact h.keeps
  split
  · exact h.keeps
  split
  · exact h.keeps
  · exact h.keeps
  · next m' a hkind =>
    obtain ⟨⟨hsame, hread⟩, harray⟩ := h.enterKind hkind
    refine ⟨⟨hsame.parts, hsame.fds, hsame.size⟩, hread.rindex, hread.root, fun c hc => ?_⟩
    rcases mem_cons.mp hc with rfl | hc
    · refine ⟨Nat.zero_le _, hread.rindex, fun henclosing => ?_⟩
      rw [hsame.parts]
      exact harray henclosing
    · exact hread.containers c hc

theorem Readable.exitContainer (h : Readable m) : Keeps m m.exitContainer.1 := by
  unfold BusMessage.exitContainer
  split
  · exact h.keeps
  split
  · exact h.keeps
  next c cs hcs =>
  split
  · exact h.keeps
  split
  · exact h.keeps
  · refine ⟨⟨rfl, rfl, rfl⟩, h.rindex, h.root, fun c' hc' => ?_⟩
    exact h.containers c' (by rw [hcs]; exact mem_cons_of_mem c hc')

theorem Readable.rewind (h : Readable m) : Keeps m m.rewind :=
  ⟨⟨rfl, rfl, rfl⟩, Nat.zero_le _, ⟨Nat.zero_le _, h.root.begin, h.root.arraySize⟩,
    fun _ hc => absurd hc not_mem_nil⟩

theorem Readable.rewindContainer (h : Readable m) : Keeps m m.rewindContainer := by
  have hlast := h.lastContainer
  have hset := h.setLastContainer (c := { m.lastContainer with index := 0 })
    ⟨Nat.zero_le _, hlast.begin, hlast.arraySize⟩
  have hsame := sameBody_setLastContainer m { m.lastContainer with index := 0 }
  refine ⟨⟨hsame.parts, hsame.fds, hsame.size⟩, hset.withRindex ?_⟩
  rw [hsame.size]
  exact hlast.begin

/-! ## What one call looks at -/

theorem Fits.arraySizeLoads {parts : List BodyPart} {size : Nat} (h : Fits parts size c) :
    ∀ l ∈ arraySizeLoads c, InBody parts l := by
  intro l hl
  unfold BusMessage.arraySizeLoads at hl
  split at hl
  · next harray =>
    obtain rfl := mem_singleton.mp hl
    exact h.arraySize harray
  · exact absurd hl not_mem_nil

/-- The size of the array, and then what follows it. -/
theorem Readable.arraySize_then (h : Readable m) {rest : List Load} (hrest : ∀ l ∈ rest, InBody m.parts l) :
    ∀ l ∈ arraySizeLoads m.lastContainer ++ rest, InBody m.parts l := by
  intro l hl
  rcases mem_append.mp hl with hl | hl
  · exact h.lastContainer.arraySizeLoads l hl
  · exact hrest l hl

theorem Readable.readBasicLoads (h : Readable m) (type : UInt8) : ∀ l ∈ m.readBasicLoads type, InBody m.parts l := by
  unfold BusMessage.readBasicLoads
  split
  · exact fun l hl => absurd hl not_mem_nil
  refine h.arraySize_then ?_
  split
  · exact fun l hl => absurd hl not_mem_nil
  split
  · exact peekStringLoads_inBody m _
  split
  · exact peekSignatureLoads_inBody m _
  · exact numberLoads_inBody m type

theorem Readable.enterContainerLoads (h : Readable m) (type : UInt8) (contents : Bytes) :
    ∀ l ∈ m.enterContainerLoads type contents, InBody m.parts l := by
  unfold BusMessage.enterContainerLoads
  split
  · exact fun l hl => absurd hl not_mem_nil
  refine h.arraySize_then ?_
  split
  · exact fun l hl => absurd hl not_mem_nil
  split
  · refine peekBody_then_inBody fun p hpeek l hl => ?_
    rcases mem_cons.mp hl with rfl | hl
    · exact (peekBody_inBody hpeek).2
    · exact peekBodyLoads_inBody m _ _ _ l hl
  split
  · exact peekSignatureLoads_inBody m _
  · exact peekBodyLoads_inBody m _ _ _

theorem Readable.exitContainerLoads (h : Readable m) : ∀ l ∈ m.exitContainerLoads, InBody m.parts l := by
  intro l hl
  obtain ⟨c, hc, hl⟩ := mem_flatMap.mp hl
  rw [Option.mem_toList] at hc
  exact (h.containers c (mem_of_mem_head? hc)).arraySizeLoads l hl

theorem Readable.peekTypeLoads (h : Readable m) : ∀ l ∈ m.peekTypeLoads, InBody m.parts l := by
  unfold BusMessage.peekTypeLoads
  split
  · exact fun l hl => absurd hl not_mem_nil
  refine h.arraySize_then ?_
  split
  · exact fun l hl => absurd hl not_mem_nil
  · exact peekSignatureLoads_inBody m _

theorem fdLoads_lt (m : BusMessage) (type : UInt8) : ∀ j ∈ m.fdLoads type, j < m.fds.length := by
  intro j hj
  unfold fdLoads at hj
  split at hj
  · exact absurd hj not_mem_nil
  split at hj
  · exact absurd hj not_mem_nil
  dsimp only at hj
  split at hj
  · exact absurd hj not_mem_nil
  · next hlt =>
    obtain rfl := mem_singleton.mp hj
    omega

end BusMessage

/-! ## Runs -/

namespace Reading

open BusMessage

/-- Nothing outside the body was looked at, and no descriptor that the message does not have. -/
structure Safe (m : BusMessage) (s : Reading) : Prop where
  keeps : Keeps m s.m
  loads : ∀ l ∈ s.loads, InBody m.parts l
  fdIndices : ∀ j ∈ s.fdIndices, j < m.fds.length

section Safe

variable {m : BusMessage} {s s' : Reading}

theorem safe_start (h : Readable m) : Safe m (start m) :=
  ⟨h.keeps, fun _ hl => absurd hl not_mem_nil, fun _ hj => absurd hj not_mem_nil⟩

theorem Safe.readable (h : Safe m s) : Readable s.m := h.keeps.readable

theorem Safe.look (h : Safe m s) {loads : List Load} (hloads : ∀ l ∈ loads, InBody s.m.parts l) :
    Safe m (s.look loads) := by
  refine ⟨h.keeps, fun l hl => ?_, h.fdIndices⟩
  rcases mem_append.mp hl with hl | hl
  · exact h.loads l hl
  · rw [← h.keeps.parts]
    exact hloads l hl

theorem Safe.withMessage (h : Safe m s) {m' : BusMessage} (hm : Keeps s.m m') : Safe m { s with m := m' } :=
  ⟨⟨h.keeps.toSameBody.trans hm.toSameBody, hm.readable⟩, h.loads, h.fdIndices⟩

theorem Safe.seek (h : Safe m s) {rindex : Nat} (hle : rindex ≤ s.m.userBodySize) : Safe m (s.seek rindex) :=
  h.withMessage ⟨⟨rfl, rfl, rfl⟩, h.readable.withRindex hle⟩

theorem Safe.readBasic (h : Safe m s) (type : UInt8) : Safe m (s.readBasic type).1 := by
  have hlook := h.look (h.readable.readBasicLoads type)
  have hread := hlook.withMessage (h.readable.readBasic type)
  refine ⟨hread.keeps, hread.loads, fun j hj => ?_⟩
  rcases mem_append.mp hj with hj | hj
  · exact h.fdIndices j hj
  · rw [← h.keeps.fds]
    exact fdLoads_lt s.m type j hj

theorem Safe.enterContainer (h : Safe m s) (type : UInt8) (contents : Bytes) :
    Safe m (s.enterContainer type contents).1 :=
  (h.look (h.readable.enterContainerLoads type contents)).withMessage (h.readable.enterContainer type contents)

theorem Safe.exitContainer (h : Safe m s) : Safe m s.exitContainer.1 :=
  (h.look h.readable.exitContainerLoads).withMessage h.readable.exitContainer

theorem Safe.peekType (h : Safe m s) : Safe m s.peekType.1 := h.look h.readable.peekTypeLoads

theorem Safe.enterPeeked (h : Safe m s) {type : UInt8} {contents : Option Bytes} {r : Result Bool}
    (hr : s.enterPeeked type contents = some (s', r)) : Safe m s' := by
  have hpeek := h.peekType
  unfold Reading.enterPeeked at hr
  split at hr
  · cases hr
    exact h
  split at hr
  · split at hr
    · cases hr
      exact h
    · cases hr
      exact h.enterContainer _ _
  split at hr
  · next heq =>
    rw [heq] at hpeek
    cases hr
    exact hpeek
  · next heq =>
    rw [heq] at hpeek
    split at hr
    · cases hr
      exact hpeek
    split at hr
    · cases hr
      exact hpeek
    split at hr
    · cases hr
      exact hpeek
    · cases hr
      exact hpeek.look hpeek.readable.lastContainer.arraySizeLoads
  · next heq =>
    rw [heq] at hpeek
    split at hr
    · cases hr
      exact hpeek
    split at hr
    · split at hr
      · cases hr
        exact hpeek
      · cases hr
    · cases hr
      exact hpeek.enterContainer _ _

theorem Safe.untilDone {next : Reading → Reading × Result Bool} (hnext : ∀ {s}, Safe m s → Safe m (next s).1)
    (n : Nat) (h : Safe m s) : Safe m (untilDone next n s).1 := by
  induction n generalizing s with
  | zero => exact h
  | succ n ih =>
    have hone := hnext h
    rw [Reading.untilDone]
    generalize next s = p at hone ⊢
    obtain ⟨s', e | more⟩ := p
    · exact hone
    · cases more with
      | false => exact hone
      | true => exact ih hone

theorem Safe.thenExit {rest : Reading → Reading × Result Bool} (hrest : ∀ {s}, Safe m s → Safe m (rest s).1)
    (h : Safe m s) : Safe m (s.thenExit rest).1 := by
  have hexit := h.exitContainer
  unfold Reading.thenExit
  generalize s.exitContainer = p at hexit ⊢
  obtain ⟨s', e | left⟩ := p
  · exact hexit
  · have hlast := hrest hexit
    dsimp only
    generalize rest s' = p at hlast ⊢
    obtain ⟨s'', e | more⟩ := p <;> exact hlast

/-- Skipping stays `Safe`, since each call that it makes does.  The cases are the branches of `skipTypes`, and in
    each the calls that come first may fail or find nothing. -/
theorem Safe.skipTypes (fuel : Nat) (types : Bytes) (h : Safe m s) : Safe m (skipTypes fuel s types).1 := by
  induction fuel generalizing s types with
  | zero => exact h
  | succ fuel ih =>
    rw [Reading.skipTypes]
    dsimp only
    split
    · exact h
    split
    · -- a basic type, and the types behind it
      have hread := h.readBasic (types.headD 0)
      generalize s.readBasic (types.headD 0) = p at hread ⊢
      obtain ⟨s', e | _ | v⟩ := p
      · exact hread
      · exact hread
      · have hrest := ih types.tail hread
        dsimp only
        generalize Reading.skipTypes fuel s' types.tail = p at hrest ⊢
        obtain ⟨s'', e | more⟩ := p <;> exact hrest
    split
    · -- an array, with its elements one after the other
      split
      · exact h
      next k _ =>
      have henter := h.enterContainer array (types.tail.take k)
      generalize s.enterContainer array (types.tail.take k) = p at henter ⊢
      obtain ⟨s', e | _ | _⟩ := p
      · exact henter
      · exact henter
      · have hloop := henter.untilDone (fun h => ih (types.tail.take k) h) fuel
        dsimp only
        generalize Reading.untilDone _ fuel s' = p at hloop ⊢
        obtain ⟨s'', e | _⟩ := p
        · exact hloop
        · exact hloop.thenExit fun h => ih _ h
    split
    · -- a variant, whose contents are read first
      have hpeek := h.peekType
      generalize s.peekType = p at hpeek ⊢
      obtain ⟨s', e | _ | ⟨x, contents⟩⟩ := p
      · exact hpeek
      · exact hpeek
      dsimp only
      split
      · exact hpeek
      have henter := hpeek.enterContainer variant contents
      generalize s'.enterContainer variant contents = p at henter ⊢
      obtain ⟨s'', e | _ | _⟩ := p
      · exact henter
      · exact henter
      · have hinner := ih contents henter
        dsimp only
        generalize Reading.skipTypes fuel s'' contents = p at hinner ⊢
        obtain ⟨t, e | more⟩ := p
        · exact hinner
        · exact hinner.thenExit fun h => ih _ h
    split
    · -- a struct or an entry of a dictionary
      split
      · exact h
      next k _ =>
      split
      · exact h
      have henter := h.enterContainer (if types.headD 0 = structBegin then struct else dictEntry)
        (types.tail.take (k - 2))
      generalize s.enterContainer _ (types.tail.take (k - 2)) = p at henter ⊢
      obtain ⟨s', e | _ | _⟩ := p
      · exact henter
      · exact henter
      · have hinner := ih (types.tail.take (k - 2)) henter
        dsimp only
        generalize Reading.skipTypes fuel s' (types.tail.take (k - 2)) = p at hinner ⊢
        obtain ⟨s'', e | more⟩ := p
        · exact hinner
        · exact hinner.thenExit fun h => ih _ h
    · exact h

theorem Safe.skip (h : Safe m s) (fuel : Nat) (types : Option Bytes) : Safe m (s.skip fuel types).1 := by
  unfold Reading.skip
  split
  · exact h
  split
  · exact h.skipTypes fuel _
  split
  · exact h
  have hlook := h.look h.readable.lastContainer.arraySizeLoads
  dsimp only
  split
  · exact hlook
  split
  · exact hlook
  · exact hlook.skipTypes fuel _

theorem Safe.rewind (h : Safe m s) (complete : Bool) : Safe m (s.rewind complete).1 := by
  unfold Reading.rewind
  split
  · exact h
  cases complete with
  | true => exact h.withMessage h.readable.rewind
  | false => exact h.withMessage h.readable.rewindContainer

end Safe

/-! ## Calls that fail -/

section Failure

variable {m m' : BusMessage} {s s' : Reading} {e : Errno}

theorem setLastContainer_lastContainer (m : BusMessage) : m.setLastContainer m.lastContainer = m := by
  obtain ⟨⟩ := m
  rename_i containers _ _ _ _ _
  cases containers with
  | nil | cons c cs => rfl

/-- What was entered is left again: the position and the index are what they were. -/
theorem quitContainer_advance (m : BusMessage) (rindex rindex' n : Nat) (c : Container) (cs : List Container)
    (hcs : cs = ({ m with rindex }.advance n).containers) :
    ({ { m with rindex }.advance n with rindex := rindex', containers := c :: cs } : BusMessage).quitContainer
      m.rindex m.lastContainer.index = m := by
  subst hcs
  unfold advance
  dsimp only
  split
  · exact setLastContainer_lastContainer m
  · obtain ⟨⟩ := m
    rename_i containers _ _ _ _ _ _
    cases containers with
    | nil | cons c cs => rfl

theorem enterArray_eq_advance {contents : Bytes} {q : Nat × Nat} (h : m.enterArray contents = .ok (m', q)) :
    ∃ rindex n, m' = { m with rindex }.advance n := by
  unfold enterArray at h
  dsimp only at h
  split at h
  · cases h
  split at h
  · cases h
  split at h
  · cases h
  split at h
  · cases h
  split at h
  · cases h
  split at h
  · cases h
  split at h
  · cases h
  split at h
  · cases h
  cases h
  exact ⟨_, _, rfl⟩

/-- An array that was entered is left again. -/
theorem quitContainer_enterArray {contents : Bytes} (h : m.enterContainer array contents = (m', .ok true))
    (rindex : Nat) : ({ m' with rindex } : BusMessage).quitContainer m.rindex m.lastContainer.index = m := by
  unfold BusMessage.enterContainer at h
  split at h
  · cases h
  split at h
  · cases h
  split at h
  · cases h
  split at h
  · cases h
  split at h
  · cases h
  · cases h
  next m₁ a hkind =>
  cases h
  rw [enterKind, if_pos rfl] at hkind
  split at hkind
  · cases hkind
  next hin =>
  cases hkind
  obtain ⟨r, n, rfl⟩ := enterArray_eq_advance hin
  exact quitContainer_advance m r rindex n _ _ rfl

theorem readBasic_error {type : UInt8} (h : (m.readBasic type).2 = .error e) : (m.readBasic type).1 = m := by
  unfold BusMessage.readBasic at h ⊢
  split
  · rfl
  next h₁ =>
  rw [if_neg h₁] at h
  split
  · rfl
  next h₂ =>
  rw [if_neg h₂] at h
  split
  · rfl
  next h₃ =>
  rw [if_neg h₃] at h
  split
  · rfl
  next h₄ =>
  rw [if_neg h₄] at h
  split
  · rfl
  next h₅ =>
  rw [if_neg h₅] at h
  cases hread : m.basicRead type with
  | error e => rfl
  | ok p =>
    rw [hread] at h
    cases h

theorem enterContainer_error {type : UInt8} {contents : Bytes}
    (h : (m.enterContainer type contents).2 = .error e) : (m.enterContainer type contents).1 = m := by
  unfold BusMessage.enterContainer at h ⊢
  split
  · rfl
  next h₁ =>
  rw [if_neg h₁] at h
  split
  · rfl
  next h₂ =>
  rw [if_neg h₂] at h
  split
  · rfl
  next h₃ =>
  rw [if_neg h₃] at h
  split
  · rfl
  next h₄ =>
  rw [if_neg h₄] at h
  split
  · rfl
  · rfl
  · next hkind =>
    rw [hkind] at h
    cases h

theorem exitContainer_error (h : m.exitContainer.2 = .error e) : m.exitContainer.1 = m := by
  unfold BusMessage.exitContainer at h ⊢
  split
  · rfl
  next h₁ =>
  rw [if_neg h₁] at h
  split
  · rfl
  next c cs hcs =>
  rw [hcs] at h
  dsimp only at h
  split
  · rfl
  next h₂ =>
  rw [if_neg h₂] at h
  split
  · rfl
  next h₃ =>
  rw [if_neg h₃] at h
  cases h

theorem enterPeeked_error {type : UInt8} {contents : Option Bytes}
    (h : s.enterPeeked type contents = some (s', .error e)) : s'.m = s.m := by
  unfold Reading.enterPeeked at h
  split at h
  · cases h
    rfl
  split at h
  · split at h
    · cases h
      rfl
    · obtain ⟨hs, hr⟩ := Prod.mk.inj (Option.some.inj h)
      rw [← hs]
      exact enterContainer_error hr
  split at h
  · next heq =>
    obtain ⟨rfl, -⟩ := Prod.mk.inj heq
    cases h
    rfl
  · next heq =>
    obtain ⟨rfl, -⟩ := Prod.mk.inj heq
    split at h
    · cases h
      rfl
    split at h
    · cases h
      rfl
    split at h
    · cases h
      rfl
    · cases h
  · next heq =>
    obtain ⟨rfl, -⟩ := Prod.mk.inj heq
    split at h
    · cases h
      rfl
    split at h
    · split at h
      · cases h
        rfl
      · cases h
    · obtain ⟨hs, hr⟩ := Prod.mk.inj (Option.some.inj h)
      rw [← hs]
      exact (enterContainer_error hr).trans rfl

/-- The end of an array that was read, or it is left again. -/
theorem finishArray_spec {before savedIndex : Nat} (hs : Safe m s') (hm : Keeps m m')
    (hquit : s'.m.quitContainer before savedIndex = m') (bytes : Bytes) :
    Safe m (s'.finishArray before savedIndex bytes).1 ∧
      ∀ e, (s'.finishArray before savedIndex bytes).2 = .error e →
        (s'.finishArray before savedIndex bytes).1.m = m' := by
  have hexit := hs.exitContainer
  unfold finishArray
  split
  · next s₁ e heq =>
    have hsame : s₁.m = s'.m := by
      have herror : s'.m.exitContainer.2 = .error e := congrArg Prod.snd heq
      have hm₁ : s'.m.exitContainer.1 = s₁.m := congrArg (fun p => p.1.m) heq
      rw [← hm₁]
      exact exitContainer_error herror
    rw [heq] at hexit
    rw [hsame, hquit]
    exact ⟨⟨hm, hexit.loads, hexit.fdIndices⟩, fun _ _ => rfl⟩
  · next s₁ heq =>
    rw [heq] at hexit
    refine ⟨hexit, fun e he => ?_⟩
    cases he

theorem readArray_spec (native : Endian) (h : Safe m s) (type : UInt8) :
    Safe m (s.readArray native type).1 ∧
      ∀ e, (s.readArray native type).2 = .error e → (s.readArray native type).1.m = s.m := by
  unfold readArray
  split
  · exact ⟨h, fun _ _ => rfl⟩
  split
  · exact ⟨h, fun _ _ => rfl⟩
  split
  · exact ⟨h, fun _ _ => rfl⟩
  have henter := h.enterContainer array [type]
  dsimp only
  split
  · next s₁ e heq =>
    rw [heq] at henter
    refine ⟨henter, fun _ _ => ?_⟩
    have hm₁ : (s.m.enterContainer array [type]).1 = s₁.m := congrArg (fun p => p.1.m) heq
    rw [← hm₁]
    exact enterContainer_error (congrArg Prod.snd heq)
  · next heq =>
    rw [heq] at henter
    refine ⟨henter, fun e he => ?_⟩
    cases he
  · next s₁ heq =>
    rw [heq] at henter
    have hm₁ : (s.m.enterContainer array [type]).1 = s₁.m := congrArg (fun p => p.1.m) heq
    have hr : (s.m.enterContainer array [type]).2 = .ok true := congrArg Prod.snd heq
    have hentered : s.m.enterContainer array [type] = (s₁.m, .ok true) := Prod.ext hm₁ hr
    have hlook := henter.look henter.readable.lastContainer.arraySizeLoads
    split
    · exact finishArray_spec hlook h.keeps (quitContainer_enterArray hentered s₁.m.rindex) _
    have hpadding := hlook.look (peekBodyLoads_inBody s₁.m s₁.m.rindex ((getAlignment type).getD 1)
      (s₁.m.arraySizeOf s₁.m.lastContainer))
    split
    · refine ⟨⟨?_, hpadding.loads, hpadding.fdIndices⟩, fun _ _ => ?_⟩
      · exact (quitContainer_enterArray hentered s₁.m.rindex).symm ▸ h.keeps
      · exact quitContainer_enterArray hentered s₁.m.rindex
    · next rindex q hpeek =>
      obtain ⟨hle, hin⟩ := peekBody_inBody hpeek
      have hread := hlook.look (forall_mem_append.mpr ⟨peekBodyLoads_inBody s₁.m s₁.m.rindex
        ((getAlignment type).getD 1) (s₁.m.arraySizeOf s₁.m.lastContainer), forall_mem_singleton.mpr hin⟩)
      exact finishArray_spec (hread.seek hle) h.keeps (quitContainer_enterArray hentered rindex) _

end Failure

/-! ## Any sequence of calls -/

/-- A container is entered whose contents are not given, and what comes next is a basic value that is not
    ruled out before. -/
def EntersBasic (m : BusMessage) (c : ReadCall) : Prop :=
  ∃ type t contents, c = .enterContainer type none ∧ m.sealed = true ∧
    m.peekType = .ok (some (t, contents)) ∧ isBasic t = true ∧ (type = 0 ∨ type = t) ∧
    m.containers.length < busContainerDepth

/-- The calls that fail as a whole. -/
def Atomic : ReadCall → Prop
  | .readBasic _ | .enterContainer _ _ | .exitContainer | .peekType | .readArray _ => True
  | .skip _ _ | .rewind _ => False

section Calls

variable {m : BusMessage} {s s' : Reading} {native : Endian} {c : ReadCall}

/-- Exactly these calls do not return. -/
theorem enterPeeked_eq_none_iff {type : UInt8} {contents : Option Bytes} :
    s.enterPeeked type contents = none ↔ EntersBasic s.m (.enterContainer type contents) := by
  constructor
  · intro h
    unfold enterPeeked at h
    split at h
    · cases h
    next hsealed =>
    split at h
    · split at h
      · cases h
      · cases h
    split at h
    · cases h
    · split at h
      · cases h
      split at h
      · cases h
      split at h
      · cases h
      · cases h
    · next t contents heq =>
      obtain ⟨rfl, hpeek⟩ := Prod.mk.inj heq
      split at h
      · cases h
      next htype =>
      split at h
      · next hbasic =>
        split at h
        · cases h
        · next hdepth =>
          refine ⟨type, t, contents, rfl, by simpa using hsealed, hpeek, hbasic, ?_, Nat.lt_of_not_le hdepth⟩
          by_contra hnot
          exact htype (not_or.mp hnot)
      · cases h
  · rintro ⟨type', t, contents', hcall, hsealed, hpeek, hbasic, htype, hdepth⟩
    obtain ⟨rfl, rfl⟩ := ReadCall.enterContainer.inj hcall
    unfold enterPeeked
    rw [hsealed, if_neg (by decide)]
    unfold Reading.peekType
    rw [hpeek]
    dsimp only
    rw [if_neg, if_pos hbasic]
    · exact if_neg (Nat.not_le.mpr hdepth)
    · rintro ⟨h0, ht⟩
      exact htype.elim h0 ht

/-- A call returns, nothing outside the body was looked at, and if it fails everything is as before. -/
def Harmless (native : Endian) (m : BusMessage) (s : Reading) (c : ReadCall) : Prop :=
  ∃ s' r, s.call native c = some (s', r) ∧ s'.m.rindex ≤ m.userBodySize ∧
    (∀ l ∈ s'.loads, InBody m.parts l) ∧ (∀ j ∈ s'.fdIndices, j < m.fds.length) ∧
    (Atomic c → ∀ e, r = .error e → s'.m = s.m)

theorem Safe.call (h : Safe m s) {r : Result Bool} (hr : s.call native c = some (s', r)) : Safe m s' := by
  cases c with
  | readBasic type =>
    cases hr
    exact h.readBasic type
  | enterContainer type contents => exact h.enterPeeked hr
  | exitContainer =>
    cases hr
    exact h.exitContainer
  | peekType =>
    cases hr
    exact h.peekType
  | skip fuel types =>
    obtain ⟨rfl, -⟩ := Prod.mk.inj (Option.some.inj hr)
    exact h.skip fuel types
  | rewind complete =>
    obtain ⟨rfl, -⟩ := Prod.mk.inj (Option.some.inj hr)
    exact h.rewind complete
  | readArray type =>
    cases hr
    exact (readArray_spec native h type).1

theorem error_of_map {α β : Type} {f : α → β} {r : Result α} {e : Errno} (h : r.map f = .error e) : r = .error e := by
  cases r with
  | error e' =>
    cases h
    rfl
  | ok a => cases h

theorem Safe.call_error (h : Safe m s) {e : Errno} (hc : Atomic c) (hr : s.call native c = some (s', .error e)) :
    s'.m = s.m := by
  cases c with
  | readBasic type =>
    obtain ⟨rfl, herror⟩ := Prod.mk.inj (Option.some.inj hr)
    exact readBasic_error (error_of_map herror)
  | enterContainer type contents => exact enterPeeked_error hr
  | exitContainer =>
    obtain ⟨rfl, herror⟩ := Prod.mk.inj (Option.some.inj hr)
    exact exitContainer_error (error_of_map herror)
  | peekType =>
    obtain ⟨rfl, -⟩ := Prod.mk.inj (Option.some.inj hr)
    rfl
  | skip fuel types | rewind complete => exact absurd hc id
  | readArray type =>
    obtain ⟨rfl, herror⟩ := Prod.mk.inj (Option.some.inj hr)
    exact (readArray_spec native h type).2 e (error_of_map herror)

theorem Safe.harmless_iff (h : Safe m s) : Harmless native m s c ↔ ¬ EntersBasic s.m c := by
  constructor
  · rintro ⟨s', r, hr, -⟩ hbasic
    obtain ⟨type, t, contents, rfl, -⟩ := id hbasic
    have hnone := (enterPeeked_eq_none_iff).mpr hbasic
    rw [Reading.call, hnone] at hr
    cases hr
  · intro hbasic
    cases hr : s.call native c with
    | none =>
      cases c with
      | enterContainer type contents => exact absurd ((enterPeeked_eq_none_iff).mp hr) hbasic
      | readBasic type | exitContainer | peekType | skip fuel types | rewind complete | readArray type =>
        cases hr
    | some p =>
      obtain ⟨s', r⟩ := p
      have hsafe := h.call hr
      refine ⟨s', r, hr, ?_, hsafe.loads, hsafe.fdIndices, fun hc e he => ?_⟩
      · rw [← hsafe.keeps.size]
        exact hsafe.readable.rindex
      · subst he
        exact h.call_error hc hr

end Calls

/-- A message that came in can be read. -/
theorem readable_fromMalloc {buffer : Bytes} {fds : List Int} {m : BusMessage}
    (h : BusMessage.fromMalloc buffer fds = .ok m) : Readable m := by
  refine fromMalloc_invariant (P := fun m => Readable m ∧ m.rootContainer.index = 0) (Q := Readable) ?_ ?_ ?_ ?_ ?_ h
  · rintro m t f ⟨hm, hindex⟩
    cases f <;> exact ⟨⟨hm.rindex, hm.root, hm.containers⟩, hindex⟩
  · rintro m t ⟨hm, hindex⟩
    refine ⟨⟨hm.rindex, ⟨?_, hm.root.begin, hm.root.arraySize⟩, hm.containers⟩, hindex⟩
    rw [hindex]
    exact Nat.zero_le _
  · rintro m n ⟨hm, hindex⟩
    exact ⟨⟨hm.rindex, hm.root, hm.containers⟩, hindex⟩
  · rintro m ⟨hm, -⟩
    have hread := (hm.readBasic string).readable
    unfold readErrorMessage
    split
    · split
      · next heq =>
        rw [heq] at hread
        exact ⟨hread.rindex, hread.root, hread.containers⟩
      · next heq =>
        rw [heq] at hread
        exact hread
    · exact hm
  · intro m hm parts
    obtain ⟨-, hrindex, hcontainers, hroot⟩ := fromHeader_eq_ok hm
    refine ⟨⟨?_, ?_, fun c hc => ?_⟩, congrArg Container.index hroot⟩
    · change m.rindex ≤ m.bodySize
      omega
    · rw [hroot]
      exact ⟨Nat.zero_le _, Nat.zero_le _, fun harray : (0 : UInt8) = array => absurd harray (by decide)⟩
    · rw [hcontainers] at hc
      exact absurd hc not_mem_nil

/-- At every point of every sequence of calls on a message that came in, a call is harmless exactly if it does
    not enter a basic value as a container. -/
theorem reading_harmless_iff (native : Endian) {buffer : Bytes} {fds : List Int} {m : BusMessage}
    (hm : BusMessage.fromMalloc buffer fds = .ok m) {calls : List ReadCall} {s : Reading}
    (hrun : Run (Step native) (start m) calls s) (c : ReadCall) :
    Harmless native m s c ↔ ¬ EntersBasic s.m c := by
  have hsafe : Safe m s := hrun.invariant (safe_start (readable_fromMalloc hm)) fun h hstep =>
    h.call hstep.choose_spec
  exact hsafe.harmless_iff

/-- A reply that holds a byte. -/
def sampleReply : Bytes :=
  [108, 2, 0, 1, 1, 0, 0, 0, 1, 0, 0, 0, 15, 0, 0, 0] ++ [5, 1, 117, 0, 1, 0, 0, 0] ++
    [8, 1, 103, 0, 1, 121, 0] ++ [0] ++ [7]

theorem exists_sampleReply {p : BusMessage → Bool} (h : (fromMalloc sampleReply []).toOption.any p = true) :
    ∃ m, fromMalloc sampleReply [] = .ok m ∧ p m = true := by
  cases hm : fromMalloc sampleReply [] with
  | error e =>
    rw [hm] at h
    cases h
  | ok m =>
    rw [hm] at h
    exact ⟨m, rfl, h⟩

/-- The byte is read; it is refused as a number, and stays where it is. -/
theorem reading_harmless_byte :
    ∃ m s, BusMessage.fromMalloc sampleReply [] = .ok m ∧ Run (Step .little) (start m) [.peekType] s ∧
      (s.readBasic byte).2 = .ok (some (.num byte 7)) ∧ Harmless .little m s (.readBasic byte) ∧
      (s.readBasic uint32).2 = .error Errno.ENXIO ∧ Harmless .little m s (.readBasic uint32) := by
  obtain ⟨m, hm, hp⟩ := exists_sampleReply (p := fun m =>
    decide (((start m).peekType.1.readBasic byte).2 = .ok (some (.num byte 7)) ∧
      ((start m).peekType.1.readBasic uint32).2 = .error Errno.ENXIO)) (by decide)
  obtain ⟨hbyte, hnumber⟩ := of_decide_eq_true hp
  have hrun : Run (Step .little) (start m) [.peekType] (start m).peekType.1 := .single ⟨_, rfl⟩
  have hbasic : ∀ type, ¬ EntersBasic (start m).peekType.1.m (.readBasic type) := by
    rintro type ⟨_, t, contents, hcall, -⟩
    cases hcall
  exact ⟨m, _, hm, hrun, hbyte, (reading_harmless_iff .little hm hrun _).mpr (hbasic byte), hnumber,
    (reading_harmless_iff .little hm hrun _).mpr (hbasic uint32)⟩

/-- Whatever comes next is to be entered. -/
theorem reading_not_harmless :
    ∃ m, BusMessage.fromMalloc sampleReply [] = .ok m ∧
      (start m).call .little (.enterContainer 0 none) = none := by
  obtain ⟨m, hm, hp⟩ := exists_sampleReply (p := fun m => (start m).call .little (.enterContainer 0 none) == none)
    (by decide)
  exact ⟨m, hm, beq_iff_eq.mp hp⟩

end Reading

end Elogind
