/-
  Elogind.Bus.Wire

  The values that a D-Bus message carries and the bytes that stand for them.  Every value starts
  at a multiple of its alignment, counted from the start of the body (or of the header fields), so
  that the bytes depend on the position.
-/

import Elogind.Bus.Names
import Elogind.Bus.Signature
import Elogind.Lib.Forest
import Elogind.Lib.Octets

namespace Elogind

open BusType Lib

/-- A value of a basic type: a number of a fixed width, or a text. -/
inductive Basic where
  | num (type : UInt8) (n : Nat)
  | text (type : UInt8) (s : Bytes)
  deriving DecidableEq, Repr

/-- The type of a container, as `sd_bus_message_open_container` takes it, and the types of its
    contents. -/
structure Kind where
  type : UInt8
  contents : Bytes
  deriving DecidableEq, Repr

/-- A sequence of values. -/
abbrev Values := Forest Basic Kind

/-! ## Types -/

namespace Basic

def type : Basic → UInt8
  | num type _ => type
  | text type _ => type

/-- The value is one of its type. -/
def Valid : Basic → Prop
  | num type n =>
    isBasic type = true ∧ (∃ w, getSize type = some w ∧ n < 256 ^ w) ∧ (type = boolean → n ≤ 1)
  | text type s =>
    (∀ c ∈ s, c ≠ 0) ∧ s.length < 2 ^ 32 - 1 ∧
      ((type = string ∧ utf8IsValid s = true) ∨ (type = objectPath ∧ objectPathIsValid s = true) ∨
        (type = signature ∧ signatureIsValid s true = true))

end Basic

namespace Kind

/-- The signature of a container. -/
def signature (k : Kind) : Bytes :=
  if k.type = array then array :: k.contents
  else if k.type = variant then [variant]
  else if k.type = struct then structBegin :: k.contents ++ [structEnd]
  else dictEntryBegin :: k.contents ++ [dictEntryEnd]

/-- A container starts with a code of its own. -/
theorem isBasic_signature (k : Kind) : isBasic (k.signature.headD 0) = false := by
  unfold signature
  split
  · rfl
  · split
    · rfl
    · split <;> rfl

/-- The types that the members of a container may have. -/
def Holds (k : Kind) (types : List Bytes) : Prop :=
  (k.type = array ∧ signatureIsSingle k.contents true = true ∧ ∀ x ∈ types, x = k.contents) ∨
  (k.type = variant ∧ signatureIsSingle k.contents false = true ∧ types = [k.contents]) ∨
  (k.type = struct ∧ signatureIsValid k.contents false = true ∧ types.flatten = k.contents) ∨
  (k.type = dictEntry ∧ signatureIsPair k.contents = true ∧ types.flatten = k.contents)

end Kind

namespace Values

/-- The types of the values of a sequence. -/
def types : Values → List Bytes
  | .nil => []
  | .leaf b vs => [b.type] :: types vs
  | .node k _ vs => k.signature :: types vs

/-- Every container holds what its type says, and every basic value is one of its type. -/
def WellTyped : Values → Prop
  | .nil => True
  | .leaf b vs => b.Valid ∧ WellTyped vs
  | .node k ms vs => k.Holds (types ms) ∧ WellTyped ms ∧ WellTyped vs

end Values

/-! ## Bytes -/

/-- The zeros before a value that starts at a multiple of `align`. -/
def padding (off align : Nat) : Bytes := zeros (alignTo off align - off)

namespace Basic

/-- The boundary at which a value starts. -/
def align (b : Basic) : Nat := (getAlignment b.type).getD 1

/-- The bytes of a value without those before it. -/
def bytes (e : Endian) : Basic → Bytes
  | num type n => e.octets ((getSize type).getD 1) n
  | text type s =>
    if type = signature then UInt8.ofNat s.length :: s ++ [0] else e.octets 4 s.length ++ s ++ [0]

/-- The bytes of a value at a position. -/
def wire (e : Endian) (off : Nat) (b : Basic) : Bytes := padding off b.align ++ b.bytes e

end Basic

namespace Kind

/-- What stands before the members of a container; `size` is the number of their bytes. -/
def opening (e : Endian) (off : Nat) (k : Kind) (size : Nat) : Bytes :=
  if k.type = array then
    let sized := padding off 4 ++ e.octets 4 size
    sized ++ padding (off + sized.length) ((getAlignment (k.contents.headD 0)).getD 1)
  else if k.type = variant then UInt8.ofNat k.contents.length :: k.contents ++ [0]
  else padding off 8

/-- How many bytes stand before the members of a container. -/
def openingLength (off : Nat) (k : Kind) : Nat := (k.opening .little off 0).length

end Kind

namespace Values

/-- The bytes of a sequence of values at a position. -/
def wire (e : Endian) : Nat → Values → Bytes
  | _, .nil => []
  | off, .leaf b vs => b.wire e off ++ wire e (off + (b.wire e off).length) vs
  | off, .node k ms vs =>
    let start := off + k.openingLength off
    let inner := wire e start ms
    k.opening e off inner.length ++ inner ++ wire e (start + inner.length) vs

end Values

/-! ## Lengths -/

@[simp] theorem length_padding (off align : Nat) : (padding off align).length = alignTo off align - off :=
  length_zeros _

theorem getAlignment_pos {c : UInt8} {a : Nat} (h : getAlignment c = some a) : 0 < a := by
  unfold getAlignment at h
  split at h
  · cases h
    decide
  · split at h
    · cases h
      decide
    · split at h
      · cases h
        decide
      · split at h
        · cases h
          decide
        · cases h

theorem getAlignment_getD_pos (c : UInt8) : 0 < (getAlignment c).getD 1 := by
  cases h : getAlignment c with
  | none => exact Nat.one_pos
  | some a => exact getAlignment_pos h

namespace Kind

theorem length_opening (e : Endian) (off : Nat) (k : Kind) (size : Nat) :
    (k.opening e off size).length = k.openingLength off := by
  unfold openingLength opening
  split
  · simp only [List.length_append, length_padding, Endian.length_octets]
  · rfl

end Kind

namespace Values

theorem types_rest (vs : Values) : types vs.rest = (types vs).tail := by
  cases vs <;> rfl

theorem types_ne_nil {vs : Values} (h : vs ≠ .nil) : types vs = (types vs).headD [] :: types vs.rest := by
  cases vs with
  | nil => exact absurd rfl h
  | leaf b vs | node k ms vs => rfl

theorem eq_nil_of_types {vs : Values} (h : types vs = []) : vs = .nil := by
  cases vs with
  | nil => rfl
  | leaf b vs | node k ms vs => cases h

theorem WellTyped.rest {vs : Values} (h : WellTyped vs) : WellTyped vs.rest := by
  cases vs with
  | nil => exact h
  | leaf b vs => exact h.2
  | node k ms vs => exact h.2.2

/-- The bytes of the first value and those of the rest. -/
theorem wire_split (e : Endian) (off : Nat) (vs : Values) :
    wire e off vs = wire e off vs.first ++ wire e (off + (wire e off vs.first).length) vs.rest := by
  cases vs with
  | nil => rfl
  | leaf b vs => simp only [wire, Forest.first, Forest.rest, List.append_nil]
  | node k ms vs =>
    simp only [wire, Forest.first, Forest.rest, List.append_nil, List.length_append, Kind.length_opening]
    rw [Nat.add_assoc]

end Values

/-! ## Values have bytes -/

theorem Basic.length_bytes_pos {b : Basic} (e : Endian) (h : b.Valid) : 0 < (b.bytes e).length := by
  cases b with
  | num type n =>
    obtain ⟨-, ⟨w, hw, hn⟩, -⟩ := h
    have hpos : w ≠ 0 := by
      rintro rfl
      unfold getSize at hw
      split at hw
      · cases hw
      · split at hw
        · cases hw
        · split at hw
          · cases hw
          · split at hw <;> cases hw
    rw [bytes, hw, Option.getD_some, Endian.length_octets]
    omega
  | text type s =>
    rw [bytes]
    split <;> simp

theorem Kind.openingLength_pos (off : Nat) {k : Kind} (h : k.type = array ∨ k.type = variant) :
    2 ≤ k.openingLength off := by
  unfold Kind.openingLength Kind.opening
  rcases h with h | h
  · rw [if_pos h]
    simp only [List.length_append, Endian.length_octets]
    omega
  · rw [if_neg (by rw [h]; decide), if_pos h]
    simp

namespace Values

/-- A sequence that starts with a type which a signature allows has bytes. -/
theorem length_wire_pos (e : Endian) {off : Nat} {vs : Values} (hvs : WellTyped vs) (hne : vs ≠ .nil)
    (hstruct : ∀ r, (types vs).flatten ≠ structBegin :: structEnd :: r) :
    0 < (wire e off vs).length := by
  induction vs generalizing off with
  | nil => exact absurd rfl hne
  | leaf b vs _ =>
    have hpos := Basic.length_bytes_pos e hvs.1
    simp only [wire, Basic.wire, List.length_append]
    omega
  | node k ms vs ihms _ =>
    obtain ⟨hholds, hms, -⟩ := hvs
    simp only [wire, List.length_append, Kind.length_opening]
    have hinner : k.contents ≠ [] → IsSequence false k.contents → (types ms).flatten = k.contents →
        0 < (wire e (off + k.openingLength off) ms).length := by
      intro hcontents hseq hflat
      refine ihms hms ?_ fun r => ?_
      · rintro rfl
        exact hcontents hflat.symm
      · rw [hflat]
        exact hseq.ne_emptyStruct r
    rcases hholds with ⟨ha, -⟩ | ⟨hv, -⟩ | ⟨hs, hvalid, hflat⟩ | ⟨hd, hpair, hflat⟩
    · have hlen := Kind.openingLength_pos off (.inl ha)
      omega
    · have hlen := Kind.openingLength_pos off (.inr hv)
      omega
    · have hcontents : k.contents ≠ [] := by
        intro hnil
        have hsig : k.signature = [structBegin, structEnd] := by
          rw [Kind.signature, hs, hnil]
          rfl
        exact hstruct (types vs).flatten (by rw [types, List.flatten_cons, hsig]; rfl)
      have hpos := hinner hcontents ((signatureIsValid_iff).mp hvalid).1 hflat
      omega
    · obtain ⟨c, y, hcy, -⟩ := (signatureIsPair_iff).mp hpair
      have hpos := hinner (by rw [hcy]; exact List.cons_ne_nil c y) (.of_pair hpair) hflat
      omega

/-- The same for a sequence whose types are all one that may be the elements of an array. -/
theorem length_wire_pos_of_elements (e : Endian) (off : Nat) {vs : Values} {c : Bytes} (hvs : WellTyped vs)
    (hne : vs ≠ .nil) (hc : signatureIsSingle c true = true) (htypes : ∀ x ∈ types vs, x = c) :
    0 < (wire e off vs).length := by
  have hseq : IsSequence true (types vs).flatten := by
    refine ⟨types vs, rfl, fun x hx => ?_⟩
    rw [htypes x hx]
    exact hc
  exact length_wire_pos e hvs hne hseq.ne_emptyStruct

end Values

end Elogind
