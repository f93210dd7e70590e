/-
  Elogind.Bus.ParseFields

  What the parser of the header makes of well-formed fields: it takes them over one after the other,
  and leaves out those whose code it does not know, as long as it can skip their values.
-/

import Elogind.Bus.SkipFields

namespace Elogind

open BusType Lib List Values

/-! ## Header fields and their bytes -/

/-- A header field: a code, and a variant with one value. -/
structure Field where
  code : UInt8
  value : Values
  deriving DecidableEq, Repr

namespace Field

def signature (f : Field) : Bytes := (Values.types f.value).flatten

/-- The field holds one value of a single type. -/
structure WellFormed (f : Field) : Prop where
  typed : Values.WellTyped f.value
  one : Values.types f.value = [f.signature]
  single : signatureIsSingle f.signature false = true

/-- The fields as the elements of an array of structures, which they are in a message. -/
def header : List Field → Values
  | [] => .nil
  | f :: fs =>
    .node ⟨struct, [byte, variant]⟩
      (.leaf (.num byte f.code.toNat) (.node ⟨variant, f.signature⟩ f.value .nil)) (header fs)

/-- The code is none of those that the parser knows, and not the invalid one. -/
def Unknown (f : Field) : Prop :=
  f.code ≠ 0 ∧ TextField.ofCode f.code = none ∧ f.code ≠ HeaderField.signature ∧
    f.code ≠ HeaderField.replySerial ∧ f.code ≠ HeaderField.unixFds

instance decidableUnknown (f : Field) : Decidable f.Unknown := inferInstanceAs (Decidable (_ ∧ _))

/-- The walk of the parser gets past the variant. -/
def Skippable (f : Field) : Prop := Values.Skippable (.node ⟨variant, f.signature⟩ f.value .nil)

theorem skippable_iff {f : Field} : f.Skippable ↔ f.signature.length ≤ 254 ∧ Values.Skippable f.value := by
  rw [Skippable, Values.Skippable]
  simp +decide

/-- Where the value of a field starts. -/
def start (off : Nat) (f : Field) : Nat := alignTo off 8 + 1 + (f.signature.length + 2)

/-- What stands before the value of a field. -/
def opening (off : Nat) (f : Field) : Bytes :=
  padding off 8 ++ [f.code] ++ (UInt8.ofNat f.signature.length :: f.signature ++ [0])

theorem length_opening (off : Nat) (f : Field) : off + (f.opening off).length = f.start off := by
  have hle : off ≤ alignTo off 8 := le_alignTo (by decide)
  unfold opening start
  simp only [length_append, length_cons, length_nil, length_padding]
  omega

theorem wire_header_cons (e : Endian) (off : Nat) (f : Field) (fs : List Field) :
    Values.wire e off (header (f :: fs)) =
      f.opening off ++ Values.wire e (f.start off) f.value ++
        Values.wire e (f.start off + (Values.wire e (f.start off) f.value).length) (header fs) := by
  have hcode : ∀ off, (Basic.num byte f.code.toNat).wire e off = [f.code] := by
    intro off
    rw [Basic.wire, show (Basic.num byte f.code.toNat).align = 1 from rfl, padding_one]
    have hbyte : UInt8.ofNat f.code.toNat = f.code := by simp
    cases e <;> simp [Basic.bytes, getSize, Endian.octets, littleOctets, hbyte]
  have hstruct : ∀ size, Kind.opening e off ⟨struct, [byte, variant]⟩ size = padding off 8 := fun _ => rfl
  have hstruct' : Kind.openingLength off ⟨struct, [byte, variant]⟩ = (padding off 8).length := rfl
  have hvariant : ∀ off size, Kind.opening e off ⟨variant, f.signature⟩ size =
      UInt8.ofNat f.signature.length :: f.signature ++ [0] := fun _ _ => rfl
  have hvariant' : ∀ off, Kind.openingLength off ⟨variant, f.signature⟩ = f.signature.length + 2 := by
    intro off
    rw [← Kind.length_opening e off _ 0, hvariant]
    simp
  have hstart : off + (padding off 8).length + 1 + (f.signature.length + 2) = f.start off := by
    rw [← length_opening]
    unfold opening
    simp only [length_append, length_cons, length_nil]
    omega
  have hrest : ∀ n, off + (padding off 8).length + (1 + (f.signature.length + 1 + (1 + n))) =
      f.start off + n := by
    intro n
    omega
  simp only [header, wire, hcode, hstruct, hstruct', hvariant, hvariant', hstart, append_nil,
    length_cons, length_nil, Nat.zero_add, opening, append_assoc, length_append, hrest]

theorem wire_header_append (e : Endian) (off : Nat) (fs gs : List Field) :
    Values.wire e off (header (fs ++ gs)) =
      Values.wire e off (header fs) ++
        Values.wire e (off + (Values.wire e off (header fs)).length) (header gs) := by
  induction fs generalizing off with
  | nil => rfl
  | cons f fs ih =>
    have hlen := f.length_opening off
    rw [cons_append, wire_header_cons, wire_header_cons, ih, ← append_assoc]
    simp only [length_append, ← Nat.add_assoc, hlen]

end Field

/-! ## What a field stands for -/

namespace FieldsState

/-- A field that holds a text and may stand in the header once. -/
def applyText (st : FieldsState) (t : TextField) (f : Field) : Result FieldsState :=
  if (t.get st.m).isSome then .error Errno.EBADMSG
  else if f.signature ≠ [t.type] then .error Errno.EBADMSG
  else
    match f.value with
    | .leaf (.text _ s) _ =>
      if t.validate s then .ok { st with m := t.set st.m s } else .error Errno.EBADMSG
    | _ => .error Errno.EBADMSG

/-- A field that holds a number. -/
def applyNumber (f : Field) (present : Bool) (take : Nat → Result FieldsState) : Result FieldsState :=
  if present then .error Errno.EBADMSG
  else if f.signature ≠ [uint32] then .error Errno.EBADMSG
  else
    match f.value with
    | .leaf (.num _ n) _ => take n
    | _ => .error Errno.EBADMSG

/-- The fields that hold something else; those that are not known change nothing. -/
def applyOther (st : FieldsState) (f : Field) : Result FieldsState :=
  let m := st.m
  if f.code = HeaderField.signature then
    if st.signatureSet then .error Errno.EBADMSG
    else if f.signature ≠ [signature] then .error Errno.EBADMSG
    else
      match f.value with
      | .leaf (.text _ s) _ =>
        if s.length > 254 then .error Errno.EBADMSG
        else .ok { st with
          m := { m with rootContainer := { m.rootContainer with signature := s } }, signatureSet := true }
      | _ => .error Errno.EBADMSG
  else if f.code = HeaderField.replySerial then
    applyNumber f (m.replyCookie ≠ 0) fun n =>
      if n = 0 then .error Errno.EBADMSG else .ok { st with m := { m with replyCookie := n } }
  else if f.code = HeaderField.unixFds then
    applyNumber f st.unixFds.isSome fun n => .ok { st with unixFds := some n }
  else .ok st

/-- The parser's state after a field, as the field's value says it. -/
def applyField (st : FieldsState) (f : Field) : Result FieldsState :=
  if f.signature.length > 254 then .error Errno.EBADMSG
  else if f.code = 0 then .error Errno.EBADMSG
  else
    match TextField.ofCode f.code with
    | some t => st.applyText t f
    | none => st.applyOther f

end FieldsState

namespace Field

variable {f : Field}

theorem WellFormed.first (hf : f.WellFormed) : f.value.first = f.value := by
  have hone := hf.one
  generalize f.value = v at hone
  cases v with
  | nil => rfl
  | leaf b vs | node k ms vs =>
    rw [Forest.first, eq_nil_of_types (cons.inj hone).2]

theorem WellFormed.ne_nil (hf : f.WellFormed) : f.value ≠ .nil := by
  intro h
  have hone := hf.one
  rw [h] at hone
  cases hone

/-- A field with a basic type holds a basic value. -/
theorem WellFormed.eq_leaf (hf : f.WellFormed) {type : UInt8} (hsig : f.signature = [type])
    (htype : isBasic type = true) : ∃ b, f.value = .leaf b .nil ∧ b.type = type ∧ b.Valid := by
  have hone := hf.one
  have htyped := hf.typed
  rw [hsig] at hone
  generalize f.value = v at hone htyped
  cases v with
  | nil => cases hone
  | leaf b vs =>
    obtain ⟨hb, hrest⟩ := cons.inj hone
    rw [eq_nil_of_types hrest]
    exact ⟨b, rfl, (cons.inj hb).1, htyped.1⟩
  | node k ms vs =>
    have hk := k.isBasic_signature
    rw [(cons.inj hone).1, headD_cons, htype] at hk
    cases hk

/-- A field with the type of a text holds a text. -/
theorem WellFormed.eq_text (hf : f.WellFormed) {type : UInt8} (hsig : f.signature = [type])
    (htype : type = string ∨ type = objectPath ∨ type = BusType.signature) :
    ∃ s, f.value = .leaf (.text type s) .nil ∧ (Basic.text type s).Valid := by
  have hbasic : isBasic type = true := by rcases htype with rfl | rfl | rfl <;> rfl
  obtain ⟨b, hvalue, rfl, hb⟩ := hf.eq_leaf hsig hbasic
  cases b with
  | num t n =>
    obtain ⟨-, ⟨w, hw, -⟩, -⟩ := hb
    obtain ⟨hstring, hpath, hsignature⟩ := ne_text_of_getSize hw
    rcases htype with h | h | h
    · exact absurd h hstring
    · exact absurd h hpath
    · exact absurd h hsignature
  | text t s => exact ⟨s, hvalue, hb⟩

theorem WellFormed.eq_num (hf : f.WellFormed) (hsig : f.signature = [uint32]) :
    ∃ n, f.value = .leaf (.num uint32 n) .nil ∧ n < 2 ^ 32 := by
  obtain ⟨b, hvalue, htype, hb⟩ := hf.eq_leaf hsig rfl
  cases b with
  | num t n =>
    obtain rfl : t = uint32 := htype
    obtain ⟨-, ⟨w, hw, hn⟩, -⟩ := hb
    obtain rfl : w = 4 := (Option.some.inj hw).symm
    exact ⟨n, hvalue, hn⟩
  | text t s =>
    obtain ⟨-, -, h⟩ := hb
    obtain rfl : t = uint32 := htype
    exact absurd h (by simp +decide)

end Field

/-! ## The parser on well-formed fields -/

namespace FieldsState

variable {A B : Bytes} {f : Field}

theorem parseText_append (st : FieldsState) (t : TextField) (hf : f.WellFormed) :
    st.parseText (A ++ Values.wire st.m.endian A.length f.value ++ B) t A.length f.signature =
      (st.applyText t f).map fun st' =>
        (A.length + (Values.wire st.m.endian A.length f.value).length, st') := by
  have htype : t.type = string ∨ t.type = objectPath := by
    cases t with
    | path => exact .inr rfl
    | _ => exact .inl rfl
  unfold parseText applyText
  split
  · rfl
  · split
    · rfl
    · next hsig =>
      obtain ⟨s, hvalue, hs⟩ := hf.eq_text (not_not.mp hsig) (by rcases htype with h | h <;> simp [h])
      have hwire : wire st.m.endian A.length f.value =
          padding A.length 4 ++ (st.m.endian.octets 4 s.length ++ s ++ [0]) := by
        rw [hvalue]
        rcases htype with h | h <;> rw [h] <;> exact append_nil _
      rw [hwire, messagePeekFieldString_append _ _ hs.1 hs.2.1, hvalue]
      dsimp only
      cases t.validate s <;> rfl

/-- A number in a field. -/
theorem messagePeekFieldUint32_field (endian : Endian) {n : Nat} (hvalue : f.value = .leaf (.num uint32 n) .nil)
    (hn : n < 2 ^ 32) :
    messagePeekFieldUint32 endian (A ++ Values.wire endian A.length f.value ++ B) A.length =
      .ok (A.length + (Values.wire endian A.length f.value).length, n) := by
  have hwire : wire endian A.length f.value = padding A.length 4 ++ endian.octets 4 n := by
    rw [hvalue]
    exact append_nil _
  rw [hwire]
  exact messagePeekFieldUint32_append endian hn

theorem parseSignature_append (st : FieldsState) (hf : f.WellFormed) (hsig : f.signature = [signature]) :
    ∃ s, f.value = .leaf (.text signature s) .nil ∧
      messagePeekFieldSignature st.m.endian (A ++ Values.wire st.m.endian A.length f.value ++ B) A.length =
        if s.length > 254 then .error Errno.EBADMSG
        else .ok (A.length + (Values.wire st.m.endian A.length f.value).length, s) := by
  obtain ⟨s, hvalue, hs⟩ := hf.eq_text hsig (.inr (.inr rfl))
  have hwire : wire st.m.endian A.length f.value = UInt8.ofNat s.length :: s ++ [0] := by
    rw [hvalue, wire, wire, append_nil, Basic.wire,
      show (Basic.text signature s).align = 1 from rfl, padding_one]
    rfl
  refine ⟨s, hvalue, ?_⟩
  rw [hwire]
  split
  · next hlen => exact messagePeekFieldSignature_long _ hs.1 hlen
  · next hlen =>
    obtain ⟨hzero, -, ⟨h, -⟩ | ⟨h, -⟩ | ⟨-, hvalid⟩⟩ := hs
    · exact absurd h (by decide)
    · exact absurd h (by decide)
    · exact messagePeekFieldSignature_append _ hzero (by omega) hvalid

/-- A field whose code is not known is left out. -/
theorem messageSkipFields_append (endian : Endian) (hf : f.WellFormed) (hskip : f.Skippable)
    (hsize : (Values.wire endian A.length f.value).length ≤ busArrayMaxSize) :
    messageSkipFields endian (A ++ Values.wire endian A.length f.value ++ B) A.length f.signature =
      .ok (A.length + (Values.wire endian A.length f.value).length) := by
  have hwalk := walksFirst endian hf.typed hf.ne_nil A B
    (256 * ((A ++ wire endian A.length f.value ++ B).length + 1)) none
  rw [hf.first, hf.one, headD_cons] at hwalk
  refine (hwalk hsize ?_ rfl).1 (Field.skippable_iff.mp hskip).2
  simp only [length_append]
  omega

theorem parseOther_append (st : FieldsState) (hf : f.WellFormed) (h0 : f.code ≠ 0)
    (htext : TextField.ofCode f.code = none) (hskip : f.Unknown → f.Skippable)
    (hsize : (Values.wire st.m.endian A.length f.value).length ≤ busArrayMaxSize) :
    st.parseOther (A ++ Values.wire st.m.endian A.length f.value ++ B) f.code A.length f.signature =
      (st.applyOther f).map fun st' =>
        (A.length + (Values.wire st.m.endian A.length f.value).length, st') := by
  unfold parseOther applyOther
  by_cases h8 : f.code = HeaderField.signature
  · rw [if_pos h8, if_pos h8]
    by_cases hset : st.signatureSet = true
    · rw [if_pos hset, if_pos hset]
      rfl
    rw [if_neg hset, if_neg hset]
    by_cases hsig : f.signature ≠ [signature]
    · rw [if_pos hsig, if_pos hsig]
      rfl
    obtain ⟨s, hvalue, hpeek⟩ := parseSignature_append (A := A) (B := B) st hf (not_not.mp hsig)
    rw [if_neg hsig, if_neg hsig, hpeek, hvalue]
    dsimp only
    by_cases hlong : s.length > 254
    · rw [if_pos hlong, if_pos hlong]
      rfl
    · rw [if_neg hlong, if_neg hlong]
      rfl
  rw [if_neg h8, if_neg h8]
  by_cases h5 : f.code = HeaderField.replySerial
  · rw [if_pos h5, if_pos h5]
    unfold applyNumber
    by_cases hcookie : st.m.replyCookie ≠ 0
    · rw [if_pos hcookie, if_pos (decide_eq_true hcookie)]
      rfl
    have hdecide : ¬ decide (st.m.replyCookie ≠ 0) = true := fun h => hcookie (of_decide_eq_true h)
    rw [if_neg hcookie, if_neg hdecide]
    by_cases hsig : f.signature ≠ [uint32]
    · rw [if_pos hsig, if_pos hsig]
      rfl
    obtain ⟨n, hvalue, hn⟩ := hf.eq_num (not_not.mp hsig)
    rw [if_neg hsig, if_neg hsig, messagePeekFieldUint32_field _ hvalue hn, hvalue]
    dsimp only
    split <;> rfl
  rw [if_neg h5, if_neg h5]
  by_cases h9 : f.code = HeaderField.unixFds
  · rw [if_pos h9, if_pos h9]
    unfold applyNumber
    by_cases hset : st.unixFds.isSome = true
    · rw [if_pos hset, if_pos hset]
      rfl
    rw [if_neg hset, if_neg hset]
    by_cases hsig : f.signature ≠ [uint32]
    · rw [if_pos hsig, if_pos hsig]
      rfl
    obtain ⟨n, hvalue, hn⟩ := hf.eq_num (not_not.mp hsig)
    rw [if_neg hsig, if_neg hsig, messagePeekFieldUint32_field _ hvalue hn, hvalue]
    rfl
  rw [if_neg h9, if_neg h9]
  rw [messageSkipFields_append _ hf (hskip ⟨h0, htext, h8, h5, h9⟩) hsize]
  rfl

theorem parseField_append (st : FieldsState) (hf : f.WellFormed) (hlen : f.signature.length ≤ 254)
    (hskip : f.Unknown → f.Skippable)
    (hsize : (Values.wire st.m.endian A.length f.value).length ≤ busArrayMaxSize) :
    st.parseField (A ++ Values.wire st.m.endian A.length f.value ++ B) f.code A.length f.signature =
      (st.applyField f).map fun st' =>
        (A.length + (Values.wire st.m.endian A.length f.value).length, st') := by
  unfold parseField applyField
  rw [if_neg (show ¬ f.signature.length > 254 by omega)]
  by_cases h0 : f.code = 0
  · rw [if_pos h0, if_pos h0]
    rfl
  rw [if_neg h0, if_neg h0]
  cases htext : TextField.ofCode f.code with
  | some t => exact parseText_append st t hf
  | none => exact parseOther_append st hf h0 htext hskip hsize

/-- The state with other header bytes. -/
def withFields (fields : Bytes) (st : FieldsState) : FieldsState := { st with m := { st.m with fields } }

/-- A field is applied to the other fields of the message, never to the bytes of the header. -/
theorem applyField_withFields (fields : Bytes) (st : FieldsState) (f : Field) :
    (st.withFields fields).applyField f = (st.applyField f).map (withFields fields) := by
  unfold applyField
  split
  · rfl
  split
  · rfl
  split
  · next t _ =>
    unfold applyText
    have hget : t.get (st.withFields fields).m = t.get st.m := by cases t <;> rfl
    rw [hget]
    split
    · rfl
    split
    · rfl
    split
    · split
      · cases t <;> rfl
      · rfl
    · rfl
  · unfold applyOther applyNumber withFields
    dsimp only
    by_cases h8 : f.code = HeaderField.signature
    · rw [if_pos h8, if_pos h8]
      split
      · rfl
      split
      · rfl
      split
      · split <;> rfl
      · rfl
    rw [if_neg h8, if_neg h8]
    by_cases h5 : f.code = HeaderField.replySerial
    · rw [if_pos h5, if_pos h5]
      split
      · rfl
      split
      · rfl
      split
      · split <;> rfl
      · rfl
    rw [if_neg h5, if_neg h5]
    split
    · split
      · rfl
      split
      · rfl
      split <;> rfl
    · rfl

/-- The byte order of the message stays what it is. -/
theorem endian_applyField {st st' : FieldsState} (h : st.applyField f = .ok st') :
    st'.m.endian = st.m.endian := by
  unfold applyField at h
  split at h
  · cases h
  split at h
  · cases h
  split at h
  · next t _ =>
    unfold applyText at h
    split at h
    · cases h
    split at h
    · cases h
    split at h
    · split at h
      · cases h
        cases t <;> rfl
      · cases h
    · cases h
  · unfold applyOther applyNumber at h
    dsimp only at h
    by_cases h8 : f.code = HeaderField.signature
    · rw [if_pos h8] at h
      split at h
      · cases h
      split at h
      · cases h
      split at h
      · split at h
        · cases h
        · cases h
          rfl
      · cases h
    rw [if_neg h8] at h
    by_cases h5 : f.code = HeaderField.replySerial
    · rw [if_pos h5] at h
      split at h
      · cases h
      split at h
      · cases h
      split at h
      · split at h
        · cases h
        · cases h
          rfl
      · cases h
    rw [if_neg h5] at h
    split at h
    · split at h
      · cases h
      split at h
      · cases h
      split at h
      · cases h
        rfl
      · cases h
    · cases h
      rfl

/-- The parser reads the code and the signature of a field and goes on with its value. -/
theorem parseRound_opening (st : FieldsState) (hf : f.WellFormed) (x : Bytes) :
    st.parseRound (A ++ f.opening A.length ++ x) A.length =
      if f.signature.length > 254 then .error Errno.EBADMSG
      else st.parseField (A ++ f.opening A.length ++ x) f.code (A ++ f.opening A.length).length f.signature := by
  have hopening : A ++ f.opening A.length = A ++ (padding A.length 8 ++ [f.code]) ++
      (UInt8.ofNat f.signature.length :: f.signature ++ [0]) := by
    simp only [Field.opening, append_assoc]
  have hzero := signatureIsSingle_ne_zero hf.single
  have hcode := messagePeekFields_append (A := A)
    (B := UInt8.ofNat f.signature.length :: f.signature ++ [0] ++ x) (show 0 < 8 by decide) [f.code]
  rw [← append_assoc, ← hopening, length_singleton, ← length_append] at hcode
  rw [parseRound, hcode]
  dsimp only
  rw [headD_cons]
  by_cases hlen : f.signature.length > 254
  · rw [if_pos hlen, hopening, messagePeekFieldSignature_long _ hzero hlen]
  · have hvalid : signatureIsValid f.signature true = true := by
      have hseq := IsSequence.cons (signatureIsSingle_true hf.single) .nil
      rw [append_nil] at hseq
      exact (signatureIsValid_iff).mpr ⟨hseq, by unfold maximumSignatureLength; omega⟩
    have hpeek := messagePeekFieldSignature_append (A := A ++ (padding A.length 8 ++ [f.code]))
      (B := x) st.m.endian hzero (by omega) hvalid
    rw [← length_append, ← hopening] at hpeek
    rw [if_neg hlen, hpeek]

/-- The bytes of a field up to the end of its value. -/
theorem length_field (endian : Endian) (A : Bytes) (f : Field) :
    (A ++ f.opening A.length ++ Values.wire endian (f.start A.length) f.value).length =
      f.start A.length + (Values.wire endian (f.start A.length) f.value).length := by
  rw [length_append, length_append, f.length_opening]

/-- One round of the parser on a well-formed field. -/
theorem parseRound_append (st : FieldsState) (hf : f.WellFormed) (hskip : f.Unknown → f.Skippable)
    (hsize : (Values.wire st.m.endian (f.start A.length) f.value).length ≤ busArrayMaxSize) :
    st.parseRound (A ++ f.opening A.length ++ Values.wire st.m.endian (f.start A.length) f.value ++ B) A.length =
      (st.applyField f).map fun st' =>
        ((A ++ f.opening A.length ++ Values.wire st.m.endian (f.start A.length) f.value).length, st') := by
  have hstart : (A ++ f.opening A.length).length = f.start A.length := by
    rw [length_append]
    exact f.length_opening A.length
  rw [append_assoc _ _ B, parseRound_opening st hf, length_field]
  split
  · next hlen =>
    rw [applyField, if_pos hlen]
    rfl
  · next hlen =>
    have hparse := parseField_append (A := A ++ f.opening A.length) (B := B) st hf (by omega) hskip
    rw [hstart] at hparse
    rw [← append_assoc _ _ B, hstart]
    exact hparse hsize

/-- The parser takes over well-formed fields one after the other. -/
theorem parseLoop_header {fs : List Field} (hfs : ∀ f ∈ fs, f.WellFormed)
    (hskip : ∀ f ∈ fs, f.Unknown → f.Skippable) (st : FieldsState) {fuel : Nat}
    (hsize : (Values.wire st.m.endian A.length (Field.header fs)).length ≤ busArrayMaxSize)
    (hfuel : (Values.wire st.m.endian A.length (Field.header fs)).length < fuel) :
    parseLoop (A ++ Values.wire st.m.endian A.length (Field.header fs)) fuel st A.length =
      fs.foldlM applyField st := by
  induction fs generalizing A st fuel with
  | nil =>
    obtain ⟨fuel, rfl⟩ := Nat.exists_eq_succ_of_ne_zero (Nat.ne_of_gt (Nat.zero_lt_of_lt hfuel))
    rw [parseLoop, if_pos (by simp [Field.header, wire])]
    rfl
  | cons f fs ih =>
    obtain ⟨fuel, rfl⟩ := Nat.exists_eq_succ_of_ne_zero (Nat.ne_of_gt (Nat.zero_lt_of_lt hfuel))
    rw [Field.wire_header_cons, length_append, length_append] at hsize hfuel
    have hopening : 0 < (f.opening A.length).length := by
      simp only [Field.opening, length_append, length_cons]
      omega
    have hmore : ¬ (A ++ f.opening A.length ++ wire st.m.endian (f.start A.length) f.value ++
        wire st.m.endian (f.start A.length +
          (wire st.m.endian (f.start A.length) f.value).length) (Field.header fs)).length ≤ A.length := by
      simp only [length_append]
      omega
    rw [Field.wire_header_cons, ← append_assoc, ← append_assoc, parseLoop, if_neg hmore,
      parseRound_append st (hfs f (mem_cons_self ..)) (hskip f (mem_cons_self ..)) (by omega),
      foldlM_cons]
    cases happly : st.applyField f with
    | error e => rfl
    | ok st' =>
      rw [← length_field] at hsize hfuel ⊢
      rw [← endian_applyField happly] at hsize hfuel ⊢
      exact ih (fun g hg => hfs g (mem_cons_of_mem f hg))
        (fun g hg => hskip g (mem_cons_of_mem f hg)) st' (by omega) (by omega)

theorem applyField_unknown (st : FieldsState) (hunknown : f.Unknown) (hskip : f.Skippable) :
    st.applyField f = .ok st := by
  obtain ⟨h0, htext, h8, h5, h9⟩ := hunknown
  obtain ⟨hlen, -⟩ := Field.skippable_iff.mp hskip
  rw [applyField, if_neg (by omega), if_neg h0, htext]
  rw [applyOther, if_neg h8, if_neg h5, if_neg h9]

/-- One round of the parser on a field with an unknown code: it gets to the end of the field exactly
    when the value can be skipped. -/
theorem parseRound_unknown (st : FieldsState) (hf : f.WellFormed) (hunknown : f.Unknown)
    (hsize : (Values.wire st.m.endian (f.start A.length) f.value).length ≤ busArrayMaxSize) :
    st.parseRound (A ++ f.opening A.length ++ Values.wire st.m.endian (f.start A.length) f.value ++ B) A.length =
        .ok ((A ++ f.opening A.length ++ Values.wire st.m.endian (f.start A.length) f.value).length, st) ↔
      f.Skippable := by
  constructor
  · intro h
    obtain ⟨h0, htext, h8, h5, h9⟩ := hunknown
    rw [append_assoc _ _ B, parseRound_opening st hf, length_field] at h
    split at h
    · cases h
    · next hlen =>
      refine Field.skippable_iff.mpr ⟨by omega, ?_⟩
      by_contra hnot
      rw [parseField, if_neg h0, htext] at h
      dsimp only at h
      rw [parseOther, if_neg h8, if_neg h5, if_neg h9] at h
      split at h
      · cases h
      · next r hr =>
        have hstart : (A ++ f.opening A.length).length = f.start A.length := by
          rw [length_append]
          exact f.length_opening A.length
        have hwalk := walksFirst st.m.endian hf.typed hf.ne_nil (A ++ f.opening A.length) B
          (256 * ((A ++ f.opening A.length ++ wire st.m.endian (f.start A.length) f.value ++ B).length + 1))
          none
        rw [hf.first, hf.one, headD_cons, hstart] at hwalk
        rw [messageSkipFields, ← append_assoc _ _ B, hstart] at hr
        have hlt := (hwalk hsize (by simp only [length_append]; omega) rfl).2 hnot r hr
        obtain ⟨hr', -⟩ := Prod.mk.inj (Except.ok.inj h)
        omega
  · intro h
    rw [parseRound_append st hf (fun _ => h) hsize, applyField_unknown st hunknown h]
    rfl

theorem foldlM_withFields (fields : Bytes) (fs : List Field) (st : FieldsState) :
    fs.foldlM applyField (st.withFields fields) = (fs.foldlM applyField st).map (withFields fields) := by
  induction fs generalizing st with
  | nil => rfl
  | cons f fs ih =>
    rw [foldlM_cons, foldlM_cons, applyField_withFields]
    cases st.applyField f with
    | error e => rfl
    | ok st' => exact ih st'

/-- Fields with an unknown code change nothing if they can be skipped. -/
theorem foldlM_known {fs : List Field} (hskip : ∀ f ∈ fs, f.Unknown → f.Skippable) (st : FieldsState) :
    fs.foldlM applyField st = (fs.filter fun f => ¬ f.Unknown).foldlM applyField st := by
  induction fs generalizing st with
  | nil => rfl
  | cons f fs ih =>
    have htail := fun g hg => hskip g (mem_cons_of_mem f hg)
    rw [foldlM_cons]
    by_cases hf : f.Unknown
    · have happly := applyField_unknown st hf (hskip f (mem_cons_self ..) hf)
      rw [filter_cons_of_neg (by simpa using hf), happly]
      exact ih htail st
    · rw [filter_cons_of_pos (by simpa using hf), foldlM_cons]
      cases st.applyField f with
      | error e => rfl
      | ok st' => exact ih htail st'

end FieldsState

/-! ## Messages with a field that is not known -/

namespace BusMessage

/-- The message with the given header fields. -/
def withHeader (m : BusMessage) (fs : List Field) : BusMessage :=
  { m with fields := Values.wire m.endian 0 (Field.header fs) }

/-- The fields are well formed and not too long in all, and those that are known make up an acceptable
    header. -/
def WellFormedHeader (m : BusMessage) (fs : List Field) : Prop :=
  (∀ f ∈ fs, f.WellFormed) ∧ (m.withHeader fs).fields.length ≤ busArrayMaxSize ∧
    ∃ st r, (fs.filter fun f => ¬ f.Unknown).foldlM FieldsState.applyField m.fieldsStart = .ok st ∧
      finishFields st = .ok r

theorem readBasic_withFields (m : BusMessage) (fields : Bytes) (type : UInt8) :
    readBasic { m with fields } type = ({ (m.readBasic type).1 with fields }, (m.readBasic type).2) := by
  have hadvance : ∀ m : BusMessage, ({ m with fields } : BusMessage).advance 1 = { m.advance 1 with fields } := by
    intro m
    unfold advance setLastContainer
    dsimp only [lastContainer]
    split
    · rfl
    · cases m.containers <;> rfl
  unfold readBasic
  have hread : basicRead { m with fields } type = m.basicRead type := rfl
  have hsignature : endOfSignature { m with fields } = m.endOfSignature := rfl
  have harray : endOfArray { m with fields } = m.endOfArray := rfl
  have hlast : lastContainer { m with fields } = m.lastContainer := rfl
  rw [hread, hsignature, harray, hlast]
  split
  · rfl
  split
  · rfl
  split
  · rfl
  split
  · rfl
  split
  · rfl
  split
  · rfl
  · next rindex b _ => exact Prod.ext (hadvance { m with rindex }) rfl

theorem readErrorMessage_withFields (m : BusMessage) (fields : Bytes) :
    readErrorMessage { m with fields } = { m.readErrorMessage with fields } := by
  unfold readErrorMessage
  rw [readBasic_withFields]
  split
  · generalize m.readBasic string = r
    obtain ⟨m', r⟩ := r
    cases r with
    | error e => rfl
    | ok b =>
      cases b with
      | none => rfl
      | some b => cases b <;> rfl
  · rfl

theorem finishFields_withFields (fields : Bytes) (st : FieldsState) :
    finishFields (st.withFields fields) = (finishFields st).map fun m => { m with fields } := by
  unfold finishFields FieldsState.withFields
  have hcomplete : fieldsComplete { st.m with fields } = st.m.fieldsComplete := rfl
  have hlocal : claimsLocal { st.m with fields } = st.m.claimsLocal := rfl
  rw [hcomplete, hlocal, readErrorMessage_withFields]
  split
  · rfl
  split
  · rfl
  split <;> rfl

/-- A header whose unknown fields can be skipped is parsed as if it had only the known ones. -/
theorem parseFields_withHeader (m : BusMessage) {fs : List Field} (hfs : ∀ f ∈ fs, f.WellFormed)
    (hskip : ∀ f ∈ fs, f.Unknown → f.Skippable)
    (hsize : (m.withHeader fs).fields.length ≤ busArrayMaxSize) :
    (m.withHeader fs).parseFields =
      match (fs.filter fun f => ¬ f.Unknown).foldlM FieldsState.applyField m.fieldsStart with
      | .error e => .error e
      | .ok st => (finishFields st).map fun r => { r with fields := (m.withHeader fs).fields } := by
  have hloop := FieldsState.parseLoop_header (A := []) hfs hskip (m.withHeader fs).fieldsStart
    hsize (Nat.lt_succ_self _)
  have hstart : (m.withHeader fs).fieldsStart = m.fieldsStart.withFields (m.withHeader fs).fields := rfl
  rw [hstart, FieldsState.foldlM_withFields, FieldsState.foldlM_known hskip, ← hstart] at hloop
  have hparse : (m.withHeader fs).parseFields =
      match ((fs.filter fun f => ¬ f.Unknown).foldlM FieldsState.applyField m.fieldsStart).map
        (FieldsState.withFields (m.withHeader fs).fields) with
      | .error e => .error e
      | .ok st => finishFields st := by
    rw [← hloop]
    rfl
  rw [hparse]
  cases (fs.filter fun f => ¬ f.Unknown).foldlM FieldsState.applyField m.fieldsStart with
  | error e => rfl
  | ok st => exact finishFields_withFields (m.withHeader fs).fields st

/-- A field that is not known is skipped exactly when it is `Skippable`: the walk reaches no structure in
    it, no array with more than one element and no signature that is too long.  If that holds for all such fields, the
    message is parsed as it is without them. -/
theorem unknownField_skipped (m : BusMessage) {pre post : List Field} {f : Field}
    (hmessage : m.WellFormedHeader (pre ++ post)) (hf : f.WellFormed) (hunknown : f.Unknown)
    (hsize : (m.withHeader (pre ++ f :: post)).fields.length ≤ busArrayMaxSize) :
    (∀ st : FieldsState, st.m.endian = m.endian →
      (st.parseRound (m.withHeader (pre ++ f :: post)).fields (m.withHeader pre).fields.length =
        .ok ((m.withHeader (pre ++ [f])).fields.length, st) ↔ f.Skippable)) ∧
    ((∀ g ∈ pre ++ f :: post, g.Unknown → g.Skippable) →
      ∃ r, (m.withHeader (pre ++ post)).parseFields = .ok r ∧
        (m.withHeader (pre ++ f :: post)).parseFields =
          .ok { r with fields := (m.withHeader (pre ++ f :: post)).fields }) := by
  constructor
  · intro st hst
    have hfields : (m.withHeader (pre ++ f :: post)).fields =
        (m.withHeader pre).fields ++ f.opening (m.withHeader pre).fields.length ++
          wire st.m.endian (f.start (m.withHeader pre).fields.length) f.value ++
          wire m.endian (f.start (m.withHeader pre).fields.length +
            (wire m.endian (f.start (m.withHeader pre).fields.length) f.value).length)
            (Field.header post) := by
      simp only [withHeader, Field.wire_header_append, Field.wire_header_cons, hst, Nat.zero_add,
        append_assoc]
    have hend : (m.withHeader (pre ++ [f])).fields =
        (m.withHeader pre).fields ++ f.opening (m.withHeader pre).fields.length ++
          wire st.m.endian (f.start (m.withHeader pre).fields.length) f.value := by
      have hnil : ∀ off, wire m.endian off (Field.header []) = [] := fun _ => rfl
      simp only [withHeader, Field.wire_header_append, Field.wire_header_cons, hst, Nat.zero_add,
        append_assoc, hnil, append_nil]
    have hlen := congrArg length hfields
    simp only [length_append] at hlen
    rw [hfields, hend]
    exact FieldsState.parseRound_unknown st hf hunknown (by omega)
  · intro hskip
    obtain ⟨hfs, hbase, st, r, hfold, hfinish⟩ := hmessage
    have hsub : ∀ g ∈ pre ++ post, g ∈ pre ++ f :: post := by
      intro g hg
      rcases mem_append.mp hg with h | h
      · exact mem_append_left _ h
      · exact mem_append_right _ (mem_cons_of_mem f h)
    have hall : ∀ g ∈ pre ++ f :: post, g.WellFormed := by
      intro g hg
      rcases mem_append.mp hg with h | h
      · exact hfs g (mem_append_left _ h)
      · rcases mem_cons.mp h with rfl | h
        · exact hf
        · exact hfs g (mem_append_right _ h)
    have hknown : (pre ++ f :: post).filter (fun g => ¬ g.Unknown) =
        (pre ++ post).filter (fun g => ¬ g.Unknown) := by
      rw [filter_append, filter_append, filter_cons_of_neg (by simpa using hunknown)]
    refine ⟨{ r with fields := (m.withHeader (pre ++ post)).fields }, ?_, ?_⟩
    · rw [m.parseFields_withHeader hfs (fun g hg => hskip g (hsub g hg)) hbase, hfold]
      dsimp only
      rw [hfinish]
      rfl
    · rw [m.parseFields_withHeader hall hskip hsize, hknown, hfold]
      dsimp only
      rw [hfinish]
      rfl

/-- A signal without a body, and its fields. -/
def sampleSignal : BusMessage := { emptySignal with sealed := true }

def sampleFields : List Field :=
  [⟨HeaderField.path, .leaf (.text objectPath (ascii "/a")) .nil⟩,
    ⟨HeaderField.interface, .leaf (.text string (ascii "a.b")) .nil⟩,
    ⟨HeaderField.member, .leaf (.text string (ascii "m")) .nil⟩]

/-- A field with an unknown code that holds an array of bytes. -/
def bytesField (bytes : Bytes) : Field :=
  ⟨20, .node ⟨array, [byte]⟩ (bytes.foldr (fun c vs => .leaf (.num byte c.toNat) vs) .nil) .nil⟩

theorem wellFormed_bytesField (bytes : Bytes) : (bytesField bytes).WellFormed := by
  have helements : ∀ x ∈ types (bytes.foldr (fun c vs => .leaf (.num byte c.toNat) vs) .nil), x = [byte] := by
    induction bytes with
    | nil => exact fun x hx => absurd hx (not_mem_nil)
    | cons c bytes ih =>
      intro x hx
      rcases mem_cons.mp hx with rfl | hx
      · rfl
      · exact ih x hx
  have htyped : WellTyped (bytes.foldr (fun c vs => .leaf (.num byte c.toNat) vs) .nil) := by
    induction bytes with
    | nil => exact trivial
    | cons c bytes ih =>
      refine ⟨⟨rfl, ⟨1, rfl, c.toNat_lt⟩, fun h => absurd h (by decide)⟩, ih fun x hx => ?_⟩
      exact helements x (mem_cons_of_mem _ hx)
  have hsingle : signatureIsSingle [array, byte] false = true := by decide
  exact ⟨⟨.inl ⟨rfl, by decide, helements⟩, htyped, trivial⟩, rfl, hsingle⟩

theorem wellFormed_sampleFields : sampleSignal.WellFormedHeader sampleFields := by
  refine ⟨?_, by decide, ?_⟩
  · intro f hf
    simp only [sampleFields, mem_cons, not_mem_nil, or_false] at hf
    rcases hf with rfl | rfl | rfl
    · exact ⟨⟨⟨objectPathIsValid_ne_zero (by decide), by decide, .inr (.inl ⟨rfl, by decide⟩)⟩, trivial⟩, rfl,
        by decide⟩
    · exact ⟨⟨⟨interfaceNameIsValid_ne_zero (by decide), by decide, .inl ⟨rfl, by decide⟩⟩, trivial⟩, rfl,
        by decide⟩
    · exact ⟨⟨⟨memberNameIsValid_ne_zero (by decide), by decide, .inl ⟨rfl, by decide⟩⟩, trivial⟩, rfl,
        by decide⟩
  · exact ⟨_, _, rfl, rfl⟩

/-- A single byte is skipped. -/
theorem unknownField_skipped_byte :
    ∃ r, (sampleSignal.withHeader sampleFields).parseFields = .ok r ∧
      (sampleSignal.withHeader (sampleFields ++ [bytesField [7]])).parseFields =
        .ok { r with fields := (sampleSignal.withHeader (sampleFields ++ [bytesField [7]])).fields } := by
  have hmessage : sampleSignal.WellFormedHeader (sampleFields ++ []) := by
    rw [append_nil]
    exact wellFormed_sampleFields
  have hskip : ∀ g ∈ sampleFields ++ [bytesField [7]], g.Unknown → g.Skippable := by
    intro g hg hunknown
    rcases mem_append.mp hg with h | h
    · have hknown : ∀ g ∈ sampleFields, ¬ g.Unknown := by decide
      exact absurd hunknown (hknown g h)
    · rw [mem_singleton.mp h]
      refine Field.skippable_iff.mpr ⟨by decide, .inl ⟨rfl, by decide, ?_⟩⟩
      intro s hs
      cases hs
  have hall := (unknownField_skipped sampleSignal hmessage (wellFormed_bytesField [7]) (by decide) (by decide)).2 hskip
  rwa [append_nil] at hall

/-- Behind its first element the bytes of an array are taken for fields, so that a field which nobody
    knows can bring a sender of its own. -/
theorem unknownField_sets_sender :
    ¬ ∀ (m : BusMessage) (pre post : List Field) (f : Field), m.WellFormedHeader (pre ++ post) →
      f.WellFormed → f.Unknown → (m.withHeader (pre ++ f :: post)).fields.length ≤ busArrayMaxSize →
      ∃ r r', (m.withHeader (pre ++ post)).parseFields = .ok r ∧
        (m.withHeader (pre ++ f :: post)).parseFields = .ok r' ∧ r'.sender = r.sender := by
  intro h
  have hmessage : sampleSignal.WellFormedHeader (sampleFields ++ []) := by
    rw [append_nil]
    exact wellFormed_sampleFields
  obtain ⟨r, r', hr, hr', hsender⟩ := h sampleSignal sampleFields [] (bytesField
      ([1, 0, 0, 0, HeaderField.sender, 1, string, 0, 3, 0, 0, 0] ++ ascii "e.v" ++ [0]))
    hmessage (wellFormed_bytesField _) (by decide) (by decide)
  have hbase : (sampleSignal.withHeader (sampleFields ++ [])).parseFields.map BusMessage.sender = .ok none := rfl
  have hspoofed : (sampleSignal.withHeader (sampleFields ++ [bytesField
      ([1, 0, 0, 0, HeaderField.sender, 1, string, 0, 3, 0, 0, 0] ++ ascii "e.v" ++ [0])])).parseFields.map
      BusMessage.sender = .ok (some (ascii "e.v")) := rfl
  rw [hr] at hbase
  rw [hr'] at hspoofed
  have hnone := (Except.ok.inj hbase).symm.trans (hsender.symm.trans (Except.ok.inj hspoofed))
  cases hnone

end BusMessage

end Elogind
