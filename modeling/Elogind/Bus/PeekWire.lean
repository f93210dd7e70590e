/-
  Elogind.Bus.PeekWire

  What the readers of the header find where a value stands: the value, and the position after
  it.  The reader of the body does the same on the bytes of the body.
-/

import Elogind.Bus.HeaderFields

namespace Elogind

open BusType Lib List BusMessage

section Peek

variable {A B : Bytes}

/-! ## Bytes behind their padding -/

theorem any_padding (off align : Nat) : (padding off align).any (· ≠ 0) = false := by
  rw [any_eq_false]
  intro c hc
  simp [eq_zero_of_mem_zeros hc]

theorem messagePeekFields_append {align : Nat} (halign : 0 < align) (x : Bytes) :
    messagePeekFields (A ++ (padding A.length align ++ x) ++ B) A.length align x.length =
      .ok (A.length + (padding A.length align ++ x).length, x) := by
  have hle : A.length ≤ alignTo A.length align := le_alignTo halign
  have hpad : ((A ++ (padding A.length align ++ x) ++ B).drop A.length).take
      (alignTo A.length align - A.length) = padding A.length align := by
    rw [append_assoc, drop_left, append_assoc, take_left' (length_padding _ _)]
  have hx : ((A ++ (padding A.length align ++ x) ++ B).drop (alignTo A.length align)).take x.length = x := by
    have hsplit : A ++ (padding A.length align ++ x) ++ B = (A ++ padding A.length align) ++ (x ++ B) := by
      simp only [append_assoc]
    have hlen : (A ++ padding A.length align).length = alignTo A.length align := by
      rw [length_append, length_padding]
      omega
    rw [hsplit, drop_left' hlen, take_left]
  unfold messagePeekFields
  simp only [hpad, any_padding, hx, length_append, length_padding]
  rw [if_neg (by omega), if_neg (by omega), if_neg (by decide)]
  congr 2
  omega

/-- Where a reader gets to, it was inside the bytes, and it only moves on. -/
theorem messagePeekFields_eq_ok {fields q : Bytes} {rindex align nbytes stop : Nat} (halign : 0 < align)
    (h : messagePeekFields fields rindex align nbytes = .ok (stop, q)) :
    stop = alignTo rindex align + nbytes ∧ rindex + nbytes ≤ stop ∧ stop ≤ fields.length ∧
      q = (fields.drop (alignTo rindex align)).take nbytes := by
  have hle : rindex ≤ alignTo rindex align := le_alignTo halign
  unfold messagePeekFields at h
  dsimp only at h
  split at h
  · cases h
  · split at h
    · cases h
    · split at h
      · cases h
      · cases h
        exact ⟨rfl, by omega, by omega, rfl⟩

theorem messagePeekFieldUint32_append (endian : Endian) {n : Nat} (hn : n < 2 ^ 32) :
    messagePeekFieldUint32 endian (A ++ (padding A.length 4 ++ endian.octets 4 n) ++ B) A.length =
      .ok (A.length + (padding A.length 4 ++ endian.octets 4 n).length, n) := by
  have hpeek := messagePeekFields_append (A := A) (B := B) (show 0 < 4 by decide) (endian.octets 4 n)
  rw [Endian.length_octets] at hpeek
  unfold messagePeekFieldUint32
  rw [hpeek]
  dsimp only
  rw [Endian.value_octets_of_lt endian hn]

/-! ## Texts -/

theorem padding_one (off : Nat) : padding off 1 = [] := by
  rw [padding, alignTo_one, Nat.sub_self, zeros_zero]

/-- A text without zeros is found whole. -/
theorem validateText_append {validate : Bytes → Bool} {s : Bytes} (hs : ∀ c ∈ s, c ≠ 0) :
    BusMessage.validateText validate (s ++ [0]) s.length = validate s := by
  have hzero : s.contains 0 = false := by
    rw [contains_eq_mem, decide_eq_false_iff_not]
    exact fun h => hs 0 h rfl
  have hend : (s ++ [0]).getD s.length 1 = 0 := by simp [getD]
  unfold validateText validateNul
  rw [take_left, hzero, hend]
  simp

theorem messagePeekFieldText_append (validate : Bytes → Bool) {s : Bytes} (hs : ∀ c ∈ s, c ≠ 0) :
    messagePeekFieldText (A ++ (s ++ [0]) ++ B) validate A.length s.length =
      if validate s then .ok (A.length + (s ++ [0]).length, s) else .error Errno.EBADMSG := by
  have hpeek := messagePeekFields_append (A := A) (B := B) Nat.one_pos (s ++ [0])
  rw [padding_one, nil_append, length_append, length_singleton] at hpeek
  unfold messagePeekFieldText
  rw [hpeek, length_append, length_singleton]
  dsimp only
  rw [validateText_append hs, take_left]
  cases validate s <;> rfl

/-- A text shorter than announced ends before a byte that is not zero. -/
theorem messagePeekFieldText_short (validate : Bytes → Bool) {s : Bytes} {l : Nat} (hs : ∀ c ∈ s, c ≠ 0)
    (hl : l < s.length) :
    messagePeekFieldText (A ++ (s ++ [0]) ++ B) validate A.length l = .error Errno.EBADMSG := by
  have hsplit : A ++ (s ++ [0]) ++ B = A ++ s.take (l + 1) ++ (s.drop (l + 1) ++ [0] ++ B) := by
    conv_lhs => rw [← take_append_drop (l + 1) s]
    simp only [append_assoc]
  have hlen : (s.take (l + 1)).length = l + 1 := by
    rw [length_take]
    omega
  have hpeek := messagePeekFields_append (A := A) (B := s.drop (l + 1) ++ [0] ++ B) Nat.one_pos
    (s.take (l + 1))
  rw [padding_one, nil_append, hlen] at hpeek
  have hend : (s.take (l + 1)).getD l 1 ≠ 0 := by
    have hne : s[l] ≠ 0 := hs _ (getElem_mem hl)
    simpa [getD, getElem?_eq_getElem hl] using hne
  have hnul : validateNul (s.take (l + 1)) l = false := by
    rw [validateNul, beq_eq_false_iff_ne.mpr hend, Bool.and_false]
  unfold messagePeekFieldText
  rw [hsplit, hpeek]
  dsimp only
  rw [validateText, hnul, Bool.false_and]
  rfl

theorem messagePeekFieldString_append (endian : Endian) (validate : Bytes → Bool) {s : Bytes} (hs : ∀ c ∈ s, c ≠ 0)
    (hlen : s.length < 2 ^ 32 - 1) :
    messagePeekFieldString endian
        (A ++ (padding A.length 4 ++ (endian.octets 4 s.length ++ s ++ [0])) ++ B) validate A.length =
      if validate s then
        .ok (A.length + (padding A.length 4 ++ (endian.octets 4 s.length ++ s ++ [0])).length, s)
      else .error Errno.EBADMSG := by
  have hsplit : A ++ (padding A.length 4 ++ (endian.octets 4 s.length ++ s ++ [0])) ++ B =
      A ++ (padding A.length 4 ++ endian.octets 4 s.length) ++ (s ++ [0] ++ B) := by
    simp only [append_assoc]
  have hnum := messagePeekFieldUint32_append (A := A) (B := s ++ [0] ++ B) endian
    (n := s.length) (by omega)
  have htext := messagePeekFieldText_append (A := A ++ (padding A.length 4 ++ endian.octets 4 s.length))
    (B := B) validate hs
  rw [append_assoc _ (s ++ [0])] at htext
  unfold messagePeekFieldString
  rw [hsplit, hnum]
  dsimp only
  rw [if_neg (by unfold uint32Max; omega), ← length_append, htext]
  simp only [length_append, Nat.add_assoc]

theorem messagePeekFieldSignature_byte (endian : Endian) (s : Bytes) :
    messagePeekFieldSignature endian (A ++ (UInt8.ofNat s.length :: s ++ [0]) ++ B) A.length =
      if s.length % 256 = 255 then .error Errno.EBADMSG
      else messagePeekFieldText (A ++ [UInt8.ofNat s.length] ++ (s ++ [0]) ++ B) (signatureIsValid · true)
        (A ++ [UInt8.ofNat s.length]).length (s.length % 256) := by
  have hsplit : A ++ (UInt8.ofNat s.length :: s ++ [0]) ++ B =
      A ++ [UInt8.ofNat s.length] ++ (s ++ [0] ++ B) := by simp
  have hpeek := messagePeekFields_append (A := A) (B := s ++ [0] ++ B) Nat.one_pos [UInt8.ofNat s.length]
  rw [padding_one, nil_append, length_singleton] at hpeek
  have hvalue : endian.value [UInt8.ofNat s.length] = s.length % 256 := by
    cases endian <;> exact Nat.add_zero _
  unfold messagePeekFieldSignature
  rw [hsplit, hpeek]
  dsimp only
  rw [hvalue, length_append, length_singleton]
  simp only [append_assoc]

theorem messagePeekFieldSignature_append (endian : Endian) {s : Bytes} (hs : ∀ c ∈ s, c ≠ 0) (hlen : s.length ≤ 254)
    (hvalid : signatureIsValid s true = true) :
    messagePeekFieldSignature endian (A ++ (UInt8.ofNat s.length :: s ++ [0]) ++ B) A.length =
      .ok (A.length + (UInt8.ofNat s.length :: s ++ [0]).length, s) := by
  rw [messagePeekFieldSignature_byte, Nat.mod_eq_of_lt (by omega), if_neg (by omega),
    messagePeekFieldText_append _ hs, if_pos hvalid]
  simp only [length_append, length_cons, length_nil]
  congr 2
  omega

/-- A signature whose length does not fit is not found. -/
theorem messagePeekFieldSignature_long (endian : Endian) {s : Bytes} (hs : ∀ c ∈ s, c ≠ 0) (hlen : 254 < s.length) :
    messagePeekFieldSignature endian (A ++ (UInt8.ofNat s.length :: s ++ [0]) ++ B) A.length =
      .error Errno.EBADMSG := by
  rw [messagePeekFieldSignature_byte]
  split
  · rfl
  · next h => exact messagePeekFieldText_short _ hs (by omega)

/-! ## Basic values -/

/-- A number is none of the texts. -/
theorem ne_text_of_getSize {type : UInt8} {w : Nat} (h : getSize type = some w) :
    type ≠ string ∧ type ≠ objectPath ∧ type ≠ signature := by
  refine ⟨?_, ?_, ?_⟩ <;> rintro rfl <;> exact absurd h (by decide +revert)

theorem messagePeekFields_num (endian : Endian) (type : UInt8) (n : Nat) :
    messagePeekFields (A ++ (Basic.num type n).wire endian A.length ++ B) A.length
        ((getAlignment type).getD 1) ((getSize type).getD 1) =
      .ok (A.length + ((Basic.num type n).wire endian A.length).length,
        endian.octets ((getSize type).getD 1) n) := by
  have hpeek := messagePeekFields_append (A := A) (B := B) (getAlignment_getD_pos type)
    (endian.octets ((getSize type).getD 1) n)
  rw [Endian.length_octets] at hpeek
  exact hpeek

end Peek

/-- A signature of the length that a reader accepts, or another value. -/
def Basic.Short (b : Basic) : Prop := ∀ s, b = .text signature s → s.length ≤ 254

end Elogind
