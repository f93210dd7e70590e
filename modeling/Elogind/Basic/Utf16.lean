/-
  Elogind.Basic.Utf16

  Conversion between UTF-8 and UTF-16 (utf8.c): a valid text is the same again after it was converted there
  and back.
-/

import Elogind.Basic.Utf8Memory

namespace Elogind

open List

-- for what is checked for each byte
set_option maxRecDepth 2000

/-- `utf16_is_surrogate` -/
def utf16IsSurrogate (c : Nat) : Bool := 0xd800 ≤ c && c ≤ 0xdfff

/-- `utf16_is_trailing_surrogate` -/
def utf16IsTrailingSurrogate (c : Nat) : Bool := 0xdc00 ≤ c && c ≤ 0xdfff

/-- `utf16_surrogate_pair_to_unichar` -/
def utf16SurrogatePairToUnichar (lead trail : Nat) : Nat := ((lead - 0xd800) <<< 10) + (trail - 0xdc00) + 0x10000

/-- `utf16_encode_unichar` -/
def utf16EncodeUnichar (c : Nat) : List UInt16 :=
  if c ≤ 0xd7ff ∨ 0xe000 ≤ c ∧ c ≤ 0xffff then [UInt16.ofNat c]
  else if 0x10000 ≤ c ∧ c ≤ 0x10ffff then
    [UInt16.ofNat (((c - 0x10000) >>> 10) + 0xd800), UInt16.ofNat (((c - 0x10000) % 0x400) + 0xdc00)]
  else []

/-- A `char`, which has a sign, as a `char16_t`. -/
def charToChar16 (c : UInt8) : UInt16 := if c < 0x80 then c.toUInt16 else 0xff00 ||| c.toUInt16

/-- The loop of `utf8_to_utf16` over the rest of the input, in so many rounds. -/
def utf8ToUtf16Loop : Nat → Bytes → Option (List UInt16)
  | 0, s => if s.isEmpty then some [] else none
  | _ + 1, [] => some []
  | n + 1, c :: s =>
    let e := utf8EncodedExpectedLen c
    -- what is no sequence is copied as it is
    if e ≤ 1 ∨ e > (c :: s).length then (utf8ToUtf16Loop n s).map (charToChar16 c :: ·)
    else
      match utf8ReadUnichar (c :: s) with
      | none => none
      | some none => (utf8ToUtf16Loop n s).map (charToChar16 c :: ·)
      | some (some (unichar, _)) => (utf8ToUtf16Loop n ((c :: s).drop e)).map (utf16EncodeUnichar unichar ++ ·)

/-- `utf8_to_utf16` of a string of this length, without the zero at the end. -/
def utf8ToUtf16 (s : Bytes) : Option (List UInt16) := utf8ToUtf16Loop s.length s

/-- `utf16_to_utf8`, where the length is that of the text. -/
def utf16ToUtf8 : List UInt16 → Bytes
  | [] => []
  | w₁ :: s =>
    if !utf16IsSurrogate w₁.toNat then utf8EncodeUnichar w₁.toNat ++ utf16ToUtf8 s
    else if utf16IsTrailingSurrogate w₁.toNat then utf16ToUtf8 s
    else
      match s with
      | [] => []
      | w₂ :: s =>
        if !utf16IsTrailingSurrogate w₂.toNat then utf16ToUtf8 (w₂ :: s)
        else utf8EncodeUnichar (utf16SurrogatePairToUnichar w₁.toNat w₂.toNat) ++ utf16ToUtf8 s

/-- `char16_strlen` of text that has a zero behind it. -/
def char16Strlen (s : List UInt16) : Nat := (s.takeWhile (· ≠ 0)).length

/-! ## There and back -/

theorem surrogate_bits : ∀ a < 32, ∀ b < 64, (0xd800 + 64 * a + b) &&& 0xFFFFF800 = 0xD800 := by decide

/-- A valid character is not a surrogate. -/
theorem not_surrogate_of_unicharIsValid {u : Nat} (h : unicharIsValid u = true) :
    u ≤ 0xd7ff ∨ 0xe000 ≤ u ∧ u ≤ 0xffff ∨ 0x10000 ≤ u ∧ u ≤ 0x10ffff := by
  have hu := lt_of_unicharIsValid h
  by_contra hnot
  have hand := surrogate_bits ((u - 0xd800) / 64) (by omega) ((u - 0xd800) % 64) (by omega)
  rw [show 0xd800 + 64 * ((u - 0xd800) / 64) + (u - 0xd800) % 64 = u by omega] at hand
  have hlow : ¬ u ≥ 0x110000 := by omega
  simp [unicharIsValid, hand, hlow] at h

/-- What is encoded as UTF-16 is found again. -/
theorem utf16ToUtf8_encode {u : Nat} (h : unicharIsValid u = true) (s : List UInt16) :
    utf16ToUtf8 (utf16EncodeUnichar u ++ s) = utf8EncodeUnichar u ++ utf16ToUtf8 s := by
  have htoNat : ∀ n < 0x10000, (UInt16.ofNat n).toNat = n := by
    intro n hn
    exact Nat.mod_eq_of_lt hn
  have hrange := not_surrogate_of_unicharIsValid h
  unfold utf16EncodeUnichar
  split
  · rename_i hbmp
    have hlt : u < 0x10000 := by omega
    have hnot : utf16IsSurrogate u = false := by
      rw [utf16IsSurrogate, Bool.and_eq_false_iff, decide_eq_false_iff_not, decide_eq_false_iff_not]
      omega
    show utf16ToUtf8 (UInt16.ofNat u :: s) = _
    rw [utf16ToUtf8.eq_def]
    simp only [htoNat u hlt, hnot, Bool.not_false, if_true]
  split
  · rename_i hnot hpair
    -- a leading surrogate and a trailing one
    have hpair' : utf16SurrogatePairToUnichar (((u - 0x10000) >>> 10) + 0xd800) ((u - 0x10000) % 0x400 + 0xdc00) = u := by
      rw [utf16SurrogatePairToUnichar, Nat.shiftLeft_eq]
      omega
    have h₁ : utf16IsSurrogate (((u - 0x10000) >>> 10) + 0xd800) = true := by
      rw [utf16IsSurrogate, Bool.and_eq_true, decide_eq_true_eq, decide_eq_true_eq]
      omega
    have h₂ : utf16IsTrailingSurrogate (((u - 0x10000) >>> 10) + 0xd800) = false := by
      rw [utf16IsTrailingSurrogate, Bool.and_eq_false_iff, decide_eq_false_iff_not, decide_eq_false_iff_not]
      omega
    have h₃ : utf16IsTrailingSurrogate ((u - 0x10000) % 0x400 + 0xdc00) = true := by
      rw [utf16IsTrailingSurrogate, Bool.and_eq_true, decide_eq_true_eq, decide_eq_true_eq]
      omega
    have hleadNat := htoNat (((u - 0x10000) >>> 10) + 0xd800) (by omega)
    have htrailNat := htoNat ((u - 0x10000) % 0x400 + 0xdc00) (by omega)
    show utf16ToUtf8 (UInt16.ofNat _ :: UInt16.ofNat _ :: s) = _
    rw [utf16ToUtf8.eq_def]
    simp only [hleadNat, htrailNat, h₁, h₂, h₃, hpair', Bool.not_true, Bool.false_eq_true, if_false]
  · omega

/-- A sequence of more than one byte is read as the character that was encoded. -/
theorem utf8ReadUnichar_encode {c : UInt8} {r : Bytes} {u : Nat} (hr : r ≠ [])
    (hexpected : utf8EncodedExpectedLen c = r.length + 1)
    (hdecoded : utf8EncodedToUnichar (r.length + 1) c r = some u) (s : Bytes) :
    utf8ReadUnichar (c :: (r ++ s)) = some (some (u, r.length + 1)) := by
  have hpos : r.length ≠ 0 := by simpa using hr
  have hread := utf8ReadContinuation_append (utf8FirstBits (r.length + 1) c) r s
  have hdecoded' : _ = some u := hdecoded
  unfold utf8EncodedToUnichar at hdecoded'
  rw [hdecoded'] at hread
  unfold utf8ReadUnichar
  simp only [hexpected, Nat.add_eq_right, hpos, Nat.add_eq_zero_iff, false_and, if_false, Nat.add_sub_cancel, hread]

/-- A text of encoded characters is converted one by one. -/
theorem utf8ToUtf16Loop_encode {us : List Nat} (hus : ∀ u ∈ us, unicharIsValid u = true) {n : Nat}
    (hn : (us.flatMap utf8EncodeUnichar).length ≤ n) :
    utf8ToUtf16Loop n (us.flatMap utf8EncodeUnichar) = some (us.flatMap utf16EncodeUnichar) := by
  induction us generalizing n with
  | nil => cases n <;> rfl
  | cons u us ih =>
    have hu := hus u mem_cons_self
    have hlt := lt_of_unicharIsValid hu
    have hrest : ∀ w ∈ us, unicharIsValid w = true := fun w hw => hus w (mem_cons_of_mem u hw)
    rw [flatMap_cons, length_append] at hn
    rw [flatMap_cons, flatMap_cons]
    by_cases hlow : u < 2 ^ 7
    · have hencode : utf8EncodeUnichar u = [UInt8.ofNat u] := by rw [utf8EncodeUnichar, if_pos hlow]
      have hbyte : UInt8.ofNat u < 0x80 := by
        show u % 2 ^ 8 < 128
        omega
      have hunit : charToChar16 (UInt8.ofNat u) = UInt16.ofNat u := by
        rw [charToChar16, if_pos hbyte]
        apply UInt16.toNat_inj.mp
        rw [UInt8.toNat_toUInt16, UInt8.toNat_ofNat', UInt16.toNat_ofNat']
        omega
      have hencode16 : utf16EncodeUnichar u = [UInt16.ofNat u] := by
        rw [utf16EncodeUnichar, if_pos (.inl (by omega))]
      rw [hencode] at hn ⊢
      rw [length_singleton] at hn
      obtain ⟨n, rfl⟩ : ∃ k, n = k + 1 := ⟨n - 1, by omega⟩
      have hlen : utf8EncodedExpectedLen (UInt8.ofNat u) ≤ 1 := by simp [utf8EncodedExpectedLen, hbyte]
      rw [singleton_append, utf8ToUtf16Loop, if_pos (.inl hlen), ih hrest (by omega : _ ≤ n), hunit, hencode16]
      rfl
    · obtain ⟨c, r, hencode, hr, hexpected, hdecoded, -⟩ := utf8EncodeUnichar_decoded hlow (by omega)
      have hpos : r.length ≠ 0 := by simpa using hr
      rw [hencode, length_cons] at hn
      obtain ⟨n, rfl⟩ : ∃ k, n = k + 1 := ⟨n - 1, by omega⟩
      have hfits : ¬ (utf8EncodedExpectedLen c ≤ 1 ∨
          utf8EncodedExpectedLen c > (c :: (r ++ us.flatMap utf8EncodeUnichar)).length) := by
        rw [hexpected, length_cons, length_append]
        omega
      rw [hencode, cons_append, utf8ToUtf16Loop, if_neg hfits, utf8ReadUnichar_encode hr hexpected hdecoded]
      simp only [hexpected, drop_succ_cons, drop_left, ih hrest (by omega : _ ≤ n), Option.map_some]

/-- Converting characters back. -/
theorem utf16ToUtf8_flatMap {us : List Nat} (hus : ∀ u ∈ us, unicharIsValid u = true) :
    utf16ToUtf8 (us.flatMap utf16EncodeUnichar) = us.flatMap utf8EncodeUnichar := by
  induction us with
  | nil => rfl
  | cons u us ih =>
    rw [flatMap_cons, flatMap_cons, utf16ToUtf8_encode (hus u mem_cons_self),
      ih fun w hw => hus w (mem_cons_of_mem u hw)]

/-- There is no zero in the UTF-16 text of characters that are not zero. -/
theorem utf16EncodeUnichar_ne_zero {u : Nat} (hu : u ≠ 0) :
    ∀ w ∈ utf16EncodeUnichar u, w ≠ 0 := by
  have hne : ∀ n, 0 < n → n < 0x10000 → UInt16.ofNat n ≠ 0 := by
    intro n hpos hn heq
    have hnat := congrArg UInt16.toNat heq
    rw [UInt16.toNat_ofNat', Nat.mod_eq_of_lt hn] at hnat
    exact absurd hnat (Nat.ne_of_gt hpos)
  unfold utf16EncodeUnichar
  intro w hw
  split at hw
  · obtain rfl := mem_singleton.mp hw
    exact hne u (Nat.pos_of_ne_zero hu) (by omega)
  split at hw
  · obtain rfl | hw := mem_cons.mp hw
    · exact hne _ (by omega) (by omega)
    · obtain rfl := mem_singleton.mp hw
      exact hne _ (by omega) (by omega)
  · exact absurd hw not_mem_nil

/-- Validation accepts exactly the encoded texts of valid characters and reads nothing behind the end; what is
    invalid is replaced by what is valid, and only that; and a valid text is converted there and back. -/
theorem utf8_validated {s : Bytes} (hzero : 0 ∉ s) :
    (∃ valid, (∀ t, utf8IsValidN (s ++ 0 :: t) none = some valid) ∧
        (∀ t, utf8IsValidN (s ++ t) (some s.length) = some valid) ∧
        (valid = true ↔ ∃ us : List Nat, (∀ u ∈ us, unicharIsValid u = true) ∧ s = us.flatMap utf8EncodeUnichar)) ∧
      (∀ t n, s.length < n → utf8IsValidN (s ++ 0 :: t) (some n) = some false) ∧
      (∃ t, utf8EscapeInvalid (s ++ [0]) = some t ∧ utf8IsValidN (t ++ [0]) none = some true ∧
        (t = s ↔ utf8IsValidN (s ++ [0]) none = some true)) ∧
      (utf8IsValidN (s ++ [0]) none = some true →
        ∃ w, utf8ToUtf16 s = some w ∧ utf16ToUtf8 w = s ∧ char16Strlen (w ++ [0]) = w.length) := by
  have hterminated : ∀ t, utf8IsValidN (s ++ 0 :: t) none = some (utf8IsValid s) := by
    intro t
    rw [utf8IsValidN_eq hzero (.zero t), Option.all_none, Bool.and_true]
  refine ⟨⟨utf8IsValid s, hterminated, ?_, utf8IsValid_iff⟩, ?_, ?_, ?_⟩
  · intro t
    rw [utf8IsValidN_eq hzero (.length t), Option.all_some, decide_eq_true (Nat.le_refl _), Bool.and_true]
  · intro t n hn
    rw [utf8IsValidN_eq hzero (.zeroBefore t hn), Option.all_some, decide_eq_false (Nat.not_le_of_lt hn), Bool.and_false]
  · obtain ⟨t, hescape, hnone, hvalid, hsame⟩ := utf8EscapeInvalid_eq hzero
    refine ⟨t, hescape, ?_, ?_⟩
    · rw [utf8IsValidN_eq hnone (.zero []), hvalid]
      rfl
    · rw [hterminated, hsame, Option.some.injEq]
  · intro hvalid
    rw [hterminated, Option.some.injEq] at hvalid
    obtain ⟨us, hus, rfl⟩ := exists_of_utf8IsValid hvalid
    refine ⟨us.flatMap utf16EncodeUnichar, utf8ToUtf16Loop_encode hus (Nat.le_refl _), utf16ToUtf8_flatMap hus, ?_⟩
    have hne : ∀ w ∈ us.flatMap utf16EncodeUnichar, decide (w ≠ 0) = true := by
      intro w hw
      obtain ⟨u, hu, hw⟩ := mem_flatMap.mp hw
      refine decide_eq_true (utf16EncodeUnichar_ne_zero ?_ w hw)
      rintro rfl
      exact hzero (mem_flatMap.mpr ⟨0, hu, mem_cons_self⟩)
    unfold char16Strlen
    rw [takeWhile_append_of_pos hne]
    simp

/-- An `e` with an accent. -/
theorem utf8_validated_accent :
    (∃ valid, (∀ t, utf8IsValidN ([0xc3, 0xa9] ++ 0 :: t) none = some valid) ∧
        (∀ t, utf8IsValidN ([0xc3, 0xa9] ++ t) (some 2) = some valid) ∧
        (valid = true ↔
          ∃ us : List Nat, (∀ u ∈ us, unicharIsValid u = true) ∧ [0xc3, 0xa9] = us.flatMap utf8EncodeUnichar)) ∧
      (∀ t n, 2 < n → utf8IsValidN ([0xc3, 0xa9] ++ 0 :: t) (some n) = some false) ∧
      (∃ t, utf8EscapeInvalid ([0xc3, 0xa9] ++ [0]) = some t ∧ utf8IsValidN (t ++ [0]) none = some true ∧
        (t = [0xc3, 0xa9] ↔ utf8IsValidN ([0xc3, 0xa9] ++ [0]) none = some true)) ∧
      (utf8IsValidN ([0xc3, 0xa9] ++ [0]) none = some true →
        ∃ w, utf8ToUtf16 [0xc3, 0xa9] = some w ∧ utf16ToUtf8 w = [0xc3, 0xa9] ∧
          char16Strlen (w ++ [0]) = w.length) :=
  utf8_validated (by decide)

end Elogind
