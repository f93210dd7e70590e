/-
  Elogind.Basic.Utf8Encode

  Encoding a character as UTF-8 and validating the result (utf8.c): what `utf8_encoded_valid_unichar`
  accepts is what `utf8_encode_unichar` writes for a character that is valid.
-/

import Elogind.Basic.Unescape
import Mathlib.Data.List.Basic

namespace Elogind

open List

-- for what is checked for each byte
set_option maxRecDepth 2000

/-! ## Bytes of a sequence -/

/-- The bits of a continuation byte are below its lead. -/
theorem utf8Byte_continuation : ∀ n < 64, utf8Byte 0x80 n &&& 0xc0 = 0x80 ∧ (utf8Byte 0x80 n &&& 0x3f).toNat = n := by
  decide

theorem utf8Byte_first₂ :
    ∀ n < 32, utf8EncodedExpectedLen (utf8Byte 0xc0 n) = 2 ∧ utf8FirstBits 2 (utf8Byte 0xc0 n) = n := by decide

theorem utf8Byte_first₃ :
    ∀ n < 16, utf8EncodedExpectedLen (utf8Byte 0xe0 n) = 3 ∧ utf8FirstBits 3 (utf8Byte 0xe0 n) = n := by decide

theorem utf8Byte_first₄ :
    ∀ n < 8, utf8EncodedExpectedLen (utf8Byte 0xf0 n) = 4 ∧ utf8FirstBits 4 (utf8Byte 0xf0 n) = n := by decide

/-- A continuation byte is determined by its bits. -/
theorem eq_utf8Byte_continuation : ∀ d : UInt8, d &&& 0xc0 = 0x80 →
    d = utf8Byte 0x80 (d &&& 0x3f).toNat ∧ (d &&& 0x3f).toNat < 64 := by decide

/-- So is the first byte. -/
theorem eq_utf8Byte_first : ∀ c : UInt8,
    (utf8EncodedExpectedLen c = 1 → c < 0x80) ∧
    (utf8EncodedExpectedLen c = 2 → c = utf8Byte 0xc0 (utf8FirstBits 2 c) ∧ utf8FirstBits 2 c < 32) ∧
    (utf8EncodedExpectedLen c = 3 → c = utf8Byte 0xe0 (utf8FirstBits 3 c) ∧ utf8FirstBits 3 c < 16) ∧
    (utf8EncodedExpectedLen c = 4 → c = utf8Byte 0xf0 (utf8FirstBits 4 c) ∧ utf8FirstBits 4 c < 8) ∧
    (utf8EncodedExpectedLen c = 0 ∨ 1 ≤ utf8EncodedExpectedLen c ∧ utf8EncodedExpectedLen c ≤ 6) := by decide

/-- One more continuation byte. -/
theorem shift_or_continuation {a n : Nat} (hn : n < 64) : a <<< 6 ||| n = 64 * a + n := by
  rw [← Nat.shiftLeft_add_eq_or_of_lt (by omega : n < 2 ^ 6), Nat.shiftLeft_eq]
  omega

/-- Decoding continuation bytes that hold these bits. -/
theorem utf8EncodedToUnichar_cons {len : Nat} {c : UInt8} {n : Nat} {rest : Bytes} :
    utf8EncodedToUnichar len c (rest ++ [utf8Byte 0x80 (n % 64)]) =
      (utf8EncodedToUnichar len c rest).map fun a => 64 * a + n % 64 := by
  obtain ⟨hlead, hbits⟩ := utf8Byte_continuation (n % 64) (Nat.mod_lt _ (by decide))
  unfold utf8EncodedToUnichar
  rw [foldlM_append]
  cases hrest : rest.foldlM (fun (unichar : Nat) (d : UInt8) =>
    if d &&& 0xc0 = 0x80 then some (unichar <<< 6 ||| (d &&& 0x3f).toNat) else none) (utf8FirstBits len c) with
  | none => rfl
  | some a =>
    simp only [Option.bind_eq_bind, Option.bind_some, foldlM_cons, foldlM_nil, hlead, hbits, if_true,
      Option.pure_def, Option.map_some]
    rw [shift_or_continuation (Nat.mod_lt _ (by decide))]

/-! ## Characters -/

/-- The bits above the last ones of a character. -/
theorem shiftRight_bits (u : Nat) : u >>> 6 = u / 64 ∧ u >>> 12 = u / 64 / 64 ∧ u >>> 18 = u / 64 / 64 / 64 := by
  refine ⟨Nat.shiftRight_eq_div_pow u 6, ?_, ?_⟩
  · rw [Nat.shiftRight_eq_div_pow, Nat.div_div_eq_div_mul]
  · rw [Nat.shiftRight_eq_div_pow, Nat.div_div_eq_div_mul, Nat.div_div_eq_div_mul]

/-- How long a sequence a character takes. -/
theorem utf8UnicharToEncodedLen_cases {u : Nat} (hu : u < 2 ^ 21) :
    u < 2 ^ 7 ∧ utf8UnicharToEncodedLen u = 1 ∨
      ¬ u < 2 ^ 7 ∧ u < 2 ^ 11 ∧ utf8UnicharToEncodedLen u = 2 ∨
        ¬ u < 2 ^ 7 ∧ ¬ u < 2 ^ 11 ∧ u < 2 ^ 16 ∧ utf8UnicharToEncodedLen u = 3 ∨
          ¬ u < 2 ^ 7 ∧ ¬ u < 2 ^ 11 ∧ ¬ u < 2 ^ 16 ∧ utf8UnicharToEncodedLen u = 4 := by
  unfold utf8UnicharToEncodedLen
  split_ifs <;> omega

theorem unicharIsValid_ascii : ∀ u < 0x80, unicharIsValid u = true := by decide

/-- A sequence of more than one byte that is decoded to a character of this length. -/
theorem utf8EncodedValidUnichar_of {c : UInt8} {r : Bytes} {u : Nat} (hr : r ≠ [])
    (hexpected : utf8EncodedExpectedLen c = r.length + 1)
    (hdecoded : utf8EncodedToUnichar (r.length + 1) c r = some u)
    (hlen : utf8UnicharToEncodedLen u = r.length + 1) (rest : Bytes) :
    utf8EncodedValidUnichar c (r ++ rest) = if unicharIsValid u then some (r.length + 1) else none := by
  have hpos : r.length ≠ 0 := by simpa using hr
  have hshort : ¬ (r ++ rest).length < r.length := by
    rw [length_append]
    omega
  simp only [utf8EncodedValidUnichar, hexpected, Nat.add_eq_zero_iff, hpos, Nat.add_eq_right, Nat.add_sub_cancel,
    hshort, take_left, hdecoded, hlen, ne_eq, not_true_eq_false, if_false, false_and]
  cases unicharIsValid u <;> rfl

/-- A character that is not ASCII is encoded as a first byte and others, which are decoded to it. -/
theorem utf8EncodeUnichar_decoded {u : Nat} (hlow : ¬ u < 2 ^ 7) (hu : u < 2 ^ 21) :
    ∃ c r, utf8EncodeUnichar u = c :: r ∧ r ≠ [] ∧ utf8EncodedExpectedLen c = r.length + 1 ∧
      utf8EncodedToUnichar (r.length + 1) c r = some u ∧ utf8UnicharToEncodedLen u = r.length + 1 := by
  have hlen := utf8UnicharToEncodedLen_cases hu
  unfold utf8EncodeUnichar
  rw [if_neg hlow]
  simp only [shiftRight_bits]
  split
  · rename_i h₂
    obtain ⟨hexpected, hbits⟩ := utf8Byte_first₂ (u / 64 % 32) (Nat.mod_lt _ (by decide))
    refine ⟨_, _, rfl, cons_ne_nil _ _, hexpected, ?_, ?_⟩
    · show utf8EncodedToUnichar 2 _ ([] ++ [_]) = some u
      rw [utf8EncodedToUnichar_cons]
      show some (64 * utf8FirstBits 2 _ + u % 64) = some u
      congr 1
      omega
    · simp only [length_cons, length_nil]
      omega
  split
  · rename_i h₂ h₃
    obtain ⟨hexpected, hbits⟩ := utf8Byte_first₃ (u / 64 / 64 % 16) (Nat.mod_lt _ (by decide))
    refine ⟨_, _, rfl, cons_ne_nil _ _, hexpected, ?_, ?_⟩
    · show utf8EncodedToUnichar 3 _ ([] ++ [_] ++ [_]) = some u
      rw [utf8EncodedToUnichar_cons, utf8EncodedToUnichar_cons]
      show some (64 * (64 * utf8FirstBits 3 _ + u / 64 % 64) + u % 64) = some u
      congr 1
      omega
    · simp only [length_cons, length_nil]
      omega
  · rename_i h₂ h₃
    obtain ⟨hexpected, hbits⟩ := utf8Byte_first₄ (u / 64 / 64 / 64 % 8) (Nat.mod_lt _ (by decide))
    refine ⟨_, _, rfl, cons_ne_nil _ _, hexpected, ?_, ?_⟩
    · show utf8EncodedToUnichar 4 _ ([] ++ [_] ++ [_] ++ [_]) = some u
      rw [utf8EncodedToUnichar_cons, utf8EncodedToUnichar_cons, utf8EncodedToUnichar_cons]
      show some (64 * (64 * (64 * utf8FirstBits 4 _ + u / 64 / 64 % 64) + u / 64 % 64) + u % 64) = some u
      congr 1
      omega
    · simp only [length_cons, length_nil]
      omega

/-- What is encoded is a valid character if the character is. -/
theorem utf8EncodedValidUnichar_encode {u : Nat} (hu : u < 2 ^ 21) : ∃ c r, utf8EncodeUnichar u = c :: r ∧
    ∀ rest, utf8EncodedValidUnichar c (r ++ rest) = if unicharIsValid u then some (r.length + 1) else none := by
  by_cases h : u < 2 ^ 7
  · have hbyte : UInt8.ofNat u < 0x80 := by
      show u % 2 ^ 8 < 128
      omega
    refine ⟨UInt8.ofNat u, [], by rw [utf8EncodeUnichar, if_pos h], fun rest => ?_⟩
    rw [unicharIsValid_ascii u h]
    simp [utf8EncodedValidUnichar, utf8EncodedExpectedLen, hbyte]
  · obtain ⟨c, r, hencode, hr, hexpected, hdecoded, hlen⟩ := utf8EncodeUnichar_decoded h hu
    exact ⟨c, r, hencode, utf8EncodedValidUnichar_of hr hexpected hdecoded hlen⟩

theorem lt_of_unicharIsValid {u : Nat} (h : unicharIsValid u = true) : u < 0x110000 := by
  by_contra hu
  have : u ≥ 0x110000 := by omega
  simp [unicharIsValid, this] at h

/-- The last continuation byte of a sequence that can be decoded. -/
theorem utf8EncodedToUnichar_append {len : Nat} {c d : UInt8} {r : Bytes} {u : Nat}
    (h : utf8EncodedToUnichar len c (r ++ [d]) = some u) :
    ∃ a, utf8EncodedToUnichar len c r = some a ∧ u / 64 = a ∧ d = utf8Byte 0x80 (u % 64) := by
  by_cases hd : d &&& 0xc0 = 0x80
  · obtain ⟨hbyte, hbits⟩ := eq_utf8Byte_continuation d hd
    rw [hbyte, ← Nat.mod_eq_of_lt hbits, utf8EncodedToUnichar_cons] at h
    obtain ⟨a, ha, rfl⟩ := Option.map_eq_some_iff.mp h
    refine ⟨a, ha, by omega, ?_⟩
    rw [show (64 * a + (d &&& 0x3f).toNat % 64) % 64 = (d &&& 0x3f).toNat by omega]
    exact hbyte
  · unfold utf8EncodedToUnichar at h
    simp [hd] at h

/-- Some bytes that hold the bits of a character, where fewer do not, are its code. -/
theorem utf8EncodeUnichar_of_decoded {c : UInt8} {r : Bytes} {u : Nat} (hr : r ≠ [])
    (hexpected : utf8EncodedExpectedLen c = r.length + 1) (hu : u < 2 ^ 21)
    (hdecoded : utf8EncodedToUnichar (r.length + 1) c r = some u)
    (hlen : utf8UnicharToEncodedLen u = r.length + 1) : utf8EncodeUnichar u = c :: r := by
  obtain ⟨-, hfirst₂, hfirst₃, hfirst₄, -⟩ := eq_utf8Byte_first c
  unfold utf8EncodeUnichar
  simp only [shiftRight_bits]
  rcases utf8UnicharToEncodedLen_cases hu with
    ⟨-, h⟩ | ⟨hu₁, hu₂, h⟩ | ⟨hu₁, hu₂, hu₃, h⟩ | ⟨hu₁, hu₂, hu₃, h⟩
  · have hlength : r.length = 0 := by omega
    exact absurd (length_eq_zero_iff.mp hlength) hr
  · obtain ⟨d, rfl⟩ := length_eq_one_iff.mp (by omega : r.length = 1)
    obtain ⟨a, ha, hdiv, rfl⟩ := utf8EncodedToUnichar_append (r := []) hdecoded
    obtain ⟨hc, hbits⟩ := hfirst₂ hexpected
    obtain rfl : utf8FirstBits 2 c = a := Option.some.inj ha
    rw [if_neg hu₁, if_pos hu₂, hdiv, Nat.mod_eq_of_lt hbits, ← hc]
  · obtain ⟨d, e, rfl⟩ := length_eq_two.mp (by omega : r.length = 2)
    obtain ⟨b, hb, rfl, rfl⟩ := utf8EncodedToUnichar_append (r := [d]) hdecoded
    obtain ⟨a, ha, hdiv, rfl⟩ := utf8EncodedToUnichar_append (r := []) hb
    obtain ⟨hc, hbits⟩ := hfirst₃ hexpected
    obtain rfl : utf8FirstBits 3 c = a := Option.some.inj ha
    rw [if_neg hu₁, if_neg hu₂, if_pos hu₃, hdiv, Nat.mod_eq_of_lt hbits, ← hc]
  · obtain ⟨d, e, f, rfl⟩ := length_eq_three.mp (by omega : r.length = 3)
    obtain ⟨b, hb, rfl, rfl⟩ := utf8EncodedToUnichar_append (r := [d, e]) hdecoded
    obtain ⟨b, hb, rfl, rfl⟩ := utf8EncodedToUnichar_append (r := [d]) hb
    obtain ⟨a, ha, hdiv, rfl⟩ := utf8EncodedToUnichar_append (r := []) hb
    obtain ⟨hc, hbits⟩ := hfirst₄ hexpected
    obtain rfl : utf8FirstBits 4 c = a := Option.some.inj ha
    rw [if_neg hu₁, if_neg hu₂, if_neg hu₃, if_pos hu, hdiv, Nat.mod_eq_of_lt hbits, ← hc]

/-- What is accepted at the start of a text is the code of a valid character. -/
theorem exists_of_utf8EncodedValidUnichar {c : UInt8} {p : Bytes} {len : Nat}
    (h : utf8EncodedValidUnichar c p = some len) :
    ∃ u, unicharIsValid u = true ∧ (c :: p).take len = utf8EncodeUnichar u ∧ 0 < len ∧ len ≤ (c :: p).length := by
  unfold utf8EncodedValidUnichar at h
  simp only at h
  split at h
  · cases h
  rename_i hne
  split at h
  · rename_i hone
    cases h
    have hc : c < 0x80 := (eq_utf8Byte_first c).1 hone
    have hc' : c.toNat < 2 ^ 7 := hc
    refine ⟨c.toNat, unicharIsValid_ascii _ hc', ?_, Nat.one_pos, by simp⟩
    rw [utf8EncodeUnichar, if_pos hc', UInt8.ofNat_toNat]
    rfl
  rename_i hmulti
  split at h
  · cases h
  rename_i hlong
  split at h
  · cases h
  rename_i unichar hchar
  split at h
  · cases h
  rename_i hlen
  split at h
  · cases h
  rename_i hvalid
  cases h
  have hlong' : utf8EncodedExpectedLen c - 1 ≤ p.length := by omega
  have htake : (p.take (utf8EncodedExpectedLen c - 1)).length = utf8EncodedExpectedLen c - 1 :=
    length_take_of_le hlong'
  have hsucc : (p.take (utf8EncodedExpectedLen c - 1)).length + 1 = utf8EncodedExpectedLen c := by omega
  have hvalid' : unicharIsValid unichar = true := by simpa using hvalid
  refine ⟨unichar, hvalid', ?_, by omega, by rw [length_cons]; omega⟩
  rw [utf8EncodeUnichar_of_decoded (r := p.take (utf8EncodedExpectedLen c - 1)) ?_ hsucc.symm
    (by have := lt_of_unicharIsValid hvalid'; omega) (by rw [hsucc]; exact hchar)
    (by rw [hsucc]; exact not_not.mp hlen)]
  · conv => lhs; rw [← Nat.sub_add_cancel (by omega : 1 ≤ utf8EncodedExpectedLen c)]
    rfl
  · intro hnil
    rw [hnil] at hsucc
    exact hmulti hsucc.symm

/-! ## Texts -/

/-- A text of encoded characters is valid if they all are. -/
theorem utf8IsValidLoop_encode {us : List Nat} (hus : ∀ u ∈ us, u < 2 ^ 21) {n : Nat}
    (hn : (us.flatMap utf8EncodeUnichar).length ≤ n) :
    utf8IsValidLoop n (us.flatMap utf8EncodeUnichar) = us.all unicharIsValid := by
  induction us generalizing n with
  | nil => exact utf8IsValidLoop_nil n
  | cons u us ih =>
    obtain ⟨c, r, hencode, hchar⟩ := utf8EncodedValidUnichar_encode (hus u mem_cons_self)
    rw [flatMap_cons, hencode] at hn ⊢
    simp only [cons_append, length_cons, length_append] at hn
    obtain ⟨n, rfl⟩ : ∃ k, n = k + 1 := ⟨n - 1, by omega⟩
    rw [cons_append, utf8IsValidLoop, hchar, all_cons]
    cases unicharIsValid u with
    | false => rfl
    | true =>
      simp only [if_true, Nat.add_sub_cancel, drop_left, Bool.true_and]
      exact ih (fun w hw => hus w (mem_cons_of_mem u hw)) (by omega)

theorem utf8IsValid_encode {us : List Nat} (hus : ∀ u ∈ us, u < 2 ^ 21) :
    utf8IsValid (us.flatMap utf8EncodeUnichar) = us.all unicharIsValid :=
  utf8IsValidLoop_encode hus (Nat.le_refl _)

/-- A valid text is the code of valid characters. -/
theorem exists_of_utf8IsValidLoop {n : Nat} {s : Bytes} (h : utf8IsValidLoop n s = true) :
    ∃ us : List Nat, (∀ u ∈ us, unicharIsValid u = true) ∧ s = us.flatMap utf8EncodeUnichar := by
  induction n generalizing s with
  | zero => exact ⟨[], by simp, isEmpty_iff.mp h⟩
  | succ n ih =>
    cases s with
    | nil => exact ⟨[], by simp, rfl⟩
    | cons c p =>
      rw [utf8IsValidLoop] at h
      split at h
      · cases h
      rename_i len hlen
      obtain ⟨u, hu, htake, hpos, -⟩ := exists_of_utf8EncodedValidUnichar hlen
      obtain ⟨us, hus, hrest⟩ := ih h
      refine ⟨u :: us, ?_, ?_⟩
      · intro w hw
        obtain rfl | hw := mem_cons.mp hw
        · exact hu
        · exact hus w hw
      · obtain ⟨k, rfl⟩ : ∃ k, len = k + 1 := ⟨len - 1, by omega⟩
        rw [flatMap_cons, ← htake, ← hrest]
        exact (take_append_drop (k + 1) (c :: p)).symm

theorem exists_of_utf8IsValid {s : Bytes} (h : utf8IsValid s = true) :
    ∃ us : List Nat, (∀ u ∈ us, unicharIsValid u = true) ∧ s = us.flatMap utf8EncodeUnichar :=
  exists_of_utf8IsValidLoop h

end Elogind
