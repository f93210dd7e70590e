/-
  Elogind.Json.ScanString

  `json_parse_string` and the grammar of strings: the text that is read is a string in its quotes, and each
  such string is read as a whole.
-/

import Elogind.Json.Grammar

namespace Elogind

open Byte Errno List

-- for what is checked for each byte
set_option maxRecDepth 2000

/-! ## Escapes -/

variable {u x : Nat} {c : UInt8} {t p : Bytes} {us : List Nat}

/-- A character of one byte. -/
theorem utf8EncodeUnichar_ascii (hu : u < 0x80) : utf8EncodeUnichar u = [UInt8.ofNat u] := if_pos hu

/-- The bytes of a longer sequence all have their highest bit. -/
theorem utf8EncodeUnichar_high (hu : 0x80 ≤ u) : ∀ c ∈ utf8EncodeUnichar u, 0x80 ≤ c := by
  have hlead : ∀ b : UInt8, 0x80 ≤ 0x80 ||| b ∧ 0x80 ≤ 0xc0 ||| b ∧ 0x80 ≤ 0xe0 ||| b ∧ 0x80 ≤ 0xf0 ||| b := by
    decide
  have hlow : ¬ u < 2 ^ 7 := by omega
  intro c hc
  unfold utf8EncodeUnichar utf8Byte at hc
  split_ifs at hc
  · simp only [mem_cons, not_mem_nil, or_false] at hc
    obtain rfl | rfl := hc
    · exact (hlead _).2.1
    · exact (hlead _).1
  · simp only [mem_cons, not_mem_nil, or_false] at hc
    obtain rfl | rfl | rfl := hc
    · exact (hlead _).2.2.1
    · exact (hlead _).1
    · exact (hlead _).1
  · simp only [mem_cons, not_mem_nil, or_false] at hc
    obtain rfl | rfl | rfl | rfl := hc
    · exact (hlead _).2.2.2
    · exact (hlead _).1
    · exact (hlead _).1
    · exact (hlead _).1
  · exact absurd hc not_mem_nil

/-- `jsonEscape` has the escapes of the grammar. -/
theorem jsonEscape_of_mem (h : (c, u) ∈ jsonEscapes) :
    jsonEscape c = some (UInt8.ofNat u) ∧ u < 0x80 := by
  have hall : ∀ e ∈ jsonEscapes, jsonEscape e.1 = some (UInt8.ofNat e.2) ∧ e.2 < 0x80 := by decide
  exact hall (c, u) h

theorem exists_of_jsonEscape {e ch : UInt8} (h : jsonEscape e = some ch) :
    (e, ch.toNat) ∈ jsonEscapes ∧ ch.toNat < 0x80 := by
  unfold jsonEscape at h
  split_ifs at h with h₀ h₁ h₂ h₃ h₄ h₅
  · cases h
    rcases h₀ with rfl | rfl | rfl <;> decide
  all_goals
    cases h
    subst e
    decide

/-- `unhexchars` reads four digits. -/
theorem unhexchars_hex (h : JsonHex x t) (rest : Bytes) : unhexchars 4 (t ++ rest) 0 = some x := by
  obtain ⟨h₃, h₂, h₁, h₀⟩ := h
  simp only [cons_append, nil_append, unhexchars, h₃, h₂, h₁, h₀]
  congr 1
  omega

theorem exists_of_unhexchars {c : Bytes} (h : unhexchars 4 c 0 = some x) :
    ∃ t, JsonHex x t ∧ c = t ++ c.drop 4 := by
  rcases c with _ | ⟨c₃, _ | ⟨c₂, _ | ⟨c₁, _ | ⟨c₀, c⟩⟩⟩⟩
  · cases h
  · cases h₃ : unhexchar c₃ <;> simp [unhexchars, h₃] at h
  · cases h₃ : unhexchar c₃ <;> cases h₂ : unhexchar c₂ <;> simp [unhexchars, h₃, h₂] at h
  · cases h₃ : unhexchar c₃ <;> cases h₂ : unhexchar c₂ <;> cases h₁ : unhexchar c₁ <;>
      simp [unhexchars, h₃, h₂, h₁] at h
  · cases h₃ : unhexchar c₃ with
    | none => simp [unhexchars, h₃] at h
    | some d₃ =>
      cases h₂ : unhexchar c₂ with
      | none => simp [unhexchars, h₃, h₂] at h
      | some d₂ =>
        cases h₁ : unhexchar c₁ with
        | none => simp [unhexchars, h₃, h₂, h₁] at h
        | some d₁ =>
          cases h₀ : unhexchar c₀ with
          | none => simp [unhexchars, h₃, h₂, h₁, h₀] at h
          | some d₀ =>
            simp only [unhexchars, h₃, h₂, h₁, h₀, Option.some.injEq] at h
            refine ⟨[c₃, c₂, c₁, c₀], ?_, rfl⟩
            obtain rfl : x = 0x1000 * d₃ + 0x100 * d₂ + 0x10 * d₁ + d₀ := by omega
            exact .digits h₃ h₂ h₁ h₀

theorem JsonHex.length_eq (h : JsonHex x t) : t.length = 4 := by
  obtain ⟨-, -, -, -⟩ := h
  rfl

theorem unhexchar_lt : ∀ c : UInt8, ∀ d ∈ unhexchar c, d < 16 := by decide

theorem JsonHex.lt (h : JsonHex x t) : x < 0x10000 := by
  obtain ⟨h₃, h₂, h₁, h₀⟩ := h
  have b₃ := unhexchar_lt _ _ h₃
  have b₂ := unhexchar_lt _ _ h₂
  have b₁ := unhexchar_lt _ _ h₁
  have b₀ := unhexchar_lt _ _ h₀
  omega

theorem unhexUcs2_hex (h : JsonHex x t) (hx : x ≠ 0) (rest : Bytes) :
    unhexUcs2 (t ++ rest) = .ok x := by
  rw [unhexUcs2, unhexchars_hex h]
  exact if_neg hx

theorem exists_of_unhexUcs2 {c : Bytes} (h : unhexUcs2 c = .ok x) :
    x ≠ 0 ∧ ∃ t, JsonHex x t ∧ c = t ++ c.drop 4 := by
  unfold unhexUcs2 at h
  split at h
  · cases h
  rename_i y hy
  split at h
  · cases h
  rename_i hzero
  cases h
  exact ⟨hzero, exists_of_unhexchars hy⟩

/-- The character that a pair of surrogates stands for. -/
theorem utf16SurrogatePairToUnichar_eq (lead trail : Nat) : utf16SurrogatePairToUnichar lead trail =
    0x10000 + 0x400 * (lead - 0xd800) + (trail - 0xdc00) := by
  rw [utf16SurrogatePairToUnichar, Nat.shiftLeft_eq]
  omega

/-- What follows `\u` when it is read is the rest of an escape. -/
theorem jsonParseUnicode_sound {c : Bytes} (h : jsonParseUnicode c = .ok (u, p)) :
    ∃ t, JsonChar u (backslash :: 'u'.toUInt8 :: t) ∧ c = t ++ p := by
  unfold jsonParseUnicode at h
  split at h
  · cases h
  rename_i x hx
  obtain ⟨hzero, t, ht, hc⟩ := exists_of_unhexUcs2 hx
  split at h
  · rename_i hplain
    cases h
    refine ⟨t, .unicode ht hzero ?_, hc⟩
    simp only [utf16IsSurrogate, Bool.not_eq_true', Bool.and_eq_false_iff, decide_eq_false_iff_not] at hplain
    omega
  rename_i hsurrogate
  split at h
  · cases h
  rename_i htrailing
  split at h
  · rename_i c₀ c₁ c' hdrop
    split at h
    · cases h
    rename_i hescape
    split at h
    · cases h
    rename_i y hy
    obtain ⟨-, t', ht', hc'⟩ := exists_of_unhexUcs2 hy
    split at h
    · cases h
    rename_i htrail
    cases h
    simp only [not_or, not_not] at hescape
    obtain ⟨rfl, rfl⟩ := hescape
    refine ⟨t ++ backslash :: 'u'.toUInt8 :: t', ?_, ?_⟩
    · have hlead : 0xd800 ≤ x ∧ x ≤ 0xdbff := by
        simp only [utf16IsSurrogate, utf16IsTrailingSurrogate, Bool.not_eq_true', Bool.and_eq_true, decide_eq_true_eq,
          Bool.and_eq_false_iff, decide_eq_false_iff_not] at hsurrogate htrailing
        omega
      have htrail' : 0xdc00 ≤ y ∧ y ≤ 0xdfff := by simpa [utf16IsTrailingSurrogate] using htrail
      rw [utf16SurrogatePairToUnichar_eq]
      exact .surrogates ht hlead ht' htrail'
    · rw [hc, hdrop, append_assoc]
      simp only [cons_append]
      rw [← hc']
  · cases h

theorem jsonParseUnicode_unicode (h : JsonHex u t) (hzero : u ≠ 0)
    (hsurrogate : ¬ (0xd800 ≤ u ∧ u ≤ 0xdfff)) (rest : Bytes) :
    jsonParseUnicode (t ++ rest) = .ok (u, rest) := by
  have hplain : utf16IsSurrogate u = false := by simpa [utf16IsSurrogate] using hsurrogate
  unfold jsonParseUnicode
  simp only [unhexUcs2_hex h hzero, hplain, Bool.not_false, if_true]
  rw [drop_left' h.length_eq]

theorem jsonParseUnicode_surrogates {lead trail : Nat} {t' : Bytes} (h : JsonHex lead t)
    (hlead : 0xd800 ≤ lead ∧ lead ≤ 0xdbff) (h' : JsonHex trail t')
    (htrail : 0xdc00 ≤ trail ∧ trail ≤ 0xdfff) (rest : Bytes) :
    jsonParseUnicode (t ++ backslash :: 'u'.toUInt8 :: t' ++ rest) =
      .ok (0x10000 + 0x400 * (lead - 0xd800) + (trail - 0xdc00), rest) := by
  have hsurrogate : utf16IsSurrogate lead = true := by
    simp only [utf16IsSurrogate, Bool.and_eq_true, decide_eq_true_eq]
    omega
  have hnot : utf16IsTrailingSurrogate lead = false := by
    simp only [utf16IsTrailingSurrogate, Bool.and_eq_false_iff, decide_eq_false_iff_not]
    omega
  have htrailing : utf16IsTrailingSurrogate trail = true := by
    simp only [utf16IsTrailingSurrogate, Bool.and_eq_true, decide_eq_true_eq]
    omega
  unfold jsonParseUnicode
  rw [append_assoc]
  simp only [unhexUcs2_hex h (by omega : lead ≠ 0), hsurrogate, hnot, drop_left' h.length_eq, cons_append,
    unhexUcs2_hex h' (by omega : trail ≠ 0), htrailing, drop_left' h'.length_eq, Bool.not_true, if_false,
    ne_eq, not_true_eq_false, or_self, Bool.false_eq_true, utf16SurrogatePairToUnichar_eq]

/-! ## Strings -/

theorem JsonChar.lt (h : JsonChar u t) : u < 2 ^ 21 := by
  cases h with
  | unescaped hvalid => exact (lt_of_unicharIsValid hvalid).trans (by decide)
  | letter h => exact (jsonEscape_of_mem h).2.trans (by decide)
  | unicode h => exact h.lt.trans (by decide)
  | surrogates h hlead h' htrail => omega

theorem utf8EncodeUnichar_ne_nil (hu : u < 2 ^ 21) : utf8EncodeUnichar u ≠ [] := by
  obtain ⟨c, r, h, -⟩ := utf8EncodedValidUnichar_encode hu
  rw [h]
  exact cons_ne_nil c r

theorem JsonChar.length_pos (h : JsonChar u t) : 0 < t.length := by
  cases h with
  | unescaped hvalid =>
    exact length_pos_of_ne_nil (utf8EncodeUnichar_ne_nil ((lt_of_unicharIsValid hvalid).trans (by decide)))
  | letter h => exact Nat.two_pos
  | unicode h | surrogates h hlead h' htrail => exact Nat.succ_pos _

theorem JsonChars.lt (h : JsonChars us t) : ∀ u ∈ us, u < 2 ^ 21 := by
  induction h with
  | nil => simp
  | cons h _ ih =>
    intro w hw
    obtain rfl | hw := mem_cons.mp hw
    · exact h.lt
    · exact ih w hw

/-- The first byte of a character that stands for itself. -/
theorem first_of_unescaped {r : Bytes} (hlow : 0x20 ≤ u) (hquote : u ≠ 0x22) (hslash : u ≠ 0x5c)
    (hdelete : u ≠ 0x7f) (h : utf8EncodeUnichar u = c :: r) :
    ¬ c < space ∧ c ≠ 0x7f ∧ c ≠ doubleQuote ∧ c ≠ backslash := by
  by_cases hu : u < 0x80
  · rw [utf8EncodeUnichar_ascii hu] at h
    obtain ⟨rfl, -⟩ := cons.inj h
    have hall : ∀ u < 0x80, (0x20 ≤ u ∧ u ≠ 0x22 ∧ u ≠ 0x5c ∧ u ≠ 0x7f) → ¬ UInt8.ofNat u < space ∧
        UInt8.ofNat u ≠ 0x7f ∧ UInt8.ofNat u ≠ doubleQuote ∧ UInt8.ofNat u ≠ backslash := by decide
    exact hall u hu ⟨hlow, hquote, hslash, hdelete⟩
  · have hc := utf8EncodeUnichar_high (by omega : 0x80 ≤ u) c (by rw [h]; exact mem_cons_self)
    have hall : ∀ c : UInt8, 0x80 ≤ c → ¬ c < space ∧ c ≠ 0x7f ∧ c ≠ doubleQuote ∧ c ≠ backslash := by decide
    exact hall c hc

/-- A character whose first byte stands for itself is not one of the others. -/
theorem unescaped_of_first (hlow : ¬ c < space) (hdelete : c ≠ 0x7f) (hquote : c ≠ doubleQuote)
    (hslash : c ≠ backslash) (h : c ∈ (utf8EncodeUnichar u).head?) :
    0x20 ≤ u ∧ u ≠ 0x22 ∧ u ≠ 0x5c ∧ u ≠ 0x7f := by
  by_cases hu : u < 0x80
  · rw [utf8EncodeUnichar_ascii hu] at h
    obtain rfl : UInt8.ofNat u = c := Option.some.inj h
    have hall : ∀ u < 0x80, (¬ UInt8.ofNat u < space ∧ UInt8.ofNat u ≠ 0x7f ∧ UInt8.ofNat u ≠ doubleQuote ∧
        UInt8.ofNat u ≠ backslash) → 0x20 ≤ u ∧ u ≠ 0x22 ∧ u ≠ 0x5c ∧ u ≠ 0x7f := by decide
    exact hall u hu ⟨hlow, hdelete, hquote, hslash⟩
  · omega

/-- The loop takes a character at a time. -/
theorem jsonParseStringLoop_char (h : JsonChar u t) (n : Nat) (s p : Bytes) :
    jsonParseStringLoop (n + 1) s (t ++ p) = jsonParseStringLoop n (s ++ utf8EncodeUnichar u) p := by
  cases h with
  | unescaped hvalid hlow hquote hslash hdelete =>
    obtain ⟨c, r, hencode, hchar⟩ := utf8EncodedValidUnichar_encode ((lt_of_unicharIsValid hvalid).trans (by decide))
    obtain ⟨h₁, h₂, h₃, h₄⟩ := first_of_unescaped hlow hquote hslash hdelete hencode
    have hlength : r.length + 1 = (c :: r).length := rfl
    rw [hencode, cons_append]
    simp only [jsonParseStringLoop, h₁, h₂, h₃, h₄, hchar, hvalid, if_false, if_true]
    rw [← cons_append, hlength, take_left, drop_left]
  | @letter c u h =>
    obtain ⟨hescape, hu⟩ := jsonEscape_of_mem h
    simp only [cons_append, nil_append, jsonParseStringLoop, hescape, utf8EncodeUnichar_ascii hu]
    rfl
  | @unicode u t h hzero hsurrogate =>
    simp only [cons_append, jsonParseStringLoop, jsonParseUnicode_unicode h hzero hsurrogate]
    rfl
  | @surrogates lead trail t t' h hlead h' htrail =>
    simp only [cons_append, jsonParseStringLoop, jsonParseUnicode_surrogates h hlead h' htrail]
    rfl

/-- A string is read to its end. -/
theorem jsonParseStringLoop_complete (h : JsonChars us t) {n : Nat} (hn : t.length < n) (s rest : Bytes) :
    jsonParseStringLoop n s (t ++ doubleQuote :: rest) = .ok (s ++ us.flatMap utf8EncodeUnichar, rest) := by
  induction h generalizing n s with
  | nil =>
    obtain ⟨n, rfl⟩ : ∃ k, n = k + 1 := ⟨n - 1, by simp at hn; omega⟩
    rw [flatMap_nil, append_nil]
    rfl
  | @cons u us t ts h _ ih =>
    obtain ⟨n, rfl⟩ : ∃ k, n = k + 1 := ⟨n - 1, by omega⟩
    have hpos := h.length_pos
    rw [length_append] at hn
    rw [append_assoc, jsonParseStringLoop_char h, ih (by omega), flatMap_cons, append_assoc]

theorem jsonParseString_complete (h : JsonQuoted us t) (rest : Bytes) :
    jsonParseString (t ++ rest) = .ok (us.flatMap utf8EncodeUnichar, rest) := by
  obtain ⟨h⟩ := h
  rename_i t
  rw [cons_append, append_assoc, jsonParseString, if_neg (by simp)]
  refine jsonParseStringLoop_complete h ?_ [] rest
  simp

/-- What is read of a string is a string of the grammar. -/
theorem jsonParseStringLoop_sound {n : Nat} {s s' p' : Bytes}
    (h : jsonParseStringLoop n s p = .ok (s', p')) :
    ∃ us t, JsonChars us t ∧ p = t ++ doubleQuote :: p' ∧ s' = s ++ us.flatMap utf8EncodeUnichar := by
  induction n generalizing s p with
  | zero => cases h
  | succ n ih =>
    cases p with
    | nil => cases h
    | cons c p =>
      -- a character in front of what the rest of the loop reads
      have hcons : ∀ {u : Nat} {t q : Bytes}, JsonChar u t → c :: p = t ++ q →
          jsonParseStringLoop n (s ++ utf8EncodeUnichar u) q = .ok (s', p') →
          ∃ us t, JsonChars us t ∧ c :: p = t ++ doubleQuote :: p' ∧ s' = s ++ us.flatMap utf8EncodeUnichar := by
        intro u t q hchar htext hrest
        obtain ⟨us, ts, hts, rfl, rfl⟩ := ih hrest
        refine ⟨u :: us, t ++ ts, .cons hchar hts, ?_, ?_⟩
        · rw [htext, append_assoc]
        · rw [flatMap_cons, append_assoc]
      simp only [jsonParseStringLoop] at h
      split at h
      · cases h
      rename_i hlow
      split at h
      · cases h
      rename_i hdelete
      split at h
      · rename_i hquote
        cases h
        exact ⟨[], [], .nil, by rw [hquote]; rfl, by simp⟩
      rename_i hquote
      split at h
      · rename_i hslash
        subst hslash
        split at h
        · cases h
        rename_i e p
        split at h
        · rename_i ch hescape
          obtain ⟨hmem, hch⟩ := exists_of_jsonEscape hescape
          refine hcons (.letter hmem) rfl ?_
          rw [utf8EncodeUnichar_ascii hch, UInt8.ofNat_toNat]
          exact h
        · split at h
          · rename_i hunicode
            subst hunicode
            split at h
            · cases h
            rename_i u q hu
            obtain ⟨t, ht, rfl⟩ := jsonParseUnicode_sound hu
            exact hcons ht rfl h
          · cases h
      · rename_i hslash
        split at h
        · cases h
        rename_i len hlen
        obtain ⟨u, hvalid, htake, hpos, -⟩ := exists_of_utf8EncodedValidUnichar hlen
        have hfirst : c ∈ (utf8EncodeUnichar u).head? := by
          rw [← htake, head?_take, if_neg (by omega)]
          rfl
        obtain ⟨h₁, h₂, h₃, h₄⟩ := unescaped_of_first hlow hdelete hquote hslash hfirst
        have hu : JsonChar u (utf8EncodeUnichar u) := .unescaped hvalid h₁ h₂ h₃ h₄
        have htext : c :: p = utf8EncodeUnichar u ++ (c :: p).drop len := by rw [← htake, take_append_drop]
        refine hcons hu htext ?_
        rw [← htake]
        exact h

theorem jsonParseString_sound {s rest : Bytes} (h : jsonParseString p = .ok (s, rest)) :
    ∃ us t, JsonQuoted us t ∧ p = t ++ rest ∧ s = us.flatMap utf8EncodeUnichar := by
  unfold jsonParseString at h
  split at h
  · cases h
  rename_i c p
  split at h
  · cases h
  rename_i hquote
  obtain rfl := not_not.mp hquote
  obtain ⟨us, t, ht, rfl, rfl⟩ := jsonParseStringLoop_sound h
  refine ⟨us, _, .quotes ht, ?_, rfl⟩
  rw [cons_append, append_assoc]
  rfl

theorem JsonQuoted.lt (h : JsonQuoted us t) : ∀ u ∈ us, u < 2 ^ 21 := by
  obtain ⟨h⟩ := h
  exact h.lt

/-- A string that is read is one of allowed characters if its bytes are valid UTF-8. -/
theorem utf8IsValid_iff_of_jsonQuoted (h : JsonQuoted us t) :
    utf8IsValid (us.flatMap utf8EncodeUnichar) = true ↔ ∀ u ∈ us, unicharIsValid u = true := by
  rw [utf8IsValid_encode h.lt, all_eq_true]

end Elogind
