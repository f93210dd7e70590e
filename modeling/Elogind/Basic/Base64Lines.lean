/-
  Elogind.Basic.Base64Lines

  Base64 text with line breaks.  How long the text is does not depend on what is in it, so that the encoder
  gets to its end exactly where the computed size is not below that length.
-/

import Elogind.Basic.Base64RoundTrip

namespace Elogind

open Byte Errno List

-- for what is checked for each byte
set_option maxRecDepth 4000

/-! ## Lengths -/

/-- The length of a text of so many characters in lines of this length. -/
def brokenLength (bits lineBreak k : Nat) : Nat := if lineBreak = sizeMax bits then k else k + (k - 1) / lineBreak

section

variable {bits size lineBreak : Nat}

theorem brokenLength_mono {j k : Nat} (h : j ≤ k) :
    brokenLength bits lineBreak j ≤ brokenLength bits lineBreak k := by
  unfold brokenLength
  split_ifs
  · exact h
  · have hquotient : (j - 1) / lineBreak ≤ (k - 1) / lineBreak := Nat.div_le_div_right (by omega)
    omega

/-- A line break is due behind each full line, and nowhere else. -/
theorem break_due {k : Nat} (hpos : 0 < lineBreak) :
    if (k + (k - 1) / lineBreak) % (lineBreak + 1) = lineBreak then
      k + 1 + k / lineBreak = k + (k - 1) / lineBreak + 2
    else k + 1 + k / lineBreak = k + (k - 1) / lineBreak + 1 := by
  cases k with
  | zero =>
    rw [Nat.zero_sub, Nat.zero_div, Nat.zero_mod, if_neg (by omega)]
  | succ k =>
    have hsplit : lineBreak * (k / lineBreak) + k % lineBreak = k := Nat.div_add_mod k lineBreak
    have hrest : k % lineBreak < lineBreak := Nat.mod_lt k hpos
    have hmod : (k + 1 + k / lineBreak) % (lineBreak + 1) = k % lineBreak + 1 := by
      have heq : k + 1 + k / lineBreak = k % lineBreak + 1 + (lineBreak + 1) * (k / lineBreak) := by
        rw [Nat.add_mul, Nat.one_mul]
        omega
      rw [heq, Nat.add_mul_mod_self_left, Nat.mod_eq_of_lt (by omega)]
    rw [Nat.add_sub_cancel, hmod, Nat.succ_div]
    by_cases hfull : k % lineBreak + 1 = lineBreak
    · have hdvd : lineBreak ∣ k + 1 := by
        refine ⟨k / lineBreak + 1, ?_⟩
        rw [Nat.mul_add, Nat.mul_one]
        omega
      rw [if_pos hfull, if_pos hdvd]
      omega
    · have hdvd : ¬ lineBreak ∣ k + 1 := by
        intro hdvd
        have hzero : (k + 1) % lineBreak = 0 := Nat.mod_eq_zero_of_dvd hdvd
        rw [Nat.add_mod, Nat.mod_eq_of_lt (show 1 < lineBreak by omega), Nat.mod_eq_of_lt (by omega)] at hzero
        omega
      rw [if_neg hfull, if_neg hdvd]
      omega

/-! ## One character -/

theorem writeChar_ok {z : Bytes} {c : UInt8} (h : z.length < size) : writeChar size z c = some (z ++ [c]) := if_pos h

theorem writeChar_none {z : Bytes} {c : UInt8} (h : size ≤ z.length) : writeChar size z c = none :=
  if_neg (Nat.not_lt.mpr h)

theorem withoutSkipped_append (p q : Bytes) : withoutSkipped (p ++ q) = withoutSkipped p ++ withoutSkipped q :=
  filter_append p q

theorem withoutSkipped_singleton {c : UInt8} (h : isSkipped c = false) : withoutSkipped [c] = [c] :=
  withoutSkipped_eq_self fun d hd => by rwa [mem_singleton.mp hd]

/-- A character is written with the line break that is due, if there is space for both. -/
theorem base64Write_eq {k : Nat} {z : Bytes} {c : UInt8} (hpos : 0 < lineBreak) (hc : isSkipped c = false)
    (hz : z.length = brokenLength bits lineBreak k) :
    if brokenLength bits lineBreak (k + 1) ≤ size then
      ∃ w, base64Write bits size lineBreak z c = some w ∧ w.length = brokenLength bits lineBreak (k + 1) ∧
        withoutSkipped w = withoutSkipped z ++ [c]
    else base64Write bits size lineBreak z c = none := by
  unfold brokenLength at hz ⊢
  unfold base64Write maybeLineBreak
  by_cases hmax : lineBreak = sizeMax bits
  · simp only [if_pos hmax] at hz ⊢
    show if _ then ∃ w, writeChar size z c = some w ∧ _ else writeChar size z c = none
    split_ifs with hspace
    · refine ⟨z ++ [c], writeChar_ok (by omega), ?_, ?_⟩
      · rw [length_append, hz]
        rfl
      · rw [withoutSkipped_append, withoutSkipped_singleton hc]
    · exact writeChar_none (by omega)
  · simp only [if_neg hmax, Nat.add_sub_cancel] at hz ⊢
    have hdue := break_due (k := k) hpos
    rw [← hz] at hdue
    by_cases hbreak : z.length % (lineBreak + 1) = lineBreak
    · rw [if_pos hbreak] at hdue
      rw [if_pos hbreak, hdue]
      have hnewline : (z ++ [newline]).length = z.length + 1 := length_append
      split_ifs with hspace
      · rw [writeChar_ok (by omega)]
        refine ⟨z ++ [newline] ++ [c], writeChar_ok (by omega), ?_, ?_⟩
        · rw [length_append, hnewline]
          rfl
        · rw [withoutSkipped_append, withoutSkipped_append, withoutSkipped_singleton hc]
          show withoutSkipped z ++ [] ++ [c] = _
          rw [append_nil]
      · by_cases hfits : z.length < size
        · rw [writeChar_ok hfits]
          exact writeChar_none (by omega)
        · rw [writeChar_none (by omega)]
          rfl
    · rw [if_neg hbreak] at hdue
      rw [if_neg hbreak, hdue]
      show if _ then ∃ w, writeChar size z c = some w ∧ _ else writeChar size z c = none
      split_ifs with hspace
      · refine ⟨z ++ [c], writeChar_ok (by omega), length_append, ?_⟩
        rw [withoutSkipped_append, withoutSkipped_singleton hc]
      · exact writeChar_none (by omega)

/-- All characters are written with their line breaks, if there is space for them. -/
theorem foldlM_base64Write (hpos : 0 < lineBreak) (text : Bytes) :
    ∀ {k : Nat} {z : Bytes}, (∀ c ∈ text, isSkipped c = false) → z.length = brokenLength bits lineBreak k →
      z.length ≤ size →
        if brokenLength bits lineBreak (k + text.length) ≤ size then
          ∃ w, text.foldlM (base64Write bits size lineBreak) z = some w ∧
            w.length = brokenLength bits lineBreak (k + text.length) ∧ withoutSkipped w = withoutSkipped z ++ text
        else text.foldlM (base64Write bits size lineBreak) z = none := by
  induction text with
  | nil =>
    intro k z _ hz hsize
    rw [length_nil, Nat.add_zero, ← hz, if_pos hsize]
    exact ⟨z, rfl, rfl, (append_nil _).symm⟩
  | cons c text ih =>
    intro k z htext hz hsize
    have hwrite := @base64Write_eq bits size lineBreak k z c hpos (htext c (mem_cons_self ..)) hz
    have hlast : k + (c :: text).length = k + 1 + text.length := by
      rw [length_cons]
      omega
    rw [foldlM_cons, hlast]
    by_cases hspace : brokenLength bits lineBreak (k + 1) ≤ size
    · rw [if_pos hspace] at hwrite
      obtain ⟨w, hw, hlength, hclean⟩ := hwrite
      have hrest := ih (fun d hd => htext d (mem_cons_of_mem c hd)) hlength (hlength ▸ hspace)
      rw [hclean, append_assoc, singleton_append] at hrest
      rw [hw]
      exact hrest
    · rw [if_neg hspace] at hwrite
      have hmono : brokenLength bits lineBreak (k + 1) ≤ brokenLength bits lineBreak (k + 1 + text.length) :=
        brokenLength_mono (Nat.le_add_right _ _)
      rw [if_neg (by omega), hwrite]
      rfl

/-! ## The buffer -/

/-- The size of the buffer is enough exactly where it does not wrap. -/
theorem brokenLength_lt_iff {l : Nat} (hbits : 4 ≤ bits) (hl : l < 2 ^ bits) :
    brokenLength bits lineBreak (4 * ((l + 2) / 3)) < base64BufferSize bits l lineBreak ↔
      4 * (l + 2) < 2 ^ bits := by
  obtain ⟨m, hm, hm4⟩ : ∃ m, 2 ^ bits = 4 * m ∧ 4 ≤ m := by
    obtain ⟨n, rfl⟩ : ∃ n, bits = n + 4 := ⟨bits - 4, by omega⟩
    have hone : 1 ≤ 2 ^ n := Nat.one_le_two_pow
    exact ⟨2 ^ n * 4, by rw [Nat.pow_add]; omega, by omega⟩
  unfold brokenLength base64BufferSize
  rw [hm] at hl ⊢
  have hlt : 4 * (l + 2) % (4 * m) < 4 * m := Nat.mod_lt _ (by omega)
  generalize hv : 4 * (l + 2) % (4 * m) = v at hlt
  have hquotient : (v / 3 + 1) / lineBreak ≤ v / 3 + 1 := Nat.div_le_self _ _
  have hsize : (v / 3 + 1 + (v / 3 + 1) / lineBreak) % (4 * m) = v / 3 + 1 + (v / 3 + 1) / lineBreak :=
    Nat.mod_eq_of_lt (by omega)
  simp only [ne_eq, ite_not, hsize]
  constructor
  · intro hlength
    by_contra hwrap
    have hle : v ≤ 4 * (l + 2) - 4 * m := by
      rw [← hv, Nat.mod_eq_sub_mod (by omega)]
      exact Nat.mod_le _ _
    have hcount : v / 3 + 1 ≤ 4 * ((l + 2) / 3) - 1 := by omega
    split_ifs at hlength with hmax
    · omega
    · have hdiv : (v / 3 + 1) / lineBreak ≤ (4 * ((l + 2) / 3) - 1) / lineBreak := Nat.div_le_div_right hcount
      omega
  · intro hfits
    have hvalue : v = 4 * (l + 2) := by rw [← hv, Nat.mod_eq_of_lt hfits]
    split_ifs with hmax
    · omega
    · have hdiv : (4 * ((l + 2) / 3) - 1) / lineBreak ≤ (v / 3 + 1) / lineBreak :=
        Nat.div_le_div_right (by omega)
      omega

/-- The encoder gets to its end exactly where the size of the buffer does not wrap, and then it wrote the
    digits of the bytes with the line breaks between them. -/
theorem base64memFull_eq (hbits : 4 ≤ bits) (hpos : 0 < lineBreak) {x : Bytes} (hx : x.length < 2 ^ bits) :
    if 4 * (x.length + 2) < 2 ^ bits then
      ∃ t, base64memFull bits x lineBreak = some t ∧ withoutSkipped t = base64Chars x ∧
        t.length = brokenLength bits lineBreak (base64Chars x).length
    else base64memFull bits x lineBreak = none := by
  have hfits := @brokenLength_lt_iff bits lineBreak x.length hbits hx
  rw [← length_base64Chars] at hfits
  have hzero : ([] : Bytes).length = brokenLength bits lineBreak 0 := by
    unfold brokenLength
    rw [Nat.zero_sub, Nat.zero_div, ite_self]
    rfl
  have hwrite := @foldlM_base64Write bits (base64BufferSize bits x.length lineBreak) lineBreak hpos
    (base64Chars x) _ _ (fun c => isSkipped_of_mem_base64Chars) hzero (Nat.zero_le _)
  rw [Nat.zero_add] at hwrite
  simp only [base64memFull]
  split_ifs with hsmall
  · rw [if_pos (by omega)] at hwrite
    obtain ⟨w, hw, hwlength, hclean⟩ := hwrite
    rw [hw]
    exact ⟨w, writeZero_ok (by omega), hclean, hwlength⟩
  · by_cases hall : brokenLength bits lineBreak (base64Chars x).length ≤ base64BufferSize bits x.length lineBreak
    · rw [if_pos hall] at hwrite
      obtain ⟨w, hw, hwlength, -⟩ := hwrite
      rw [hw]
      exact if_neg (by omega)
    · rw [if_neg hall] at hwrite
      rw [hwrite]
      rfl

end

/-! ## Digits of a text -/

/-- A digit of either alphabet. -/
def isBase64Digit (c : UInt8) : Bool := (unbase64char c).isSome

/-- How many digits of either alphabet there are in a text. -/
def base64Digits (t : Bytes) : Nat := t.countP isBase64Digit

/-- Only the padding and what is skipped is no digit. -/
theorem base64Digits_base64Chars (x : Bytes) :
    base64Digits (base64Chars x) = (4 * x.length + 2) / 3 := by
  have hdigit : ∀ {n : Nat}, n < 64 → isBase64Digit (base64char n) = true := by
    intro n hn
    unfold isBase64Digit
    rw [unbase64char_base64char hn]
    rfl
  unfold base64Digits
  induction x using base64Chars.induct with
  | case1 x y z p ih =>
    obtain ⟨hfirst, hsecond, hthird, hfourth⟩ := digits_lt x y z
    rw [base64Chars_block, countP_cons_of_pos (hdigit hfirst), countP_cons_of_pos (hdigit hsecond),
      countP_cons_of_pos (hdigit hthird), countP_cons_of_pos (hdigit hfourth), ih]
    simp only [length_cons]
    omega
  | case2 x y =>
    obtain ⟨hfirst, hsecond, -, -⟩ := digits_lt x y 0
    rw [base64Chars_two, countP_cons_of_pos (hdigit hfirst), countP_cons_of_pos (hdigit hsecond),
      countP_cons_of_pos (hdigit (show 4 * (y.toNat % 16) < 64 by omega))]
    simp only [length_cons, length_nil]
    decide
  | case3 x =>
    obtain ⟨hfirst, -, -, -⟩ := digits_lt x 0 0
    rw [base64Chars_one, countP_cons_of_pos (hdigit hfirst),
      countP_cons_of_pos (hdigit (show 16 * (x.toNat % 4) < 64 by omega))]
    simp only [length_cons, length_nil]
    decide
  | case4 => rfl

theorem base64Digits_map (p : Bytes) : base64Digits (p.map regularChar) = base64Digits p := by
  have hall : ∀ c, isBase64Digit (regularChar c) = isBase64Digit c := by decide
  unfold base64Digits
  rw [countP_map]
  exact countP_congr fun c _ => by rw [Function.comp_apply, hall c]

theorem base64Digits_withoutSkipped (t : Bytes) : base64Digits (withoutSkipped t) = base64Digits t := by
  have hall : ∀ c, isSkipped c = true → isBase64Digit c = false := by decide
  unfold base64Digits withoutSkipped
  rw [countP_filter]
  refine countP_congr fun c _ => ?_
  cases hc : isSkipped c with
  | true => rw [hall c hc, Bool.false_and]
  | false => rw [Bool.not_false, Bool.and_true]

/-- How many bytes a text is read as. -/
theorem length_of_unbase64memFull {t y : Bytes} (h : unbase64memFull t = some (.ok y)) :
    y.length = 3 * base64Digits t / 4 := by
  have hcount := base64Digits_base64Chars y
  rw [unbase64memFull_sound h, base64Digits_map, base64Digits_withoutSkipped] at hcount
  omega

/-! ## Round trips -/

/-- `base64mem` -/
def base64mem (bits : Nat) (p : Bytes) : Option Bytes := base64memFull bits p (sizeMax bits)

section

variable {bits : Nat}

/-- The bytes come back exactly where the size of the buffer does not wrap. -/
theorem unbase64memFull_base64memFull (hbits : 4 ≤ bits) {x : Bytes} (hx : x.length < 2 ^ bits) {lineBreak : Nat}
    (hpos : 0 < lineBreak) :
    (∃ t, base64memFull bits x lineBreak = some t ∧ unbase64memFull t = some (.ok x)) ↔
      4 * (x.length + 2) < 2 ^ bits := by
  have hencode := base64memFull_eq hbits hpos hx
  constructor
  · rintro ⟨t, ht, -⟩
    by_contra hwrap
    rw [if_neg hwrap, ht] at hencode
    cases hencode
  · intro hfits
    rw [if_pos hfits] at hencode
    obtain ⟨t, ht, htext, -⟩ := hencode
    exact ⟨t, ht, unbase64memFull_of_text htext⟩

/-- Without line breaks, the text is the digits. -/
theorem base64mem_eq (hbits : 4 ≤ bits) {x : Bytes} (hfits : 4 * (x.length + 2) < 2 ^ bits) :
    base64mem bits x = some (base64Chars x) := by
  have hpos : 0 < sizeMax bits := by
    unfold sizeMax
    omega
  have hencode := base64memFull_eq hbits hpos (x := x) (by omega)
  rw [if_pos hfits] at hencode
  obtain ⟨t, ht, htext, hlength⟩ := hencode
  unfold brokenLength at hlength
  rw [if_pos rfl, ← htext] at hlength
  have hself : withoutSkipped t = t :=
    (filter_sublist (l := t)).eq_of_length hlength.symm
  unfold base64mem
  rw [ht, ← htext, hself]

/-- Where nothing is a zero, just whitespace is skipped. -/
theorem withoutSkipped_of_no_zero {t : Bytes} (h : 0 ∉ t) : withoutSkipped t = t.filter fun c => !isWhitespace c := by
  refine filter_congr fun c hc => ?_
  have hne : c ≠ 0 := fun hzero => h (hzero ▸ hc)
  unfold isSkipped
  rw [decide_eq_false hne, Bool.false_or]

/-- The text comes back in the regular alphabet and without whitespace, where it has no zero and the size of
    the buffer does not wrap, and only there. -/
theorem base64mem_unbase64memFull (hbits : 4 ≤ bits) {t y : Bytes} (ht : t.length < 2 ^ bits)
    (h : unbase64memFull t = some (.ok y)) :
    base64mem bits y = some ((t.filter fun c => !isWhitespace c).map regularChar) ↔
      0 ∉ t ∧ 4 * (3 * base64Digits t / 4 + 2) < 2 ^ bits := by
  rw [← length_of_unbase64memFull h]
  constructor
  · intro hback
    have hlength : y.length < 2 ^ bits := by
      have hcount : base64Digits t ≤ t.length := countP_le_length
      rw [length_of_unbase64memFull h]
      omega
    have hfits : 4 * (y.length + 2) < 2 ^ bits := by
      have hpos : 0 < sizeMax bits := by
        have hsixteen : 2 ^ 4 ≤ 2 ^ bits := Nat.pow_le_pow_right (by decide) hbits
        unfold sizeMax
        omega
      have hencode := base64memFull_eq hbits hpos hlength
      by_contra hwrap
      rw [if_neg hwrap] at hencode
      unfold base64mem at hback
      rw [hencode] at hback
      cases hback
    refine ⟨fun hzero => ?_, hfits⟩
    rw [base64mem_eq hbits hfits] at hback
    have hmem : (0 : UInt8) ∈ base64Chars y := by
      rw [Option.some.inj hback]
      exact mem_map.mpr ⟨0, mem_filter.mpr ⟨hzero, rfl⟩, rfl⟩
    have hskipped := isSkipped_of_mem_base64Chars hmem
    cases hskipped
  · rintro ⟨hzero, hfits⟩
    rw [base64mem_eq hbits hfits, unbase64memFull_sound h, withoutSkipped_of_no_zero hzero]

end

/-- Base64 and hexadecimal text are inverse to the bytes, the decoders write only into their buffers, and a text
    that is accepted is written for its bytes: all of it exactly where no size of a buffer wraps and, for the
    last, the text has no zero in it. -/
theorem base64_inverse (bits : Nat) (hbits : 4 ≤ bits) (x t : Bytes) (hx : x.length < 2 ^ bits)
    (ht : t.length < 2 ^ bits) (lineBreak : Nat) (hpos : 0 < lineBreak) :
    ((∃ s, base64memFull bits x lineBreak = some s ∧ unbase64memFull s = some (.ok x)) ↔
      4 * (x.length + 2) < 2 ^ bits) ∧
    ((∃ s, hexmem bits x = some s ∧ unhexmemFull s = some (.ok x)) ↔ 2 * x.length + 1 < 2 ^ bits) ∧
    unbase64memFull t ≠ none ∧ unhexmemFull t ≠ none ∧
    ∀ y, unbase64memFull t = some (.ok y) →
      (base64mem bits y = some ((t.filter fun c => !isWhitespace c).map regularChar) ↔
        0 ∉ t ∧ 4 * (3 * base64Digits t / 4 + 2) < 2 ^ bits) :=
  ⟨unbase64memFull_base64memFull hbits hx hpos, unhexmemFull_hexmem bits x, unbase64memFull_safe t,
    unhexmemFull_safe t, fun _ => base64mem_unbase64memFull hbits ht⟩

/-- Two bytes, on a machine with a `size_t` of 64 bits. -/
theorem base64_inverse_two :
    (4 ≤ 64 ∧ ([104, 105] : Bytes).length < 2 ^ 64 ∧ 0 < 76) ∧
      ((∃ s, base64memFull 64 [104, 105] 76 = some s ∧ unbase64memFull s = some (.ok [104, 105])) ↔
        4 * (([104, 105] : Bytes).length + 2) < 2 ^ 64) :=
  ⟨by decide, (base64_inverse 64 (by decide) [104, 105] [] (by decide) (by decide) 76 (by decide)).1⟩

/-- A zero is accepted as the text of no bytes, which are written as no text. -/
theorem base64mem_loses_zero :
    unbase64memFull [0] = some (.ok []) ∧
      base64mem 64 [] ≠ some ((([0] : Bytes).filter fun c => !isWhitespace c).map regularChar) := by decide

end Elogind
