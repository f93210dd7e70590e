/-
  Elogind.Basic.Unbase64

  The decoders of base64 and hexadecimal text.  What they read is the text without what is skipped: what they
  accept is the text that is written for the bytes, with the digits of either alphabet, and from that text they
  get the bytes back.
-/

import Elogind.Basic.Base64Digits

namespace Elogind

open Byte Errno

/-! ## The next digit -/

section

variable {α : Type} {digit : UInt8 → Option α}

/-- The digit that is read is the first of the text. -/
theorem nextDigit_eq_ok {p q : Bytes} {a : α} (h : nextDigit digit p = .ok (a, q)) :
    ∃ c, digit c = some a ∧ withoutSkipped p = c :: withoutSkipped q ∧ (withoutSkipped q = [] ↔ q = []) ∧
      q.length < p.length := by
  rcases nextDigit_eq digit p with ⟨-, hnone⟩ | ⟨c, p', htext, hrest, hlength, hnext⟩
  · rw [hnone] at h
    cases h
  · rw [hnext] at h
    cases hdigit : digit c with
    | none =>
      rw [hdigit] at h
      cases h
    | some b =>
      rw [hdigit] at h
      cases h
      exact ⟨c, hdigit, htext, hrest, hlength⟩

/-- The first of the text is the digit that is read. -/
theorem nextDigit_of_text {p t : Bytes} {c : UInt8} {a : α} (htext : withoutSkipped p = c :: t)
    (hdigit : digit c = some a) :
    ∃ q, nextDigit digit p = .ok (a, q) ∧ withoutSkipped q = t ∧ (t = [] → q = []) ∧ q.length < p.length := by
  rcases nextDigit_eq digit p with ⟨hempty, -⟩ | ⟨d, q, hfirst, hrest, hlength, hnext⟩
  · rw [hempty] at htext
    cases htext
  · rw [hfirst] at htext
    obtain ⟨rfl, rfl⟩ := List.cons.inj htext
    rw [hdigit] at hnext
    exact ⟨q, hnext, rfl, hrest.mp, hlength⟩

theorem nextDigit_of_no_text {p : Bytes} (htext : withoutSkipped p = []) :
    nextDigit digit p = .error EPIPE := by
  rcases nextDigit_eq digit p with ⟨-, hnone⟩ | ⟨c, q, hfirst, -⟩
  · exact hnone
  · rw [htext] at hfirst
    cases hfirst

/-- Nothing is left only where the text is at its end. -/
theorem no_text_of_nextDigit {p : Bytes} (h : nextDigit digit p = .error EPIPE) : withoutSkipped p = [] := by
  rcases nextDigit_eq digit p with ⟨hnone, -⟩ | ⟨c, q, -, -, -, hnext⟩
  · exact hnone
  · rw [hnext] at h
    cases hdigit : digit c with
    | none =>
      rw [hdigit] at h
      have heq : EINVAL = EPIPE := Except.error.inj h
      exact absurd heq (by decide)
    | some a =>
      rw [hdigit] at h
      cases h

end

/-! ## Digits of base64 -/

variable {p q t : Bytes} {n a b : Nat} {c d : Option Nat} {x : UInt8}

/-- A number is read from a digit of either alphabet. -/
theorem unbase64Next_some (h : unbase64Next p = .ok (some n, q)) :
    ∃ c, n < 64 ∧ regularChar c = base64char n ∧ withoutSkipped p = c :: withoutSkipped q ∧
      (withoutSkipped q = [] ↔ q = []) ∧ q.length < p.length := by
  obtain ⟨c, hdigit, hrest⟩ := nextDigit_eq_ok h
  split at hdigit
  · cases hdigit
  · obtain ⟨m, hm, hsome⟩ := Option.map_eq_some_iff.mp hdigit
    cases hsome
    obtain ⟨hlt, hchar⟩ := unbase64char_eq_some hm
    exact ⟨c, hlt, hchar.symm, hrest⟩

theorem unbase64Next_none (h : unbase64Next p = .ok (none, q)) :
    withoutSkipped p = equals :: withoutSkipped q ∧ (withoutSkipped q = [] ↔ q = []) ∧ q.length < p.length := by
  obtain ⟨c, hdigit, hrest⟩ := nextDigit_eq_ok h
  split at hdigit
  · rename_i hc
    rw [hc] at hrest
    exact hrest
  · obtain ⟨m, -, hsome⟩ := Option.map_eq_some_iff.mp hdigit
    cases hsome

/-- A number is read back from its character. -/
theorem unbase64Next_of_char (hn : n < 64) (htext : withoutSkipped p = base64char n :: t) :
    ∃ q, unbase64Next p = .ok (some n, q) ∧ withoutSkipped q = t ∧ (t = [] → q = []) ∧ q.length < p.length := by
  refine nextDigit_of_text htext ?_
  rw [if_neg (base64char_ne_equals hn), unbase64char_base64char hn]
  rfl

theorem unbase64Next_of_equals (htext : withoutSkipped p = equals :: t) :
    ∃ q, unbase64Next p = .ok (none, q) ∧ withoutSkipped q = t ∧ (t = [] → q = []) ∧ q.length < p.length := by
  refine nextDigit_of_text htext ?_
  rw [if_pos rfl]

/-! ## Blocks -/

/-- What a round says about the text. -/
def RoundSound (p : Bytes) : Base64Round → Prop
  | .done => withoutSkipped p = []
  | .last out =>
    base64Chars out = (withoutSkipped p).map regularChar ∧ out.length ≤ 2 ∧ (withoutSkipped p).length = 4
  | .more out q =>
    ∃ x y z, out = [x, y, z] ∧ q.length < p.length ∧
      ∃ t, withoutSkipped p = t ++ withoutSkipped q ∧ t.length = 4 ∧
        ∀ r, base64Chars (x :: y :: z :: r) = t.map regularChar ++ base64Chars r

/-- A value is what the second step makes of the value of the first. -/
theorem ok_of_bind_eq_ok {α β : Type} {a : Result α} {f : α → Result β} {b : β} (h : a >>= f = .ok b) :
    ∃ v, a = .ok v ∧ f v = .ok b := by
  cases a with
  | error er => cases h
  | ok v => exact ⟨v, rfl, h⟩

theorem notPadding_eq_ok {a : Option Nat} (h : notPadding a = .ok n) : a = some n := by
  cases a with
  | none => cases h
  | some m =>
    cases h
    rfl

/-- A block is read from four characters. -/
theorem unbase64Block_eq_ok {a : Option Nat} {round : Base64Round} (h : unbase64Block a p = .ok round) :
    ∃ m n c d p₂ p₃ p₄, a = some m ∧ unbase64Next p = .ok (some n, p₂) ∧ unbase64Next p₂ = .ok (c, p₃) ∧
      unbase64Next p₃ = .ok (d, p₄) ∧ base64Bytes m n c d p₄ = .ok round := by
  obtain ⟨m, hm, h⟩ := ok_of_bind_eq_ok h
  obtain ⟨⟨b, p₂⟩, hsecond, h⟩ := ok_of_bind_eq_ok h
  obtain ⟨n, hn, h⟩ := ok_of_bind_eq_ok h
  obtain ⟨⟨c, p₃⟩, hthird, h⟩ := ok_of_bind_eq_ok h
  obtain ⟨⟨d, p₄⟩, hfourth, h⟩ := ok_of_bind_eq_ok h
  rw [notPadding_eq_ok hn] at hsecond
  exact ⟨m, n, c, d, p₂, p₃, p₄, notPadding_eq_ok hm, hsecond, hthird, hfourth, h⟩

theorem unbase64Block_ok {m : Nat} {p₂ p₃ p₄ : Bytes} (hsecond : unbase64Next p = .ok (some n, p₂))
    (hthird : unbase64Next p₂ = .ok (c, p₃)) (hfourth : unbase64Next p₃ = .ok (d, p₄)) :
    unbase64Block (some m) p = base64Bytes m n c d p₄ := by
  unfold unbase64Block
  rw [hsecond]
  show (unbase64Next p₂).bind _ = _
  rw [hthird]
  show (unbase64Next p₃).bind _ = _
  rw [hfourth]
  rfl

/-- The bytes of a block that ends the text. -/
theorem base64Bytes_eq_last {out : Bytes} (ha : a < 64) (hb : b < 64) (hc : ∀ m, c = some m → m < 64)
    (h : base64Bytes a b c d p = .ok (.last out)) :
    d = none ∧ p = [] ∧ out.length ≤ 2 ∧
      base64Chars out = [base64char a, base64char b, c.elim equals base64char, equals] := by
  cases c with
  | none =>
    cases d with
    | some d => cases h
    | none =>
      simp only [base64Bytes] at h
      split_ifs at h with hlow hrest
      cases h
      rw [base64Chars_oneByte ha hb (not_not.mp hlow)]
      exact ⟨rfl, List.length_eq_zero_iff.mp (by omega), Nat.le_succ 1, rfl⟩
  | some m =>
    cases d with
    | some d => cases h
    | none =>
      simp only [base64Bytes] at h
      split_ifs at h with hlow hrest
      cases h
      rw [base64Chars_twoBytes ha hb (hc m rfl) (not_not.mp hlow)]
      exact ⟨rfl, List.length_eq_zero_iff.mp (by omega), Nat.le_refl 2, rfl⟩

/-- The bytes of a block behind which the text goes on. -/
theorem base64Bytes_eq_more {out : Bytes} (h : base64Bytes a b c d p = .ok (.more out q)) :
    ∃ m n, c = some m ∧ d = some n ∧ q = p ∧
      out = [UInt8.ofNat (a <<< 2 ||| b >>> 4), UInt8.ofNat (b <<< 4 ||| m >>> 2), UInt8.ofNat (m <<< 6 ||| n)] := by
  cases c with
  | none =>
    cases d with
    | some d => cases h
    | none =>
      simp only [base64Bytes] at h
      split_ifs at h
      cases h
  | some m =>
    cases d with
    | none =>
      simp only [base64Bytes] at h
      split_ifs at h
      cases h
    | some n =>
      cases h
      exact ⟨m, n, rfl, rfl, rfl, rfl⟩

theorem base64Bytes_ne_done : base64Bytes a b c d p ≠ .ok .done := by
  intro h
  cases c with
  | none =>
    cases d with
    | some d => cases h
    | none =>
      simp only [base64Bytes] at h
      split_ifs at h
      cases h
  | some m =>
    cases d with
    | none =>
      simp only [base64Bytes] at h
      split_ifs at h
      cases h
    | some n => cases h

/-- A character that may be padding. -/
theorem unbase64Next_char (h : unbase64Next p = .ok (c, q)) :
    ∃ ch, regularChar ch = c.elim equals base64char ∧ (∀ m, c = some m → m < 64) ∧
      withoutSkipped p = ch :: withoutSkipped q ∧ (withoutSkipped q = [] ↔ q = []) ∧ q.length < p.length := by
  cases c with
  | none =>
    obtain ⟨htext, hrest⟩ := unbase64Next_none h
    refine ⟨equals, rfl, fun m hm => ?_, htext, hrest⟩
    cases hm
  | some n =>
    obtain ⟨ch, hn, hchar, hrest⟩ := unbase64Next_some h
    refine ⟨ch, hchar, fun m hm => ?_, hrest⟩
    cases hm
    exact hn

/-- The text is at its end, the last of it is written for the last bytes, or the first of it is written for the
    bytes that were read. -/
theorem unbase64Round_sound {round : Base64Round} (h : unbase64Round p = .ok round) :
    RoundSound p round := by
  unfold unbase64Round at h
  cases hfirst : unbase64Next p with
  | error er =>
    simp only [hfirst] at h
    split_ifs at h with her
    cases h
    rw [her] at hfirst
    exact no_text_of_nextDigit hfirst
  | ok v =>
    obtain ⟨a, p₁⟩ := v
    simp only [hfirst] at h
    obtain ⟨a, b, c, d, p₂, p₃, p₄, rfl, hsecond, hthird, hfourth, hbytes⟩ := unbase64Block_eq_ok h
    obtain ⟨ca, ha, hca, htext₁, -, hlength₁⟩ := unbase64Next_some hfirst
    obtain ⟨cb, hb, hcb, htext₂, -, hlength₂⟩ := unbase64Next_some hsecond
    obtain ⟨cc, hcc, hc, htext₃, -, hlength₃⟩ := unbase64Next_char hthird
    obtain ⟨cd, hcd, hd, htext₄, hend, hlength₄⟩ := unbase64Next_char hfourth
    cases round with
    | done => exact absurd hbytes base64Bytes_ne_done
    | last out =>
      obtain ⟨rfl, rfl, hlength, hchars⟩ := base64Bytes_eq_last ha hb hc hbytes
      rw [RoundSound, htext₁, htext₂, htext₃, htext₄, hend.mpr rfl, hchars]
      refine ⟨?_, hlength, rfl⟩
      show _ = [regularChar ca, regularChar cb, regularChar cc, regularChar cd]
      rw [hca, hcb, hcc, hcd]
      rfl
    | more out q =>
      obtain ⟨m, n, rfl, rfl, rfl, rfl⟩ := base64Bytes_eq_more hbytes
      refine ⟨_, _, _, rfl, by omega, [ca, cb, cc, cd], ?_, rfl, fun r => ?_⟩
      · rw [htext₁, htext₂, htext₃, htext₄]
        rfl
      · rw [base64Chars_threeBytes ha hb (hc m rfl) (hd n rfl)]
        show _ = regularChar ca :: regularChar cb :: regularChar cc :: regularChar cd :: _
        rw [hca, hcb, hcc, hcd]
        rfl

theorem unbase64Round_done (htext : withoutSkipped p = []) : unbase64Round p = .ok .done := by
  unfold unbase64Round unbase64Next
  rw [nextDigit_of_no_text htext]
  rfl

/-- A block of four digits is read as its three bytes. -/
theorem unbase64Round_three {y z : UInt8} (htext : withoutSkipped p = base64Chars (x :: y :: z :: t)) :
    ∃ q, unbase64Round p = .ok (.more [x, y, z] q) ∧ withoutSkipped q = base64Chars t ∧ q.length < p.length := by
  rw [base64Chars_block] at htext
  obtain ⟨hfirst, hsecond, hthird, hfourth⟩ := digits_lt x y z
  obtain ⟨hx, hy, hz⟩ := threeBytes_eq x y z
  obtain ⟨p₁, hnext₁, htext₁, -, hlength₁⟩ := unbase64Next_of_char hfirst htext
  obtain ⟨p₂, hnext₂, htext₂, -, hlength₂⟩ := unbase64Next_of_char hsecond htext₁
  obtain ⟨p₃, hnext₃, htext₃, -, hlength₃⟩ := unbase64Next_of_char hthird htext₂
  obtain ⟨p₄, hnext₄, htext₄, -, hlength₄⟩ := unbase64Next_of_char hfourth htext₃
  refine ⟨p₄, ?_, htext₄, by omega⟩
  simp only [unbase64Round, hnext₁, unbase64Block_ok hnext₂ hnext₃ hnext₄, base64Bytes, hx, hy, hz]

/-- What is left over is read as its two bytes. -/
theorem unbase64Round_two {y : UInt8} (htext : withoutSkipped p = base64Chars [x, y]) :
    unbase64Round p = .ok (.last [x, y]) := by
  rw [base64Chars_two] at htext
  obtain ⟨hfirst, hsecond, hthird, -⟩ := digits_lt x y 0
  obtain ⟨hx, hy, -⟩ := threeBytes_eq x y 0
  have hlow : (4 * (y.toNat % 16)) &&& 3 = 0 := by
    rw [and_three]
    omega
  obtain ⟨p₁, hnext₁, htext₁, -, -⟩ := unbase64Next_of_char hfirst htext
  obtain ⟨p₂, hnext₂, htext₂, -, -⟩ := unbase64Next_of_char hsecond htext₁
  obtain ⟨p₃, hnext₃, htext₃, -, -⟩ := unbase64Next_of_char (n := 4 * (y.toNat % 16)) (by omega) htext₂
  obtain ⟨p₄, hnext₄, -, hend, -⟩ := unbase64Next_of_equals htext₃
  rw [hend rfl] at hnext₄
  have hbytes : UInt8.ofNat ((16 * (x.toNat % 4) + y.toNat / 16) <<< 4 ||| (4 * (y.toNat % 16)) >>> 2) = y := hy
  have hnorest : ¬ ([] : Bytes).length > 0 := Nat.not_lt_zero 0
  simp only [unbase64Round, hnext₁, unbase64Block_ok hnext₂ hnext₃ hnext₄, base64Bytes]
  rw [if_neg (not_not.mpr hlow), if_neg hnorest, hx, hbytes]

/-- What is left over is read as its byte. -/
theorem unbase64Round_one (htext : withoutSkipped p = base64Chars [x]) :
    unbase64Round p = .ok (.last [x]) := by
  rw [base64Chars_one] at htext
  obtain ⟨hfirst, hsecond, -, -⟩ := digits_lt x 0 0
  obtain ⟨hx, -, -⟩ := threeBytes_eq x 0 0
  have hlow : (16 * (x.toNat % 4)) &&& 15 = 0 := by
    rw [and_fifteen]
    omega
  obtain ⟨p₁, hnext₁, htext₁, -, -⟩ := unbase64Next_of_char hfirst htext
  obtain ⟨p₂, hnext₂, htext₂, -, -⟩ := unbase64Next_of_char (n := 16 * (x.toNat % 4)) (by omega) htext₁
  obtain ⟨p₃, hnext₃, htext₃, -, -⟩ := unbase64Next_of_equals htext₂
  obtain ⟨p₄, hnext₄, -, hend, -⟩ := unbase64Next_of_equals htext₃
  rw [hend rfl] at hnext₄
  have hbytes : UInt8.ofNat ((x.toNat / 4) <<< 2 ||| (16 * (x.toNat % 4)) >>> 4) = x := hx
  have hnorest : ¬ ([] : Bytes).length > 0 := Nat.not_lt_zero 0
  simp only [unbase64Round, hnext₁, unbase64Block_ok hnext₂ hnext₃ hnext₄, base64Bytes]
  rw [if_neg (not_not.mpr hlow), if_neg hnorest, hbytes]

end Elogind
