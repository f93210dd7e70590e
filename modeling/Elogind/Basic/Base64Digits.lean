/-
  Elogind.Basic.Base64Digits

  What one block of digits stands for.  Three bytes are twenty-four bits and so are four digits of base64, and
  each digit is read as the character that is written for it.
-/

import Elogind.Basic.Base64
import Elogind.Basic.BusLabel

namespace Elogind

open Byte Errno List

-- for what is checked for each digit and each byte
set_option maxRecDepth 4000

/-! ## Characters -/

/-- The character of the regular alphabet for a digit of the URL safe one. -/
def regularChar (c : UInt8) : UInt8 := if c = 45 then 43 else if c = 95 then 47 else c

/-- The characters of the regular alphabet. -/
def IsBase64Char (c : UInt8) : Prop := ∃ n < 64, c = base64char n

theorem unbase64char_base64char {n : Nat} (hn : n < 64) : unbase64char (base64char n) = some n := by
  have hall : ∀ n < 64, unbase64char (base64char n) = some n := by decide
  exact hall n hn

theorem base64char_ne_equals {n : Nat} (hn : n < 64) : base64char n ≠ equals := by
  have hall : ∀ n < 64, base64char n ≠ equals := by decide
  exact hall n hn

theorem isSkipped_base64char {n : Nat} (hn : n < 64) : isSkipped (base64char n) = false := by
  have hall : ∀ n < 64, isSkipped (base64char n) = false := by decide
  exact hall n hn

theorem isSkipped_hexchar (c : UInt8) : isSkipped (hexchar c) = false := by
  have hall : ∀ c, isSkipped (hexchar c) = false := by decide
  exact hall c

/-- A digit that is read is below 64, and the character that is written for it is the regular one. -/
theorem unbase64char_eq_some {c : UInt8} {n : Nat} (h : unbase64char c = some n) :
    n < 64 ∧ base64char n = regularChar c := by
  have hall : ∀ c, ∀ n ∈ unbase64char c, n < 64 ∧ base64char n = regularChar c := by decide
  exact hall c n h

/-! ## Bits -/

theorem and_lowBits (n k : Nat) : n &&& (2 ^ k - 1) = n % 2 ^ k := Nat.and_two_pow_sub_one_eq_mod n k

theorem and_three (n : Nat) : n &&& 3 = n % 4 := and_lowBits n 2

theorem and_fifteen (n : Nat) : n &&& 15 = n % 16 := and_lowBits n 4

theorem and_sixtyThree (n : Nat) : n &&& 63 = n % 64 := and_lowBits n 6

/-- Bits that do not overlap are added. -/
theorem shift_or (n : Nat) {m k : Nat} (hm : m < 2 ^ k) : n <<< k ||| m = 2 ^ k * n + m := by
  rw [← Nat.shiftLeft_add_eq_or_of_lt hm, Nat.shiftLeft_eq, Nat.mul_comm]

theorem firstDigit_eq (x : UInt8) : x.toNat >>> 2 = x.toNat / 4 := Nat.shiftRight_eq_div_pow _ _

theorem secondDigit_eq (x y : UInt8) :
    (x.toNat &&& 3) <<< 4 ||| y.toNat >>> 4 = 16 * (x.toNat % 4) + y.toNat / 16 := by
  have hy : y.toNat >>> 4 < 2 ^ 4 := by
    have := y.toNat_lt
    omega
  rw [shift_or _ hy, and_three, Nat.shiftRight_eq_div_pow]
  rfl

theorem secondDigit_last (x : UInt8) : (x.toNat &&& 3) <<< 4 = 16 * (x.toNat % 4) := by
  rw [and_three, Nat.shiftLeft_eq, Nat.mul_comm]

theorem thirdDigit_eq (y z : UInt8) :
    (y.toNat &&& 15) <<< 2 ||| z.toNat >>> 6 = 4 * (y.toNat % 16) + z.toNat / 64 := by
  have hz : z.toNat >>> 6 < 2 ^ 2 := by
    have := z.toNat_lt
    omega
  rw [shift_or _ hz, and_fifteen, Nat.shiftRight_eq_div_pow]
  rfl

theorem thirdDigit_last (y : UInt8) : (y.toNat &&& 15) <<< 2 = 4 * (y.toNat % 16) := by
  rw [and_fifteen, Nat.shiftLeft_eq, Nat.mul_comm]

theorem firstByte_eq (a : Nat) {b : Nat} (hb : b < 64) : a <<< 2 ||| b >>> 4 = 4 * a + b / 16 := by
  have hlow : b >>> 4 < 2 ^ 2 := by
    omega
  rw [shift_or _ hlow, Nat.shiftRight_eq_div_pow]
  rfl

theorem secondByte_eq (b : Nat) {c : Nat} (hc : c < 64) : b <<< 4 ||| c >>> 2 = 16 * b + c / 4 := by
  have hlow : c >>> 2 < 2 ^ 4 := by
    omega
  rw [shift_or _ hlow, Nat.shiftRight_eq_div_pow]
  rfl

theorem thirdByte_eq (c : Nat) {d : Nat} (hd : d < 64) : c <<< 6 ||| d = 64 * c + d := shift_or c hd

theorem toNat_of_ofNat (n : Nat) : (UInt8.ofNat n).toNat = n % 256 := rfl

/-- A byte is what its bits are. -/
theorem ofNat_eq {n : Nat} {x : UInt8} (h : n % 256 = x.toNat) : UInt8.ofNat n = x := UInt8.toNat_inj.mp h

/-! ## Blocks -/

/-- The four digits of three bytes. -/
theorem base64Chars_block (x y z : UInt8) (p : Bytes) :
    base64Chars (x :: y :: z :: p) =
      base64char (x.toNat / 4) :: base64char (16 * (x.toNat % 4) + y.toNat / 16) ::
        base64char (4 * (y.toNat % 16) + z.toNat / 64) :: base64char (z.toNat % 64) :: base64Chars p := by
  show _ :: _ :: _ :: _ :: _ = _
  rw [firstDigit_eq, secondDigit_eq, thirdDigit_eq, and_sixtyThree]

theorem base64Chars_two (x y : UInt8) :
    base64Chars [x, y] =
      [base64char (x.toNat / 4), base64char (16 * (x.toNat % 4) + y.toNat / 16), base64char (4 * (y.toNat % 16)),
        equals] := by
  show [_, _, _, _] = _
  rw [firstDigit_eq, secondDigit_eq, thirdDigit_last]

theorem base64Chars_one (x : UInt8) :
    base64Chars [x] = [base64char (x.toNat / 4), base64char (16 * (x.toNat % 4)), equals, equals] := by
  show [_, _, _, _] = _
  rw [firstDigit_eq, secondDigit_last]

/-- Three bytes are written as the digits that they were read from. -/
theorem base64Chars_threeBytes {a b c d : Nat} (ha : a < 64) (hb : b < 64) (hc : c < 64) (hd : d < 64)
    (p : Bytes) :
    base64Chars (UInt8.ofNat (a <<< 2 ||| b >>> 4) :: UInt8.ofNat (b <<< 4 ||| c >>> 2) ::
        UInt8.ofNat (c <<< 6 ||| d) :: p) =
      base64char a :: base64char b :: base64char c :: base64char d :: base64Chars p := by
  have hfirst : (4 * a + b / 16) % 256 / 4 = a := by omega
  have hsecond : 16 * ((4 * a + b / 16) % 256 % 4) + (16 * b + c / 4) % 256 / 16 = b := by omega
  have hthird : 4 * ((16 * b + c / 4) % 256 % 16) + (64 * c + d) % 256 / 64 = c := by omega
  have hfourth : (64 * c + d) % 256 % 64 = d := by omega
  rw [base64Chars_block, firstByte_eq a hb, secondByte_eq b hc, thirdByte_eq c hd, toNat_of_ofNat, toNat_of_ofNat,
    toNat_of_ofNat, hfirst, hsecond, hthird, hfourth]

theorem base64Chars_twoBytes {a b c : Nat} (ha : a < 64) (hb : b < 64) (hc : c < 64) (hlow : c &&& 3 = 0) :
    base64Chars [UInt8.ofNat (a <<< 2 ||| b >>> 4), UInt8.ofNat (b <<< 4 ||| c >>> 2)] =
      [base64char a, base64char b, base64char c, equals] := by
  rw [and_three] at hlow
  have hfirst : (4 * a + b / 16) % 256 / 4 = a := by omega
  have hsecond : 16 * ((4 * a + b / 16) % 256 % 4) + (16 * b + c / 4) % 256 / 16 = b := by omega
  have hthird : 4 * ((16 * b + c / 4) % 256 % 16) = c := by omega
  rw [base64Chars_two, firstByte_eq a hb, secondByte_eq b hc, toNat_of_ofNat, toNat_of_ofNat, hfirst, hsecond,
    hthird]

theorem base64Chars_oneByte {a b : Nat} (ha : a < 64) (hb : b < 64) (hlow : b &&& 15 = 0) :
    base64Chars [UInt8.ofNat (a <<< 2 ||| b >>> 4)] = [base64char a, base64char b, equals, equals] := by
  rw [and_fifteen] at hlow
  have hfirst : (4 * a + b / 16) % 256 / 4 = a := by omega
  have hsecond : 16 * ((4 * a + b / 16) % 256 % 4) = b := by omega
  rw [base64Chars_one, firstByte_eq a hb, toNat_of_ofNat, hfirst, hsecond]

/-- The digits of these bytes are digits. -/
theorem digits_lt (x y z : UInt8) :
    x.toNat / 4 < 64 ∧ 16 * (x.toNat % 4) + y.toNat / 16 < 64 ∧ 4 * (y.toNat % 16) + z.toNat / 64 < 64 ∧
      z.toNat % 64 < 64 := by
  have hx := x.toNat_lt
  have hy := y.toNat_lt
  have hz := z.toNat_lt
  omega

/-- The bytes that are read from their digits. -/
theorem threeBytes_eq (x y z : UInt8) :
    UInt8.ofNat ((x.toNat / 4) <<< 2 ||| (16 * (x.toNat % 4) + y.toNat / 16) >>> 4) = x ∧
      UInt8.ofNat ((16 * (x.toNat % 4) + y.toNat / 16) <<< 4 ||| (4 * (y.toNat % 16) + z.toNat / 64) >>> 2) = y ∧
        UInt8.ofNat ((4 * (y.toNat % 16) + z.toNat / 64) <<< 6 ||| z.toNat % 64) = z := by
  obtain ⟨-, hsecond, hthird, hfourth⟩ := digits_lt x y z
  have hx := x.toNat_lt
  have hy := y.toNat_lt
  have hz := z.toNat_lt
  rw [firstByte_eq _ hsecond, secondByte_eq _ hthird, thirdByte_eq _ hfourth]
  refine ⟨ofNat_eq ?_, ofNat_eq ?_, ofNat_eq ?_⟩
  · omega
  · omega
  · omega

theorem isBase64Char_or_equals {p : Bytes} {c : UInt8} (h : c ∈ base64Chars p) : IsBase64Char c ∨ c = equals := by
  induction p using base64Chars.induct with
  | case1 x y z p ih =>
    obtain ⟨hfirst, hsecond, hthird, hfourth⟩ := digits_lt x y z
    rw [base64Chars_block] at h
    simp only [mem_cons] at h
    rcases h with rfl | rfl | rfl | rfl | h
    · exact .inl ⟨_, hfirst, rfl⟩
    · exact .inl ⟨_, hsecond, rfl⟩
    · exact .inl ⟨_, hthird, rfl⟩
    · exact .inl ⟨_, hfourth, rfl⟩
    · exact ih h
  | case2 x y =>
    obtain ⟨hfirst, hsecond, hthird, -⟩ := digits_lt x y 0
    rw [base64Chars_two] at h
    simp only [mem_cons, not_mem_nil, or_false] at h
    rcases h with rfl | rfl | rfl | rfl
    · exact .inl ⟨_, hfirst, rfl⟩
    · exact .inl ⟨_, hsecond, rfl⟩
    · exact .inl ⟨_, hthird, rfl⟩
    · exact .inr rfl
  | case3 x =>
    obtain ⟨hfirst, hsecond, -, -⟩ := digits_lt x 0 0
    rw [base64Chars_one] at h
    simp only [mem_cons, not_mem_nil, or_false] at h
    rcases h with rfl | rfl | rfl | rfl
    · exact .inl ⟨_, hfirst, rfl⟩
    · exact .inl ⟨_, hsecond, rfl⟩
    · exact .inr rfl
    · exact .inr rfl
  | case4 => cases h

/-- Nothing that is written for bytes is skipped. -/
theorem isSkipped_of_mem_base64Chars {p : Bytes} {c : UInt8} (h : c ∈ base64Chars p) : isSkipped c = false := by
  rcases isBase64Char_or_equals h with ⟨n, hn, rfl⟩ | rfl
  · exact isSkipped_base64char hn
  · rfl

/-- Three bytes are written as four digits, and so is what is left over. -/
theorem length_base64Chars (p : Bytes) : (base64Chars p).length = 4 * ((p.length + 2) / 3) := by
  induction p using base64Chars.induct with
  | case1 x y z p ih =>
    rw [base64Chars_block]
    simp only [length_cons, ih]
    omega
  | case2 x y =>
    rw [base64Chars_two]
    simp only [length_cons, length_nil]
  | case3 x =>
    rw [base64Chars_one]
    simp only [length_cons, length_nil]
  | case4 => rfl

theorem length_hexChars (p : Bytes) : (hexChars p).length = p.length * 2 := by
  induction p with
  | nil => rfl
  | cons x p ih =>
    show (hexChars p).length + 2 = _
    rw [ih, length_cons]
    omega

end Elogind
