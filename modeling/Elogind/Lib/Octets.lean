/-
  Elogind.Lib.Octets

  Octet strings: numbers of a given width in either byte order, positions
  rounded up to a boundary, runs of zeros, and numbers that are increased in
  place.
-/

import Mathlib.Data.UInt

namespace Elogind.Lib

/-! ## Boundaries -/

/-- The next position that is a multiple of `a`. -/
def alignTo (n a : Nat) : Nat := (n + (a - 1)) / a * a

section Align

variable {n m a : Nat}

theorem le_alignTo (ha : 0 < a) : n ≤ alignTo n a := by
  have h := Nat.div_add_mod (n + (a - 1)) a
  have hlt := Nat.mod_lt (n + (a - 1)) ha
  rw [alignTo, Nat.mul_comm]
  omega

theorem alignTo_of_dvd (ha : 0 < a) (h : a ∣ n) : alignTo n a = n := by
  obtain ⟨k, rfl⟩ := h
  rw [alignTo, Nat.mul_add_div ha, Nat.div_eq_of_lt (by omega), Nat.add_zero, Nat.mul_comm]

theorem alignTo_one (n : Nat) : alignTo n 1 = n := alignTo_of_dvd Nat.one_pos (Nat.one_dvd n)

end Align

/-! ## Zeros -/

/-- `n` zero octets. -/
def zeros (n : Nat) : List UInt8 := List.replicate n 0

@[simp] theorem length_zeros (n : Nat) : (zeros n).length = n := List.length_replicate

theorem zeros_zero : zeros 0 = [] := rfl

theorem eq_zero_of_mem_zeros {n : Nat} {c : UInt8} (h : c ∈ zeros n) : c = 0 :=
  List.eq_of_mem_replicate h

/-! ## Numbers -/

/-- The order of a number's octets. -/
inductive Endian where
  | little
  | big
  deriving DecidableEq, Repr

/-- The `w` low octets of `n`, the lowest one first. -/
def littleOctets : Nat → Nat → List UInt8
  | 0, _ => []
  | w + 1, n => UInt8.ofNat n :: littleOctets w (n / 256)

/-- The number that octets stand for, the lowest one first. -/
def littleValue : List UInt8 → Nat
  | [] => 0
  | c :: cs => c.toNat + 256 * littleValue cs

theorem length_littleOctets (w n : Nat) : (littleOctets w n).length = w := by
  induction w generalizing n with
  | zero => rfl
  | succ w ih => rw [littleOctets, List.length_cons, ih]

theorem littleValue_littleOctets (w n : Nat) : littleValue (littleOctets w n) = n % 256 ^ w := by
  induction w generalizing n with
  | zero => rw [Nat.pow_zero, Nat.mod_one]; rfl
  | succ w ih =>
    have hbyte : (UInt8.ofNat n).toNat = n % 256 := rfl
    rw [littleOctets, littleValue, ih, hbyte, Nat.pow_succ, Nat.mul_comm (256 ^ w), Nat.mod_mul]

namespace Endian

/-- The `w` low octets of `n`. -/
def octets : Endian → Nat → Nat → List UInt8
  | .little, w, n => littleOctets w n
  | .big, w, n => (littleOctets w n).reverse

/-- The number that octets stand for. -/
def value : Endian → List UInt8 → Nat
  | .little, cs => littleValue cs
  | .big, cs => littleValue cs.reverse

variable (e : Endian)

@[simp] theorem length_octets (w n : Nat) : (e.octets w n).length = w := by
  cases e with
  | little => exact length_littleOctets w n
  | big => exact List.length_reverse.trans (length_littleOctets w n)

theorem value_octets (w n : Nat) : e.value (e.octets w n) = n % 256 ^ w := by
  cases e with
  | little => exact littleValue_littleOctets w n
  | big =>
    rw [octets, value, List.reverse_reverse]
    exact littleValue_littleOctets w n

theorem value_octets_of_lt {w n : Nat} (h : n < 256 ^ w) : e.value (e.octets w n) = n := by
  rw [value_octets, Nat.mod_eq_of_lt h]

/-! ## Numbers that are increased in place -/

/-- The four octets at `p` stand for a number that is increased by `n`. -/
def addAt (p n : Nat) (b : List UInt8) : List UInt8 :=
  b.take p ++ e.octets 4 (e.value ((b.drop p).take 4) + n) ++ b.drop (p + 4)

end Endian

end Elogind.Lib
