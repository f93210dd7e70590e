/-
  Elogind.Bus.Names

  Which object paths and names D-Bus allows (bus-internal.c).
-/

import Elogind.Basic.BusLabel

namespace Elogind

open Byte

/-! ## Definitions -/

/-- The loop of `object_path_is_valid`; the flag says that the last byte was a slash. -/
def objectPathLoop : Bool → Bytes → Bool
  | afterSlash, [] => !afterSlash
  | afterSlash, c :: q =>
    if c = slash then !afterSlash && objectPathLoop true q else isLabelChar c && objectPathLoop false q

/-- `BUS_PATH_SIZE_MAX` -/
def busPathSizeMax : Nat := 64 * 1024

/-- `object_path_is_valid` -/
def objectPathIsValid : Bytes → Bool
  | [] => false
  | c :: q =>
    c == slash && (q.isEmpty || (objectPathLoop true q && (c :: q).length ≤ busPathSizeMax))

/-- `SD_BUS_MAXIMUM_NAME_LENGTH` -/
def maximumNameLength : Nat := 255

/-- The loop of `interface_name_is_valid`; the flags say that the last byte was a dot and that
    there was a dot. -/
def interfaceNameLoop : Bool → Bool → Bytes → Bool
  | afterDot, foundDot, [] => !afterDot && foundDot
  | afterDot, foundDot, c :: q =>
    if c = dot then !afterDot && interfaceNameLoop true true q
    else (isAlpha c || (!afterDot && isAsciiDigit c) || c == underscore) && interfaceNameLoop false foundDot q

/-- `interface_name_is_valid` -/
def interfaceNameIsValid (p : Bytes) : Bool :=
  !p.isEmpty && interfaceNameLoop true false p && p.length ≤ maximumNameLength

/-- `error_name_is_valid` -/
def errorNameIsValid (p : Bytes) : Bool := interfaceNameIsValid p

/-- The loop of `service_name_is_valid`. -/
def serviceNameLoop (unique : Bool) : Bool → Bool → Bytes → Bool
  | afterDot, foundDot, [] => !afterDot && foundDot
  | afterDot, foundDot, c :: q =>
    if c = dot then !afterDot && serviceNameLoop unique true true q
    else
      (isAlpha c || ((!afterDot || unique) && isAsciiDigit c) || c == underscore || c == dash) &&
        serviceNameLoop unique false foundDot q

/-- `service_name_is_valid` -/
def serviceNameIsValid : Bytes → Bool
  | [] => false
  | c :: q =>
    serviceNameLoop (c == colon) true false (if c = colon then q else c :: q) &&
      (c :: q).length ≤ maximumNameLength

/-- `member_name_is_valid` -/
def memberNameIsValid (p : Bytes) : Bool :=
  !p.isEmpty && p.all isLabelChar && p.length ≤ maximumNameLength

/-! ## A valid name is a C string -/

theorem isLabelChar_ne_zero {c : UInt8} (h : isLabelChar c = true) : c ≠ 0 := by
  rintro rfl
  exact absurd h (by decide)

theorem objectPathLoop_ne_zero {afterSlash : Bool} {q : Bytes} (h : objectPathLoop afterSlash q = true) :
    ∀ c ∈ q, c ≠ 0 := by
  induction q generalizing afterSlash with
  | nil => simp
  | cons d q ih =>
    rw [objectPathLoop] at h
    split at h
    · next hd =>
      rw [Bool.and_eq_true] at h
      intro c hc
      rcases List.mem_cons.mp hc with rfl | hc
      · rw [hd]
        decide
      · exact ih h.2 c hc
    · rw [Bool.and_eq_true] at h
      intro c hc
      rcases List.mem_cons.mp hc with rfl | hc
      · exact isLabelChar_ne_zero h.1
      · exact ih h.2 c hc

theorem objectPathIsValid_ne_zero {p : Bytes} (h : objectPathIsValid p = true) : ∀ c ∈ p, c ≠ 0 := by
  cases p with
  | nil => simp
  | cons d q =>
    simp only [objectPathIsValid, Bool.and_eq_true, Bool.or_eq_true, beq_iff_eq, List.isEmpty_iff] at h
    obtain ⟨rfl, h⟩ := h
    intro c hc
    rcases List.mem_cons.mp hc with rfl | hc
    · decide
    · rcases h with rfl | ⟨h, -⟩
      · cases hc
      · exact objectPathLoop_ne_zero h c hc

theorem interfaceNameLoop_ne_zero {afterDot foundDot : Bool} {q : Bytes}
    (h : interfaceNameLoop afterDot foundDot q = true) : ∀ c ∈ q, c ≠ 0 := by
  induction q generalizing afterDot foundDot with
  | nil => simp
  | cons d q ih =>
    rw [interfaceNameLoop] at h
    intro c hc
    split at h <;> rw [Bool.and_eq_true] at h <;> rcases List.mem_cons.mp hc with rfl | hc
    · next hd =>
      rw [hd]
      decide
    · exact ih h.2 c hc
    · rintro rfl
      exact absurd h.1 (by cases afterDot <;> decide)
    · exact ih h.2 c hc

theorem interfaceNameIsValid_ne_zero {p : Bytes} (h : interfaceNameIsValid p = true) :
    ∀ c ∈ p, c ≠ 0 := by
  simp only [interfaceNameIsValid, Bool.and_eq_true] at h
  exact interfaceNameLoop_ne_zero h.1.2

theorem memberNameIsValid_ne_zero {p : Bytes} (h : memberNameIsValid p = true) : ∀ c ∈ p, c ≠ 0 := by
  simp only [memberNameIsValid, Bool.and_eq_true] at h
  exact fun c hc => isLabelChar_ne_zero (List.all_eq_true.mp h.1.2 c hc)

end Elogind
