/-
  Elogind.Json.ScanNumber

  `json_parse_number` and the grammar of numbers: what is read is a number of the grammar, a number is read
  as a whole where nothing follows that could belong to it, and the value is the one that it denotes.
-/

import Elogind.Json.Grammar
import Mathlib.Data.List.Induction
import Mathlib.Data.List.TakeWhile

namespace Elogind

open Byte Errno List

-- for what is checked for each byte
set_option maxRecDepth 2000

/-! ## Parts -/

/-- No digit comes next. -/
def NoDigit (rest : Bytes) : Prop := ∀ c ∈ rest.head?, jsonIsDigit c = false

/-- Nothing comes next that could belong to a number. -/
def JsonFollow (rest : Bytes) : Prop :=
  ∀ c ∈ rest.head?, jsonIsDigit c = false ∧ c ≠ '.'.toUInt8 ∧ c ≠ 'e'.toUInt8 ∧ c ≠ 'E'.toUInt8

variable {rest ds c t : Bytes} {fraction : Option Bytes} {exponent : Option (Bool × Bytes)}
  {n : JsonNumberParts}

theorem JsonFollow.noDigit (h : JsonFollow rest) : NoDigit rest := fun c hc => (h c hc).1

theorem noDigit_cons {c : UInt8} (h : jsonIsDigit c = false) (rest : Bytes) : NoDigit (c :: rest) := by
  intro d hd
  obtain rfl := Option.some.inj hd
  exact h

/-- White space can follow a number, and so can nothing. -/
theorem jsonFollow_space {b : Bytes} (hb : JsonSpace b) : JsonFollow b := by
  have hall : ∀ e : UInt8, isWhitespace e = true →
      jsonIsDigit e = false ∧ e ≠ '.'.toUInt8 ∧ e ≠ 'e'.toUInt8 ∧ e ≠ 'E'.toUInt8 := by decide
  intro d hd
  cases b with
  | nil => cases hd
  | cons e b =>
    obtain rfl := Option.some.inj hd
    exact hall e (hb e mem_cons_self)

/-- So can punctuation. -/
theorem jsonFollow_append {b : Bytes} (hb : JsonSpace b) {c : UInt8}
    (hc : c = ','.toUInt8 ∨ c = ']'.toUInt8 ∨ c = '}'.toUInt8) (rest : Bytes) : JsonFollow (b ++ c :: rest) := by
  cases b with
  | nil =>
    intro d hd
    obtain rfl := Option.some.inj hd
    obtain rfl | rfl | rfl := hc <;> decide
  | cons e b =>
    intro d hd
    exact jsonFollow_space hb d hd

theorem jsonDigits_complete (h : JsonDigits ds) (hrest : NoDigit rest) :
    jsonDigits (ds ++ rest) = .ok (ds, rest) := by
  obtain ⟨hne, hds⟩ := h
  have hstop : rest.takeWhile jsonIsDigit = [] ∧ rest.dropWhile jsonIsDigit = rest := by
    cases rest with
    | nil => exact ⟨rfl, rfl⟩
    | cons c rest =>
      have hc : ¬ jsonIsDigit c = true := by
        rw [hrest c rfl]
        decide
      exact ⟨takeWhile_cons_of_neg hc, dropWhile_cons_of_neg hc⟩
  unfold jsonDigits
  simp only [takeWhile_append_of_pos hds, dropWhile_append_of_pos hds, hstop.1, hstop.2, append_nil]
  rw [isEmpty_eq_false_iff.mpr hne]
  rfl

theorem jsonDigits_sound (h : jsonDigits c = .ok (ds, rest)) : JsonDigits ds ∧ c = ds ++ rest := by
  unfold jsonDigits at h
  simp only at h
  split at h
  · cases h
  rename_i hne
  cases h
  refine ⟨⟨?_, fun d hd => mem_takeWhile_imp hd⟩, (takeWhile_append_dropWhile).symm⟩
  intro hnil
  exact hne (isEmpty_iff.mpr hnil)

theorem jsonIntegerDigits_complete (h : JsonIntegerText ds t) (hrest : NoDigit rest) :
    jsonIntegerDigits (t ++ rest) = .ok (ds, rest) := by
  cases h with
  | zero => rfl
  | digits h hzero =>
    obtain ⟨c, p, rfl⟩ := exists_cons_of_ne_nil h.1
    have hc : c ≠ 48 := by simpa using hzero
    rw [cons_append, jsonIntegerDigits, if_neg hc, ← cons_append]
    exact jsonDigits_complete h hrest

theorem jsonIntegerDigits_sound (h : jsonIntegerDigits c = .ok (ds, rest)) :
    ∃ t, JsonIntegerText ds t ∧ c = t ++ rest := by
  unfold jsonIntegerDigits at h
  split at h
  · cases h
  rename_i c p
  split at h
  · rename_i hc
    cases h
    subst hc
    exact ⟨[48], .zero, rfl⟩
  · rename_i hc
    obtain ⟨hds, htext⟩ := jsonDigits_sound h
    refine ⟨ds, .digits hds ?_, htext⟩
    obtain ⟨d, ds, rfl⟩ := exists_cons_of_ne_nil hds.1
    obtain ⟨rfl, -⟩ := cons.inj htext
    simpa using hc

theorem jsonFraction_complete (h : JsonFractionText fraction t) (hdigit : NoDigit rest)
    (hpoint : fraction = none → ∀ c ∈ rest.head?, c ≠ '.'.toUInt8) :
    jsonFraction (t ++ rest) = .ok (fraction, rest) := by
  cases h with
  | absent =>
    cases rest with
    | nil => rfl
    | cons c rest => exact if_neg (hpoint rfl c rfl)
  | point h =>
    rw [cons_append, jsonFraction, if_pos rfl, jsonDigits_complete h hdigit]
    rfl

theorem jsonFraction_sound (h : jsonFraction c = .ok (fraction, rest)) :
    ∃ t, JsonFractionText fraction t ∧ c = t ++ rest := by
  unfold jsonFraction at h
  split at h
  · cases h
    exact ⟨[], .absent, rfl⟩
  rename_i c p
  split at h
  · rename_i hc
    subst hc
    cases hds : jsonDigits p with
    | error er =>
      rw [hds] at h
      cases h
    | ok r =>
      rw [hds] at h
      cases h
      obtain ⟨hr, rfl⟩ := jsonDigits_sound hds
      exact ⟨'.'.toUInt8 :: r.1, .point hr, rfl⟩
  · cases h
    exact ⟨[], .absent, rfl⟩

theorem jsonExponentSign_complete {negative : Bool} {sign : Bytes}
    (h : JsonExponentSignText negative sign) (hds : JsonDigits ds) (rest : Bytes) :
    jsonExponentSign (sign ++ (ds ++ rest)) = (negative, ds ++ rest) := by
  cases h with
  | absent =>
    obtain ⟨c, p, rfl⟩ := exists_cons_of_ne_nil hds.1
    have hall : ∀ c : UInt8, jsonIsDigit c = true → c ≠ '-'.toUInt8 ∧ c ≠ '+'.toUInt8 := by decide
    obtain ⟨hminus, hplus⟩ := hall c (hds.2 c mem_cons_self)
    rw [nil_append, cons_append, jsonExponentSign, if_neg hminus, if_neg hplus]
  | plus | minus => rfl

theorem jsonExponentSign_sound (p : Bytes) :
    ∃ sign, JsonExponentSignText (jsonExponentSign p).1 sign ∧ p = sign ++ (jsonExponentSign p).2 := by
  unfold jsonExponentSign
  split
  · exact ⟨[], .absent, rfl⟩
  split
  · rename_i c p hc
    subst hc
    exact ⟨['-'.toUInt8], .minus, rfl⟩
  split
  · rename_i c p _ hc
    subst hc
    exact ⟨['+'.toUInt8], .plus, rfl⟩
  · exact ⟨[], .absent, rfl⟩

theorem jsonExponent_complete (h : JsonExponentText exponent t) (hrest : JsonFollow rest) :
    jsonExponent (t ++ rest) = .ok (exponent, rest) := by
  cases h with
  | absent =>
    cases rest with
    | nil => rfl
    | cons c rest =>
      obtain ⟨-, -, he, hE⟩ := hrest c rfl
      exact if_neg (not_or.mpr ⟨he, hE⟩)
  | power he hsign h =>
    rw [cons_append, jsonExponent, if_pos he, append_assoc, jsonExponentSign_complete hsign h,
      jsonDigits_complete h hrest.noDigit]
    rfl

theorem jsonExponent_sound (h : jsonExponent c = .ok (exponent, rest)) :
    ∃ t, JsonExponentText exponent t ∧ c = t ++ rest := by
  unfold jsonExponent at h
  split at h
  · cases h
    exact ⟨[], .absent, rfl⟩
  rename_i c p
  split at h
  · rename_i hc
    cases hds : jsonDigits (jsonExponentSign p).2 with
    | error er =>
      rw [hds] at h
      cases h
    | ok r =>
      rw [hds] at h
      cases h
      obtain ⟨sign, hsign, hp⟩ := jsonExponentSign_sound p
      obtain ⟨hr, hrest⟩ := jsonDigits_sound hds
      refine ⟨c :: (sign ++ r.1), .power hc hsign hr, ?_⟩
      rw [cons_append, append_assoc, ← hrest, ← hp]
  · cases h
    exact ⟨[], .absent, rfl⟩

/-! ## Numbers -/

/-- No digit comes after the digits before the point. -/
theorem noDigit_of_fraction {tf te : Bytes} (hf : JsonFractionText fraction tf)
    (he : JsonExponentText exponent te) (hrest : JsonFollow rest) :
    NoDigit (tf ++ (te ++ rest)) ∧ NoDigit (te ++ rest) ∧
      (∀ c ∈ (te ++ rest).head?, c ≠ '.'.toUInt8) := by
  have hafter : NoDigit (te ++ rest) ∧ ∀ c ∈ (te ++ rest).head?, c ≠ '.'.toUInt8 := by
    cases he with
    | absent => exact ⟨hrest.noDigit, fun c hc => (hrest c hc).2.1⟩
    | power he _ _ =>
      refine ⟨noDigit_cons ?_ _, fun c hc => ?_⟩
      · obtain rfl | rfl := he <;> decide
      · obtain rfl := Option.some.inj hc
        obtain rfl | rfl := he <;> decide
  refine ⟨?_, hafter⟩
  cases hf with
  | absent => exact hafter.1
  | point _ => exact noDigit_cons (by decide) _

theorem jsonParseUnsigned_complete (h : JsonUnsignedText n t) (hrest : JsonFollow rest) :
    jsonParseUnsigned n.negative (t ++ rest) = .ok (n, rest) := by
  obtain ⟨hi, hf, he⟩ := h
  obtain ⟨hint, hfrac, hpoint⟩ := noDigit_of_fraction hf he hrest
  unfold jsonParseUnsigned
  simp only [append_assoc, jsonIntegerDigits_complete hi hint, jsonFraction_complete hf hfrac (fun _ => hpoint),
    jsonExponent_complete he hrest]

theorem jsonParseUnsigned_sound {negative : Bool} (h : jsonParseUnsigned negative c = .ok (n, rest)) :
    n.negative = negative ∧ ∃ t, JsonUnsignedText n t ∧ c = t ++ rest := by
  unfold jsonParseUnsigned at h
  split at h
  · cases h
  rename_i integer c₁ hint
  split at h
  · cases h
  rename_i fraction c₂ hfrac
  split at h
  · cases h
  rename_i exponent c₃ hexp
  cases h
  obtain ⟨ti, hi, rfl⟩ := jsonIntegerDigits_sound hint
  obtain ⟨tf, hf, rfl⟩ := jsonFraction_sound hfrac
  obtain ⟨te, he, rfl⟩ := jsonExponent_sound hexp
  exact ⟨rfl, ti ++ tf ++ te, .parts hi hf he, by rw [append_assoc, append_assoc]⟩

/-- The first character of a number. -/
theorem JsonUnsignedText.head (h : JsonUnsignedText n t) :
    ∃ c p, t = c :: p ∧ jsonIsDigit c = true := by
  obtain ⟨hi, -, -⟩ := h
  cases hi with
  | zero => exact ⟨48, _, rfl, rfl⟩
  | digits h _ =>
    obtain ⟨c, p, rfl⟩ := exists_cons_of_ne_nil h.1
    exact ⟨c, _, rfl, h.2 c mem_cons_self⟩

theorem JsonNumberText.head (h : JsonNumberText n t) :
    ∃ c p, t = c :: p ∧ (c = '-'.toUInt8 ∨ jsonIsDigit c = true) := by
  cases h with
  | minus hn h => exact ⟨_, _, rfl, .inl rfl⟩
  | plain hn h =>
    obtain ⟨c, p, rfl, hc⟩ := h.head
    exact ⟨c, p, rfl, .inr hc⟩

section

variable {R : Type} [Double R]

variable {n : JsonNumberParts} {t : Bytes}

theorem jsonParseNumber_complete {rest : Bytes} (h : JsonNumberText n t) (hrest : JsonFollow rest) :
    jsonParseNumber (R := R) (t ++ rest) = .ok (n.number, rest) := by
  cases h with
  | minus hn h =>
    have hparse := jsonParseUnsigned_complete h hrest
    rw [hn] at hparse
    simp only [cons_append, jsonParseNumber, if_true, hparse]
    rfl
  | plain hn h =>
    have hparse := jsonParseUnsigned_complete h hrest
    obtain ⟨c, p, rfl, hc⟩ := h.head
    have hminus : c ≠ '-'.toUInt8 := by
      rintro rfl
      exact absurd hc (by decide)
    rw [hn, cons_append] at hparse
    simp only [cons_append, jsonParseNumber, hminus, if_false, hparse]
    rfl

theorem jsonParseNumber_sound {p rest : Bytes} {x : JsonNumber R} (h : jsonParseNumber p = .ok (x, rest)) :
    ∃ n t, JsonNumberText n t ∧ p = t ++ rest ∧ x = n.number := by
  -- what was read after the sign
  have hmap : ∀ {r : Result (JsonNumberParts × Bytes)},
      (r.map fun r => ((r.1.number : JsonNumber R), r.2)) = .ok (x, rest) →
      ∃ n, r = .ok (n, rest) ∧ x = n.number := by
    intro r hr
    cases r with
    | error er => cases hr
    | ok r =>
      cases hr
      exact ⟨r.1, rfl, rfl⟩
  obtain ⟨n, hn, rfl⟩ := hmap h
  cases p with
  | nil => cases hn
  | cons c p =>
    simp only at hn
    split at hn
    · rename_i hc
      subst hc
      obtain ⟨hneg, t, ht, rfl⟩ := jsonParseUnsigned_sound hn
      exact ⟨n, _, .minus hneg ht, rfl, rfl⟩
    · obtain ⟨hneg, t, ht, htext⟩ := jsonParseUnsigned_sound hn
      exact ⟨n, t, .plain hneg ht, htext, rfl⟩

/-! ## Values -/

theorem jsonNatural_append (ds : Bytes) (c : UInt8) : jsonNatural (ds ++ [c]) = 10 * jsonNatural ds + jsonDigit c := by
  rw [jsonNatural, foldl_append]
  rfl

theorem jsonDecimal_append (ds : Bytes) (c : UInt8) :
    (jsonDecimal (ds ++ [c]) : R) = appendDigit (jsonDecimal ds) c := by
  rw [jsonDecimal, foldl_append]
  rfl

/-- What is known of the loop over the digits before the point after it has read some. -/
structure JsonInteger.HasRead (negative : Bool) (ds : Bytes) (n : JsonInteger R) : Prop where
  decimal : n.x = jsonDecimal ds
  isReal : n.isReal = true ↔ if negative then 2 ^ 63 < jsonNatural ds else 2 ^ 64 ≤ jsonNatural ds
  integer : n.isReal = false → if negative then n.i = -(jsonNatural ds : Int) else n.u = jsonNatural ds

/-- A round of the loop. -/
theorem JsonInteger.HasRead.append {negative : Bool} {ds : Bytes} {n : JsonInteger R} (h : n.HasRead negative ds)
    (c : UInt8) (hc : jsonDigit c ≤ 9) : (n.append negative c).HasRead negative (ds ++ [c]) := by
  obtain ⟨hx, hreal, hint⟩ := h
  have hdecimal : appendDigit n.x c = jsonDecimal (ds ++ [c]) := by rw [jsonDecimal_append, hx]
  have hquotient : Int.tdiv (-2 ^ 63) 10 = -922337203685477580 := by decide
  unfold JsonInteger.append
  cases hr : n.isReal with
  | true =>
    have hlarge := hreal.mp hr
    simp only [if_true]
    refine ⟨hdecimal, ?_, fun h => by cases h⟩
    rw [jsonNatural_append]
    cases negative with
    | true =>
      simp only [if_true, true_iff] at hlarge ⊢
      omega
    | false =>
      simp only [Bool.false_eq_true, if_false, true_iff] at hlarge ⊢
      omega
  | false =>
    have hi := hint hr
    have hsmall := mt hreal.mpr (by rw [hr]; decide)
    cases negative with
    | true =>
      simp only [if_true] at hi hsmall ⊢
      simp only [Bool.false_eq_true, if_false]
      split
      · refine ⟨hdecimal, ?_, fun h => by cases h⟩
        simp only [if_true, jsonNatural_append, true_iff]
        omega
      split
      · refine ⟨hdecimal, ?_, fun h => by cases h⟩
        simp only [if_true, jsonNatural_append, true_iff]
        omega
      · refine ⟨hdecimal, ?_, fun _ => ?_⟩
        · simp only [if_true, jsonNatural_append, Bool.false_eq_true, false_iff]
          omega
        · simp only [if_true, jsonNatural_append]
          omega
    | false =>
      simp only [Bool.false_eq_true, if_false] at hi hsmall ⊢
      split
      · refine ⟨hdecimal, ?_, fun h => by cases h⟩
        simp only [Bool.false_eq_true, if_false, jsonNatural_append, true_iff]
        omega
      split
      · refine ⟨hdecimal, ?_, fun h => by cases h⟩
        simp only [Bool.false_eq_true, if_false, jsonNatural_append, true_iff]
        omega
      · refine ⟨hdecimal, ?_, fun _ => ?_⟩
        · simp only [if_false, jsonNatural_append, Bool.false_eq_true, false_iff]
          omega
        · simp only [Bool.false_eq_true, if_false, jsonNatural_append]
          omega

theorem JsonInteger.hasRead_foldl (negative : Bool) {ds : Bytes} (hds : ∀ c ∈ ds, jsonIsDigit c = true) :
    (ds.foldl (fun n c => n.append negative c) (⟨false, 0, 0, Double.ofInt 0⟩ : JsonInteger R)).HasRead
      negative ds := by
  induction ds using reverseRecOn with
  | nil =>
    refine ⟨rfl, ?_, fun _ => ?_⟩
    · cases negative <;> simp [jsonNatural]
    · cases negative <;> simp [jsonNatural]
  | append_singleton ds c ih =>
    have hall : ∀ c : UInt8, jsonIsDigit c = true → jsonDigit c ≤ 9 := by decide
    rw [foldl_append]
    exact (ih fun d hd => hds d (mem_append_left _ hd)).append c
      (hall c (hds c (mem_append_right _ mem_cons_self)))

/-- The value of a number that was read. -/
def JsonNumber.scalar : JsonNumber R → JsonScalar R
  | real d => jsonReal d
  | integer i => .integer i
  | unsigned u => .unsigned u

theorem JsonNumberText.isDigit (h : JsonNumberText n t) : ∀ c ∈ n.integer, jsonIsDigit c = true := by
  have hunsigned : ∀ {t}, JsonUnsignedText n t → ∀ c ∈ n.integer, jsonIsDigit c = true := by
    intro t h
    obtain ⟨hi, -, -⟩ := h
    cases hi with
    | zero => simp
    | digits h _ => exact h.2
  cases h with
  | minus _ h | plain _ h => exact hunsigned h

/-- The number that is put together where the digits before the point do not do. -/
theorem JsonNumberParts.number_real (hreal : ¬ n.IsInteger)
    (hdigits : ∀ c ∈ n.integer, jsonIsDigit c = true) : (n.number : JsonNumber R) = .real n.toReal := by
  obtain ⟨hx, hlarge, -⟩ := JsonInteger.hasRead_foldl (R := R) n.negative hdigits
  unfold JsonNumberParts.number
  rw [if_pos, hx]
  · unfold JsonNumberParts.toReal jsonSign jsonDecimal
    cases n.exponent <;> rfl
  · simp only [Bool.or_eq_true]
    by_contra hnot
    simp only [not_or, hlarge, Bool.not_eq_true, Option.isSome_eq_false_iff, Option.isNone_iff_eq_none] at hnot
    refine hreal ⟨hnot.1.2, hnot.2, ?_⟩
    have hsmall := hnot.1.1
    cases hn : n.negative with
    | true =>
      simp only [hn, if_true] at hsmall ⊢
      omega
    | false =>
      simp only [hn, Bool.false_eq_true, if_false] at hsmall ⊢
      omega

/-- The number that is read where they do. -/
theorem JsonNumberParts.number_integer (hint : n.IsInteger)
    (hdigits : ∀ c ∈ n.integer, jsonIsDigit c = true) :
    (n.number : JsonNumber R) =
      if n.negative then .integer (Int64.ofInt (-jsonNatural n.integer))
      else .unsigned (UInt64.ofNat (jsonNatural n.integer)) := by
  obtain ⟨-, hlarge, hvalue⟩ := JsonInteger.hasRead_foldl (R := R) n.negative hdigits
  obtain ⟨hfraction, hexponent, hsmall⟩ := hint
  have hreal := mt hlarge.mp (by
    cases hn : n.negative with
    | true =>
      simp only [hn, if_true] at hsmall ⊢
      omega
    | false =>
      simp only [hn, Bool.false_eq_true, if_false] at hsmall ⊢
      omega)
  have hreal' := Bool.eq_false_iff.mpr hreal
  have hvalue' := hvalue hreal'
  unfold JsonNumberParts.number
  simp only [hfraction, hexponent, hreal', Option.isSome_none, Bool.or_self, Bool.false_eq_true, if_false]
  cases hn : n.negative with
  | true =>
    simp only [hn, if_true] at hvalue' ⊢
    rw [hvalue']
  | false =>
    simp only [hn, Bool.false_eq_true, if_false] at hvalue' ⊢
    rw [hvalue']

/-- The number that is read has the value that the text denotes. -/
theorem JsonNumberText.scalar_number (h : JsonNumberText n t) :
    (n.number : JsonNumber R).scalar = n.scalar := by
  unfold JsonNumberParts.scalar
  by_cases hint : n.IsInteger
  · rw [if_pos hint, JsonNumberParts.number_integer hint h.isDigit]
    cases n.negative <;> rfl
  · rw [if_neg hint, JsonNumberParts.number_real hint h.isDigit]
    rfl

end

end Elogind
