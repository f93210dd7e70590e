/-
  Elogind.Basic.Utf8

  Validation of UTF-8 (utf8.c), which the reader of state files applies to
  every key and value.
-/

import Elogind.Basic.Bytes

namespace Elogind

open List

-- for what is checked for each byte
set_option maxRecDepth 2000

/-- `utf8_encoded_expected_len`: the length announced by the first byte, and 0
    for a byte that cannot be the first. -/
def utf8EncodedExpectedLen (c : UInt8) : Nat :=
  if c < 0x80 then 1
  else if c &&& 0xe0 = 0xc0 then 2
  else if c &&& 0xf0 = 0xe0 then 3
  else if c &&& 0xf8 = 0xf0 then 4
  else if c &&& 0xfc = 0xf8 then 5
  else if c &&& 0xfe = 0xfc then 6
  else 0

/-- `unichar_is_valid` -/
def unicharIsValid (ch : Nat) : Bool :=
  if ch ≥ 0x110000 then false
  else if ch &&& 0xFFFFF800 = 0xD800 then false
  else if ch ≥ 0xFDD0 && ch ≤ 0xFDEF then false
  else if ch &&& 0xFFFE = 0xFFFE then false
  else true

/-- The bits the first byte of a sequence of the given length contributes. -/
def utf8FirstBits (len : Nat) (c : UInt8) : Nat :=
  match len with
  | 2 => (c &&& 0x1f).toNat
  | 3 => (c &&& 0x0f).toNat
  | 4 => (c &&& 0x07).toNat
  | 5 => (c &&& 0x03).toNat
  | _ => (c &&& 0x01).toNat

/-- `utf8_encoded_to_unichar`, for a sequence of more than one byte. -/
def utf8EncodedToUnichar (len : Nat) (c : UInt8) (rest : Bytes) : Option Nat :=
  rest.foldlM (fun (unichar : Nat) (d : UInt8) =>
    if d &&& 0xc0 = 0x80 then some (unichar <<< 6 ||| (d &&& 0x3f).toNat) else none)
    (utf8FirstBits len c)

/-- `utf8_unichar_to_encoded_len` -/
def utf8UnicharToEncodedLen (unichar : Nat) : Nat :=
  if unichar < 0x80 then 1
  else if unichar < 0x800 then 2
  else if unichar < 0x10000 then 3
  else if unichar < 0x200000 then 4
  else if unichar < 0x4000000 then 5
  else 6

/-- `utf8_encoded_valid_unichar`: the length of the first character, if it is
    valid.  The loop over the continuation bytes also finds the end of the
    string, since the terminating zero is none. -/
def utf8EncodedValidUnichar (c : UInt8) (rest : Bytes) : Option Nat :=
  let len := utf8EncodedExpectedLen c
  if len = 0 then none
  else if len = 1 then some 1
  else if rest.length < len - 1 then none
  else
    match utf8EncodedToUnichar len c (rest.take (len - 1)) with
    | none => none
    | some unichar =>
      if utf8UnicharToEncodedLen unichar ≠ len then none
      else if !unicharIsValid unichar then none
      else some len

/-- The loop of `utf8_is_valid_n`, with as many rounds as there are bytes. -/
def utf8IsValidLoop : Nat → Bytes → Bool
  | 0, s => s.isEmpty
  | _ + 1, [] => true
  | n + 1, c :: rest =>
    match utf8EncodedValidUnichar c rest with
    | none => false
    | some len => utf8IsValidLoop n (rest.drop (len - 1))

/-- `utf8_is_valid` -/
def utf8IsValid (s : Bytes) : Bool := utf8IsValidLoop s.length s

/-- ASCII text is valid. -/
theorem utf8IsValid_of_ascii {s : Bytes} (h : ∀ c ∈ s, c < 0x80) : utf8IsValid s = true := by
  unfold utf8IsValid
  induction s with
  | nil => rfl
  | cons c s ih =>
      have hc : c < 0x80 := h c mem_cons_self
      have hlen : utf8EncodedValidUnichar c s = some 1 := by
        simp [utf8EncodedValidUnichar, utf8EncodedExpectedLen, hc]
      simp only [length_cons, utf8IsValidLoop, hlen, Nat.sub_self, drop_zero]
      exact ih fun d hd => h d (mem_cons_of_mem c hd)

example : utf8IsValid [0xc3, 0xa9] = true ∧ utf8IsValid [0xc3] = false := by decide

/-! ## Dropping ASCII characters -/

/-- The second text is the first without some of its ASCII characters. -/
inductive DropsAscii : Bytes → Bytes → Prop where
  | nil : DropsAscii [] []
  | keep (c : UInt8) {s t : Bytes} (h : DropsAscii s t) : DropsAscii (c :: s) (c :: t)
  | drop {c : UInt8} (hc : c < 0x80) {s t : Bytes} (h : DropsAscii s t) : DropsAscii (c :: s) t

namespace DropsAscii

theorem refl (s : Bytes) : DropsAscii s s := by
  induction s with
  | nil => exact .nil
  | cons c s ih => exact .keep c ih

theorem append {s t s' t' : Bytes} (h : DropsAscii s t) (h' : DropsAscii s' t') :
    DropsAscii (s ++ s') (t ++ t') := by
  induction h with
  | nil => exact h'
  | keep c _ ih => exact .keep c ih
  | drop hc _ ih => exact .drop hc ih

theorem trans {s t u : Bytes} (h : DropsAscii s t) (h' : DropsAscii t u) : DropsAscii s u := by
  induction h generalizing u with
  | nil => exact h'
  | keep c _ ih =>
      cases h' with
      | keep _ h' => exact .keep c (ih h')
      | drop hc h' => exact .drop hc (ih h')
  | drop hc _ ih => exact .drop hc (ih h')

/-- ASCII text can be dropped as a whole. -/
theorem ascii {s : Bytes} (h : ∀ c ∈ s, c < 0x80) : DropsAscii s [] := by
  induction s with
  | nil => exact .nil
  | cons c s ih =>
      exact .drop (h c mem_cons_self) (ih fun d hd => h d (mem_cons_of_mem c hd))

/-- What is not ASCII stays. -/
theorem split {a b t : Bytes} (ha : ∀ c ∈ a, ¬ c < 0x80) (h : DropsAscii (a ++ b) t) :
    ∃ u, t = a ++ u ∧ DropsAscii b u := by
  induction a generalizing t with
  | nil => exact ⟨t, rfl, h⟩
  | cons c a ih =>
      cases h with
      | keep _ h =>
          obtain ⟨u, rfl, hu⟩ := ih (fun d hd => ha d (mem_cons_of_mem c hd)) h
          exact ⟨u, rfl, hu⟩
      | drop hc _ => exact absurd hc (ha c mem_cons_self)

end DropsAscii

/-- A continuation byte is not ASCII. -/
theorem not_ascii_of_continuation {d : UInt8} (h : d &&& 0xc0 = 0x80) : ¬ d < 0x80 := by
  have hall : ∀ d : UInt8, d &&& 0xc0 = 0x80 → ¬ d < 0x80 := by decide
  exact hall d h

theorem not_ascii_of_utf8EncodedToUnichar {len : Nat} {c : UInt8} {rest : Bytes} {n : Nat}
    (h : utf8EncodedToUnichar len c rest = some n) : ∀ d ∈ rest, ¬ d < 0x80 := by
  unfold utf8EncodedToUnichar at h
  generalize utf8FirstBits len c = acc at h
  induction rest generalizing acc with
  | nil => simp
  | cons d rest ih =>
      rw [foldlM_cons] at h
      by_cases hd : d &&& 0xc0 = 0x80
      · simp only [hd, if_true] at h
        intro e he
        rcases mem_cons.mp he with rfl | he
        · exact not_ascii_of_continuation hd
        · exact ih _ h e he
      · simp only [hd, if_false] at h
        cases h

/-- The first character is found again when ASCII characters are dropped after
    its first byte. -/
theorem utf8EncodedValidUnichar_dropsAscii {c : UInt8} {rest t : Bytes} {len : Nat}
    (h : utf8EncodedValidUnichar c rest = some len) (hdrop : DropsAscii rest t) :
    ∃ t', DropsAscii (rest.drop (len - 1)) t' ∧ utf8EncodedValidUnichar c t = some len ∧
      t.drop (len - 1) = t' := by
  unfold utf8EncodedValidUnichar at h ⊢
  simp only at h ⊢
  split at h
  · cases h
  rename_i hne
  split at h
  · rename_i hone
    cases h
    exact ⟨t, by simpa using hdrop, by simp [hone], rfl⟩
  rename_i hmulti
  split at h
  · cases h
  rename_i hlen
  have hlen' : utf8EncodedExpectedLen c - 1 ≤ rest.length := Nat.le_of_not_lt hlen
  split at h
  · cases h
  rename_i unichar hchar
  split at h
  · cases h
  rename_i henc
  split at h
  · cases h
  rename_i hvalid
  cases h
  -- the continuation bytes are all kept
  have htake := not_ascii_of_utf8EncodedToUnichar hchar
  rw [← take_append_drop (utf8EncodedExpectedLen c - 1) rest] at hdrop
  obtain ⟨u, rfl, hu⟩ := DropsAscii.split htake hdrop
  have htl : (rest.take (utf8EncodedExpectedLen c - 1)).length = utf8EncodedExpectedLen c - 1 :=
    length_take_of_le hlen'
  refine ⟨u, hu, ?_, ?_⟩
  · have hlt : ¬ (rest.take (utf8EncodedExpectedLen c - 1) ++ u).length <
        utf8EncodedExpectedLen c - 1 := by
      rw [length_append, htl]
      omega
    have htk : (rest.take (utf8EncodedExpectedLen c - 1) ++ u).take
        (utf8EncodedExpectedLen c - 1) = rest.take (utf8EncodedExpectedLen c - 1) :=
      take_left' htl
    simp only [hne, hmulti, hlt, htk, hchar, henc, hvalid, if_false]
    simp
  · exact drop_left' htl

theorem utf8IsValidLoop_nil (n : Nat) : utf8IsValidLoop n [] = true := by
  cases n <;> rfl

theorem utf8IsValidLoop_dropsAscii {n m : Nat} {s t : Bytes} (hs : utf8IsValidLoop n s = true)
    (h : DropsAscii s t) (hm : t.length ≤ m) : utf8IsValidLoop m t = true := by
  induction n generalizing m s t with
  | zero =>
      have : s = [] := isEmpty_iff.mp hs
      subst this
      cases h
      exact utf8IsValidLoop_nil m
  | succ n ih =>
      cases h with
      | nil => exact utf8IsValidLoop_nil m
      | @keep c rest t h =>
          obtain ⟨m, rfl⟩ : ∃ k, m = k + 1 := ⟨m - 1, by simp at hm; omega⟩
          simp only [utf8IsValidLoop] at hs ⊢
          split at hs
          · cases hs
          rename_i len hlen
          obtain ⟨t', ht', hfirst, rfl⟩ := utf8EncodedValidUnichar_dropsAscii hlen h
          simp only [hfirst]
          refine ih hs ht' ?_
          simp only [length_cons] at hm
          rw [length_drop]
          omega
      | @drop c hc rest t h =>
          have hlen : utf8EncodedValidUnichar c rest = some 1 := by
            simp [utf8EncodedValidUnichar, utf8EncodedExpectedLen, hc]
          simp only [utf8IsValidLoop, hlen, Nat.sub_self, drop_zero] at hs
          exact ih hs h hm

/-- Dropping ASCII characters keeps a text valid. -/
theorem utf8IsValid_dropsAscii {s t : Bytes} (h : DropsAscii s t) (hs : utf8IsValid s = true) :
    utf8IsValid t = true :=
  utf8IsValidLoop_dropsAscii hs h (Nat.le_refl _)

end Elogind
