/-
  Elogind.Basic.Utf8Memory

  The same validation of UTF-8 (utf8.c) as it reads memory: a string is what there is from its first byte to
  the end of the memory it is in, and a function that reads further has no result.  Nothing is read after the
  terminating zero or the given length.
-/

import Elogind.Basic.Utf8Encode

namespace Elogind

open List

-- for what is checked for each byte
set_option maxRecDepth 2000

/-! ## Reading characters -/

/-- The loop of `utf8_encoded_to_unichar` over so many continuation bytes. -/
def utf8ReadContinuation (unichar : Nat) : Nat → Bytes → Option (Option Nat)
  | 0, _ => some (some unichar)
  | _ + 1, [] => none
  | n + 1, d :: str =>
    if d &&& 0xc0 = 0x80 then utf8ReadContinuation (unichar <<< 6 ||| (d &&& 0x3f).toNat) n str
    else some none

/-- `utf8_encoded_to_unichar`: the character and its length. -/
def utf8ReadUnichar : Bytes → Option (Option (Nat × Nat))
  | [] => none
  | c :: str =>
    let len := utf8EncodedExpectedLen c
    if len = 1 then some (some (c.toNat, 1))
    else if len = 0 then some none
    else
      match utf8ReadContinuation (utf8FirstBits len c) (len - 1) str with
      | none => none
      | some none => some none
      | some (some unichar) => some (some (unichar, len))

/-- The check that so many bytes are not ASCII. -/
def utf8ReadHigh : Nat → Bytes → Option Bool
  | 0, _ => some true
  | _ + 1, [] => none
  | n + 1, d :: str => if d &&& 0x80 ≠ 0x80 then some false else utf8ReadHigh n str

/-- `utf8_encoded_valid_unichar`, where the length may be `SIZE_MAX`. -/
def utf8ReadValidUnichar (str : Bytes) (length : Option Nat) : Option (Option Nat) :=
  match str with
  | [] => none
  | c :: _ =>
    let len := utf8EncodedExpectedLen c
    if len = 0 then some none
    else if length.any (len > ·) then some none
    else if len = 1 then some (some 1)
    else
      match utf8ReadHigh len str with
      | none => none
      | some false => some none
      | some true =>
        match utf8ReadUnichar str with
        | none => none
        | some none => some none
        | some (some (unichar, _)) =>
          if utf8UnicharToEncodedLen unichar ≠ len then some none
          else if !unicharIsValid unichar then some none
          else some (some len)

/-- The loop of `utf8_is_valid_n` over what is left of the string and of its length, in so many rounds. -/
def utf8IsValidNLoop : Nat → Bytes → Option Nat → Option Bool
  | 0, _, _ => none
  | n + 1, str, left =>
    if left = some 0 then some true
    else
      match str with
      | [] => none
      | c :: _ =>
        if c = 0 then some left.isNone
        else
          match utf8ReadValidUnichar str left with
          | none => none
          | some none => some false
          | some (some len) => utf8IsValidNLoop n (str.drop len) (left.map (· - len))

/-- `utf8_is_valid_n`, where the length may be `SIZE_MAX`. -/
def utf8IsValidN (str : Bytes) (lenBytes : Option Nat) : Option Bool :=
  utf8IsValidNLoop (str.length + 1) str lenBytes

/-- `UTF8_REPLACEMENT_CHARACTER` -/
def utf8ReplacementCharacter : Bytes := [0xef, 0xbf, 0xbd]

/-- The loop of `utf8_escape_invalid`, in so many rounds. -/
def utf8EscapeInvalidLoop : Nat → Bytes → Option Bytes
  | 0, _ => none
  | _ + 1, [] => none
  | n + 1, c :: str =>
    if c = 0 then some []
    else
      match utf8ReadValidUnichar (c :: str) none with
      | none => none
      | some (some len) => (utf8EscapeInvalidLoop n ((c :: str).drop len)).map ((c :: str).take len ++ ·)
      | some none => (utf8EscapeInvalidLoop n str).map (utf8ReplacementCharacter ++ ·)

/-- `utf8_escape_invalid` -/
def utf8EscapeInvalid (str : Bytes) : Option Bytes := utf8EscapeInvalidLoop (str.length + 1) str

/-! ## What is read -/

theorem utf8ReadContinuation_append (acc : Nat) (r t : Bytes) :
    utf8ReadContinuation acc r.length (r ++ t) = some (r.foldlM (fun (unichar : Nat) (d : UInt8) =>
      if d &&& 0xc0 = 0x80 then some (unichar <<< 6 ||| (d &&& 0x3f).toNat) else none) acc) := by
  induction r generalizing acc with
  | nil => rfl
  | cons d r ih =>
    rw [length_cons, cons_append, utf8ReadContinuation, foldlM_cons]
    split
    · exact ih _
    · rfl

/-- Bytes that are there. -/
theorem utf8ReadHigh_append (r t : Bytes) :
    utf8ReadHigh r.length (r ++ t) = some (r.all fun d => d &&& 0x80 = 0x80) := by
  induction r with
  | nil => rfl
  | cons d r ih =>
    rw [length_cons, cons_append, utf8ReadHigh, all_cons]
    split
    · rename_i h
      simp [h]
    · rename_i h
      rw [ih, not_not.mp h]
      simp

/-- A zero ends the check. -/
theorem utf8ReadHigh_zero {n : Nat} {r : Bytes} (h : r.length < n) (t : Bytes) :
    utf8ReadHigh n (r ++ 0 :: t) = some false := by
  induction r generalizing n with
  | nil =>
    obtain ⟨n, rfl⟩ : ∃ k, n = k + 1 := ⟨n - 1, by simp at h; omega⟩
    rfl
  | cons d r ih =>
    rw [length_cons] at h
    obtain ⟨n, rfl⟩ : ∃ k, n = k + 1 := ⟨n - 1, by omega⟩
    rw [cons_append, utf8ReadHigh, ih (by omega), ite_self]

theorem high_of_continuation : ∀ d : UInt8, d &&& 0xc0 = 0x80 → d &&& 0x80 = 0x80 := by decide

theorem high_of_expectedLen : ∀ c : UInt8, 1 < utf8EncodedExpectedLen c → c &&& 0x80 = 0x80 := by decide

/-- Where a byte is ASCII, there is no character. -/
theorem foldlM_none_of_not_high {r : Bytes} (h : (r.all fun d => d &&& 0x80 = 0x80) = false) (acc : Nat) :
    r.foldlM (fun (unichar : Nat) (d : UInt8) =>
      if d &&& 0xc0 = 0x80 then some (unichar <<< 6 ||| (d &&& 0x3f).toNat) else none) acc = none := by
  induction r generalizing acc with
  | nil => cases h
  | cons d r ih =>
    rw [foldlM_cons]
    by_cases hd : d &&& 0xc0 = 0x80
    · rw [all_cons, decide_eq_true (high_of_continuation d hd), Bool.true_and] at h
      rw [if_pos hd]
      exact ih h _
    · rw [if_neg hd]
      rfl

/-- A string that ends after this byte and those: with a zero, or where the length says so. -/
inductive Utf8Ends (s : Bytes) : Bytes → Option Nat → Prop where
  | zero (t : Bytes) : Utf8Ends s (0 :: t) none
  | zeroBefore (t : Bytes) {n : Nat} (h : s.length < n) : Utf8Ends s (0 :: t) (some n)
  | length (t : Bytes) : Utf8Ends s t (some s.length)

/-- The first character of such a string. -/
theorem utf8ReadValidUnichar_eq {c : UInt8} {s t : Bytes} {length : Option Nat} (h : Utf8Ends (c :: s) t length) :
    utf8ReadValidUnichar (c :: s ++ t) length = some (utf8EncodedValidUnichar c s) := by
  rw [cons_append]
  unfold utf8ReadValidUnichar utf8EncodedValidUnichar
  simp only
  by_cases hzero : utf8EncodedExpectedLen c = 0
  · rw [if_pos hzero, if_pos hzero]
  rw [if_neg hzero, if_neg hzero]
  by_cases hone : utf8EncodedExpectedLen c = 1
  · have hany : ¬ length.any (utf8EncodedExpectedLen c > ·) = true := by
      rw [hone]
      cases h with
      | zero t | length t => simp
      | zeroBefore t h =>
        simp only [Option.any_some, decide_eq_true_eq]
        omega
    rw [if_neg hany, if_pos hone, if_pos hone]
  rw [if_neg hone, if_neg hone]
  have hhigh := high_of_expectedLen c (by omega)
  by_cases hshort : s.length < utf8EncodedExpectedLen c - 1
  · -- the sequence is cut off
    rw [if_pos hshort]
    cases h with
    | zero t =>
      have hread := utf8ReadHigh_zero (r := c :: s) (n := utf8EncodedExpectedLen c)
        (by rw [length_cons]; omega) t
      rw [cons_append] at hread
      simp [hread]
    | zeroBefore t h =>
      have hread := utf8ReadHigh_zero (r := c :: s) (n := utf8EncodedExpectedLen c)
        (by rw [length_cons]; omega) t
      rw [cons_append] at hread
      split
      · rfl
      · simp [hread]
    | length t =>
      rw [if_pos]
      simp only [length_cons, Option.any_some, decide_eq_true_eq]
      omega
  · rw [if_neg hshort]
    have hany : ¬ length.any (utf8EncodedExpectedLen c > ·) = true := by
      cases h with
      | zero t => simp
      | zeroBefore t h =>
        rw [length_cons] at h
        simp only [Option.any_some, decide_eq_true_eq]
        omega
      | length t =>
        simp only [length_cons, Option.any_some, decide_eq_true_eq]
        omega
    rw [if_neg hany]
    -- the bytes of the sequence, and those behind it
    have hlength : (s.take (utf8EncodedExpectedLen c - 1)).length = utf8EncodedExpectedLen c - 1 :=
      length_take_of_le (by omega)
    have hsplit : s ++ t = s.take (utf8EncodedExpectedLen c - 1) ++ (s.drop (utf8EncodedExpectedLen c - 1) ++ t) := by
      rw [← append_assoc, take_append_drop]
    have hread := utf8ReadHigh_append (c :: s.take (utf8EncodedExpectedLen c - 1))
      (s.drop (utf8EncodedExpectedLen c - 1) ++ t)
    rw [length_cons, hlength, Nat.sub_add_cancel (by omega), cons_append, ← hsplit, all_cons,
      decide_eq_true hhigh, Bool.true_and] at hread
    have hchar := utf8ReadContinuation_append (utf8FirstBits (utf8EncodedExpectedLen c) c)
      (s.take (utf8EncodedExpectedLen c - 1)) (s.drop (utf8EncodedExpectedLen c - 1) ++ t)
    rw [hlength, ← hsplit] at hchar
    rw [hread]
    cases hall : (s.take (utf8EncodedExpectedLen c - 1)).all fun d => d &&& 0x80 = 0x80 with
    | false =>
      have hnone := foldlM_none_of_not_high hall (utf8FirstBits (utf8EncodedExpectedLen c) c)
      simp only [utf8EncodedToUnichar, hnone]
    | true =>
      simp only [utf8ReadUnichar, hone, hzero, if_false, hchar]
      unfold utf8EncodedToUnichar
      cases (s.take (utf8EncodedExpectedLen c - 1)).foldlM (fun (unichar : Nat) (d : UInt8) =>
        if d &&& 0xc0 = 0x80 then some (unichar <<< 6 ||| (d &&& 0x3f).toNat) else none)
        (utf8FirstBits (utf8EncodedExpectedLen c) c) with
      | none => rfl
      | some u =>
        simp only
        split
        · rfl
        · split <;> rfl

/-! ## Validation -/

/-- The rest of a string ends where the string does. -/
theorem Utf8Ends.drop {s t : Bytes} {length : Option Nat} (h : Utf8Ends s t length) {len : Nat} (hlen : len ≤ s.length) :
    Utf8Ends (s.drop len) t (length.map (· - len)) := by
  cases h with
  | zero t => exact .zero t
  | zeroBefore t h =>
    refine .zeroBefore t ?_
    show (s.drop len).length < _ - len
    rw [length_drop]
    omega
  | length t =>
    rw [Option.map_some, ← length_drop]
    exact .length t

/-- A zero before the end of the given length is found, and what is before it or before the end is checked. -/
theorem utf8IsValidNLoop_eq {n m : Nat} {s t : Bytes} {length : Option Nat} (hzero : 0 ∉ s) (h : Utf8Ends s t length)
    (hn : s.length < n) (hm : s.length ≤ m) :
    utf8IsValidNLoop n (s ++ t) length = some (utf8IsValidLoop m s && length.all (· ≤ s.length)) := by
  induction n generalizing m s length with
  | zero => exact absurd hn (Nat.not_lt_zero _)
  | succ n ih =>
    cases s with
    | nil =>
      rw [utf8IsValidLoop_nil, Bool.true_and, nil_append]
      unfold utf8IsValidNLoop
      cases h with
      | zero t | length t => rfl
      | zeroBefore t h =>
        have hpos : ¬ some _ = some 0 := fun heq => absurd (Option.some.inj heq) (Nat.ne_of_gt h)
        rw [if_neg hpos]
        exact congrArg some (decide_eq_false (Nat.not_le_of_lt h)).symm
    | cons c s =>
      have hc : c ≠ 0 := fun h => hzero (h ▸ mem_cons_self)
      have hleft : length ≠ some 0 := by
        cases h with
        | zero t | length t => simp
        | zeroBefore t h =>
          intro heq
          obtain rfl := Option.some.inj heq
          exact Nat.not_lt_zero _ h
      obtain ⟨m, rfl⟩ : ∃ k, m = k + 1 := ⟨m - 1, by rw [length_cons] at hm; omega⟩
      have hread := utf8ReadValidUnichar_eq h
      rw [cons_append] at hread
      unfold utf8IsValidNLoop
      rw [if_neg hleft, cons_append, utf8IsValidLoop]
      simp only [hc, hread, if_false]
      cases hchar : utf8EncodedValidUnichar c s with
      | none => rfl
      | some len =>
        obtain ⟨-, -, -, hpos, hlen⟩ := exists_of_utf8EncodedValidUnichar hchar
        obtain ⟨len, rfl⟩ : ∃ k, len = k + 1 := ⟨len - 1, by omega⟩
        rw [length_cons] at hlen hn hm
        have hrest : 0 ∉ s.drop len := fun hmem => hzero (mem_cons_of_mem c (mem_of_mem_drop hmem))
        have hends := h.drop (show len + 1 ≤ (c :: s).length by rw [length_cons]; omega)
        have hloop := ih (m := m) hrest hends (by rw [length_drop]; omega) (by rw [length_drop]; omega)
        have hdrop : (c :: (s ++ t)).drop (len + 1) = s.drop len ++ t := by
          rw [drop_succ_cons, drop_append_of_le_length (by omega)]
        simp only [hdrop, hloop, Nat.add_sub_cancel, length_drop, length_cons]
        congr 2
        cases length with
        | none => rfl
        | some k =>
          simp only [Option.map_some, Option.all_some, decide_eq_decide]
          omega

/-- A valid text. -/
theorem utf8IsValid_iff {s : Bytes} :
    utf8IsValid s = true ↔ ∃ us : List Nat, (∀ u ∈ us, unicharIsValid u = true) ∧ s = us.flatMap utf8EncodeUnichar := by
  constructor
  · exact exists_of_utf8IsValid
  · rintro ⟨us, hus, rfl⟩
    rw [utf8IsValid_encode fun u hu => (lt_of_unicharIsValid (hus u hu)).trans (by decide)]
    exact all_eq_true.mpr hus

/-- Validation of a string that ends with a zero, or where the length says so, with nothing read behind it. -/
theorem utf8IsValidN_eq {s t : Bytes} {length : Option Nat} (hzero : 0 ∉ s) (h : Utf8Ends s t length) :
    utf8IsValidN (s ++ t) length = some (utf8IsValid s && length.all (· ≤ s.length)) :=
  utf8IsValidNLoop_eq hzero h (by rw [length_append]; omega) (Nat.le_refl _)

/-! ## Replacing what is invalid -/

theorem utf8ReplacementCharacter_eq : utf8ReplacementCharacter = utf8EncodeUnichar 0xfffd ∧
    unicharIsValid 0xfffd = true := by decide

/-- The result is made of valid characters, and a string of such is kept. -/
theorem utf8EscapeInvalidLoop_eq {n : Nat} {s : Bytes} (hzero : 0 ∉ s) (hn : s.length < n) :
    ∃ us : List Nat, (∀ u ∈ us, unicharIsValid u = true) ∧ 0 ∉ us.flatMap utf8EncodeUnichar ∧
      utf8EscapeInvalidLoop n (s ++ [0]) = some (us.flatMap utf8EncodeUnichar) ∧
      (utf8IsValidLoop s.length s = true → us.flatMap utf8EncodeUnichar = s) := by
  induction n generalizing s with
  | zero => exact absurd hn (Nat.not_lt_zero _)
  | succ n ih =>
    cases s with
    | nil => exact ⟨[], by simp, by simp, rfl, fun _ => rfl⟩
    | cons c s =>
      have hc : c ≠ 0 := fun h => hzero (h ▸ mem_cons_self)
      have hread := utf8ReadValidUnichar_eq (.zero (s := c :: s) [])
      rw [cons_append] at hread
      rw [length_cons] at hn
      rw [cons_append, utf8EscapeInvalidLoop, if_neg hc, hread, length_cons, utf8IsValidLoop]
      cases hchar : utf8EncodedValidUnichar c s with
      | none =>
        obtain ⟨us, hus, hnone, hloop, -⟩ := ih (fun hmem => hzero (mem_cons_of_mem c hmem)) (by omega : s.length < n)
        obtain ⟨hencode, hvalid⟩ := utf8ReplacementCharacter_eq
        refine ⟨0xfffd :: us, ?_, ?_, ?_, fun h => by cases h⟩
        · rw [forall_mem_cons]
          exact ⟨hvalid, hus⟩
        · rw [flatMap_cons, mem_append, not_or, ← hencode]
          exact ⟨by decide, hnone⟩
        · simp only [hloop, Option.map_some, flatMap_cons, hencode]
      | some len =>
        obtain ⟨u, hu, htake, hpos, hlen⟩ := exists_of_utf8EncodedValidUnichar hchar
        obtain ⟨len, rfl⟩ : ∃ k, len = k + 1 := ⟨len - 1, by omega⟩
        rw [length_cons] at hlen
        have hrest : 0 ∉ s.drop len := fun hmem => hzero (mem_cons_of_mem c (mem_of_mem_drop hmem))
        obtain ⟨us, hus, hnone, hloop, hkept⟩ := ih hrest (by rw [length_drop]; omega)
        have hdrop : (c :: (s ++ [0])).drop (len + 1) = s.drop len ++ [0] := by
          rw [drop_succ_cons, drop_append_of_le_length (by omega)]
        have htake' : (c :: (s ++ [0])).take (len + 1) = utf8EncodeUnichar u := by
          rw [← htake, take_succ_cons, take_succ_cons, take_append_of_le_length (by omega)]
        refine ⟨u :: us, ?_, ?_, ?_, fun hvalid => ?_⟩
        · rw [forall_mem_cons]
          exact ⟨hu, hus⟩
        · rw [flatMap_cons, mem_append, not_or, ← htake]
          exact ⟨fun hmem => hzero (mem_of_mem_take hmem), hnone⟩
        · simp only [hdrop, hloop, htake', Option.map_some, flatMap_cons]
        · have hvalid' : utf8IsValidLoop (s.drop len).length (s.drop len) = true :=
            utf8IsValidLoop_dropsAscii hvalid (DropsAscii.refl _) (Nat.le_refl _)
          rw [flatMap_cons, hkept hvalid', ← htake]
          exact take_append_drop (len + 1) (c :: s)

/-- What is invalid is replaced, so that the result is another string. -/
theorem utf8EscapeInvalid_eq {s : Bytes} (hzero : 0 ∉ s) :
    ∃ t, utf8EscapeInvalid (s ++ [0]) = some t ∧ 0 ∉ t ∧ utf8IsValid t = true ∧ (t = s ↔ utf8IsValid s = true) := by
  obtain ⟨us, hus, hnone, hloop, hkept⟩ := utf8EscapeInvalidLoop_eq (n := (s ++ [0]).length + 1) hzero
    (by rw [length_append]; omega)
  have hvalid : utf8IsValid (us.flatMap utf8EncodeUnichar) = true := (utf8IsValid_iff).mpr ⟨us, hus, rfl⟩
  refine ⟨_, hloop, hnone, hvalid, ?_, hkept⟩
  intro h
  rw [← h]
  exact hvalid

end Elogind
