/-
  Elogind.Bus.SignatureGrammar

  The grammar of D-Bus signatures, and that the recogniser (bus-signature.c) accepts exactly its
  texts.  The two depths are counted down from the limits, where the code counts them up.
-/

import Elogind.Bus.Signature

namespace Elogind

open BusType List

/-! ## The grammar -/

/-- The single complete types with at most `arrays` arrays inside each other and at most `structs`
    structures and dictionary entries inside each other. -/
inductive IsCompleteType : Nat → Nat → Bytes → Prop where
  | basic {arrays structs : Nat} {c : UInt8} : isBasic c = true → IsCompleteType arrays structs [c]
  | variant {arrays structs : Nat} : IsCompleteType arrays structs [BusType.variant]
  | array {arrays structs : Nat} {x : Bytes} : IsCompleteType arrays structs x →
      IsCompleteType (arrays + 1) structs (BusType.array :: x)
  | dictionary {arrays structs : Nat} {key : UInt8} {x : Bytes} : isBasic key = true →
      IsCompleteType arrays structs x →
      IsCompleteType (arrays + 1) (structs + 1)
        (BusType.array :: dictEntryBegin :: key :: x ++ [dictEntryEnd])
  | struct {arrays structs : Nat} {xs : List Bytes} : xs ≠ [] →
      (∀ x ∈ xs, IsCompleteType arrays structs x) →
      IsCompleteType arrays (structs + 1) (structBegin :: xs.flatten ++ [structEnd])

/-- A dictionary entry, which is no complete type but may be the element of an array. -/
def IsDictEntry (arrays structs : Nat) (x : Bytes) : Prop :=
  ∃ n key y, structs = n + 1 ∧ x = dictEntryBegin :: key :: y ++ [dictEntryEnd] ∧ isBasic key = true ∧
    IsCompleteType arrays n y

/-- What `signature_element_length_internal` looks for. -/
def IsElement (allowDictEntry : Bool) (arrays structs : Nat) (x : Bytes) : Prop :=
  IsCompleteType arrays structs x ∨ (allowDictEntry = true ∧ IsDictEntry arrays structs x)

variable {arrays structs fuel arrayDepth structDepth n : Nat} {allow : Bool} {x s : Bytes}

/-! ## Every text of the grammar is recognised -/

/-- An entry whose two members are recognised is recognised. -/
theorem recognises_dictEntry {key : UInt8} (hkey : isBasic key = true) (hdepth : structDepth < 32)
    (hx : Recognises
      (fun p => signatureElementLengthInternal (fuel + 1) p false arrayDepth (structDepth + 1)) x) :
    Recognises (fun p => signatureElementLengthInternal (fuel + 2) p true arrayDepth structDepth)
      (dictEntryBegin :: key :: x ++ [dictEntryEnd]) := by
  have hfirst : Recognises
      (fun p => signatureElementLengthInternal (fuel + 1) p false arrayDepth (structDepth + 1)) [key] :=
    ⟨cons_ne_nil key [], fun r => signatureElementLengthInternal_basic (.inl hkey) r⟩
  refine ⟨cons_ne_nil _ _, fun r => ?_⟩
  have hentry := signatureElementLengthInternal_dictEntry hdepth hfirst hx hkey r
  simpa using hentry

theorem IsCompleteType.recognises (h : IsCompleteType arrays structs x) (hfuel : arrays + structs < fuel)
    (harrays : arrayDepth + arrays ≤ 32) (hstructs : structDepth + structs ≤ 32) :
    Recognises (fun p => signatureElementLengthInternal fuel p allow arrayDepth structDepth) x := by
  obtain ⟨fuel, rfl⟩ := Nat.exists_eq_succ_of_ne_zero (Nat.ne_of_gt (Nat.zero_lt_of_lt hfuel))
  induction h generalizing fuel allow arrayDepth structDepth with
  | basic hc => exact ⟨cons_ne_nil _ [], fun r => signatureElementLengthInternal_basic (.inl hc) r⟩
  | variant => exact ⟨cons_ne_nil _ [], fun r => signatureElementLengthInternal_basic (.inr rfl) r⟩
  | array h ih =>
    obtain ⟨fuel, rfl⟩ := Nat.exists_eq_succ_of_ne_zero (show fuel ≠ 0 by omega)
    have hx : Recognises
        (fun p => signatureElementLengthInternal (fuel + 1) p true (arrayDepth + 1) structDepth) _ :=
      ih (by omega) hstructs fuel (by omega)
    exact ⟨cons_ne_nil _ _, fun r => signatureElementLengthInternal_array (by omega) (hx.2 r)⟩
  | dictionary hkey h ih =>
    obtain ⟨fuel, rfl⟩ := Nat.exists_eq_add_of_le' (show 2 ≤ fuel by omega)
    have hx : Recognises
        (fun p => signatureElementLengthInternal (fuel + 1) p false (arrayDepth + 1) (structDepth + 1)) _ :=
      ih (by omega) (by omega) fuel (by omega)
    have hentry := recognises_dictEntry hkey (by omega) hx
    exact ⟨cons_ne_nil _ _, fun r => signatureElementLengthInternal_array (by omega) (hentry.2 r)⟩
  | @struct arrays structs xs hne h ih =>
    obtain ⟨fuel, rfl⟩ := Nat.exists_eq_succ_of_ne_zero (show fuel ≠ 0 by omega)
    have hxs : ∀ x ∈ xs, Recognises
        (fun p => signatureElementLengthInternal (fuel + 1) p false arrayDepth (structDepth + 1)) x :=
      fun x hx => ih x hx harrays (by omega) fuel (by omega)
    have hpos : 0 < xs.flatten.length := by
      have hle := length_le_flatten fun x hx => (hxs x hx).1
      have hlen := length_pos_iff.mpr hne
      omega
    refine ⟨cons_ne_nil _ _, fun r => ?_⟩
    have hstruct : signatureElementLengthInternal (fuel + 2) (structBegin :: (xs.flatten ++ structEnd :: r)) allow
        arrayDepth structDepth = .ok (xs.flatten.length + 2) :=
      signatureElementLengthInternal_struct (by omega) hxs hpos r
    simpa using hstruct

theorem IsElement.recognises (h : IsElement allow 32 32 x) :
    Recognises (fun p => signatureElementLengthInternal 65 p allow 0 0) x := by
  rcases h with h | ⟨rfl, n, key, y, hn, rfl, hkey, hy⟩
  · exact h.recognises (by omega) (by omega) (by omega)
  · exact recognises_dictEntry hkey (by omega) (hy.recognises (by omega) (by omega) (by omega))

/-! ## What is recognised is a text of the grammar -/

/-- The text that was recognised, from what is known about its start. -/
theorem isElement_of_recognises (element : Bytes → Result Nat)
    (h : ∀ {s n}, element s = .ok n → ∃ x r, s = x ++ r ∧ x.length = n ∧ IsElement allow arrays structs x)
    (hx : Recognises element x) : IsElement allow arrays structs x := by
  have hlen := hx.2 []
  rw [append_nil] at hlen
  obtain ⟨y, r, rfl, hy, helement⟩ := h hlen
  rw [length_append] at hy
  have hr : r = [] := length_eq_zero_iff.mp (by omega)
  rw [hr, append_nil]
  exact helement

theorem exists_isElement (h : signatureElementLengthInternal fuel s allow arrayDepth structDepth = .ok n)
    (harrays : arrayDepth + arrays = 32) (hstructs : structDepth + structs = 32) :
    ∃ x r, s = x ++ r ∧ x.length = n ∧ IsElement allow arrays structs x := by
  induction fuel generalizing s allow arrayDepth structDepth arrays structs n with
  | zero => cases h
  | succ fuel ih =>
    rcases signatureElementLengthInternal_eq_ok h with ⟨hb, rfl⟩ | ⟨p, t, rfl, hdepth, rfl, ht⟩ |
      ⟨p, t, rfl, hdepth, hpos, rfl, ht⟩ | ⟨p, t, rfl, rfl, hdepth, rfl, ht⟩
    · cases s with
      | nil => exact absurd hb (by decide)
      | cons c r =>
        refine ⟨[c], r, rfl, rfl, .inl ?_⟩
        rcases hb with hb | rfl
        · exact .basic hb
        · exact .variant
    · obtain ⟨a, rfl⟩ := Nat.exists_eq_succ_of_ne_zero (show arrays ≠ 0 by omega)
      obtain ⟨x, r, rfl, rfl, hx⟩ := ih ht (show arrayDepth + 1 + a = 32 by omega) hstructs
      refine ⟨array :: x, r, rfl, rfl, .inl ?_⟩
      rcases hx with hx | ⟨-, m, key, y, rfl, rfl, hkey, hy⟩
      · exact .array hx
      · exact .dictionary hkey hy
    · obtain ⟨m, rfl⟩ := Nat.exists_eq_succ_of_ne_zero (show structs ≠ 0 by omega)
      obtain ⟨xs, r, rfl, rfl, hxs, -⟩ :=
        structLength_eq_ok (isLocal_element fuel false arrayDepth (structDepth + 1)) ht
      refine ⟨structBegin :: xs.flatten ++ [structEnd], r, by simp, by simp, .inl (.struct ?_ fun x hx => ?_)⟩
      · rintro rfl
        exact absurd hpos (by decide)
      · have hdepth' : structDepth + 1 + m = 32 := by omega
        have helement := isElement_of_recognises _ (fun h => ih h harrays hdepth') (hxs x hx)
        exact helement.resolve_right fun hfalse => Bool.false_ne_true hfalse.1
    · obtain ⟨m, rfl⟩ := Nat.exists_eq_succ_of_ne_zero (show structs ≠ 0 by omega)
      obtain ⟨x, y, r, rfl, rfl, hx, hy, hkey⟩ :=
        dictEntryLength_two (isLocal_element fuel false arrayDepth (structDepth + 1)) ht
      -- the first member starts with a basic code, which is a complete type already
      have hone : ∃ key, x = [key] := by
        obtain ⟨key, z, rfl⟩ := exists_cons_of_ne_nil hx.1
        obtain ⟨fuel, rfl⟩ := Nat.exists_eq_succ_of_ne_zero (show fuel ≠ 0 by
          rintro rfl
          cases hx.2 [])
        have hlen := (hx.2 []).symm.trans (signatureElementLengthInternal_basic (.inl hkey) (z ++ []))
        have hz : z = [] := length_eq_zero_iff.mp (Nat.succ.inj (Except.ok.inj hlen))
        exact ⟨key, by rw [hz]⟩
      obtain ⟨key, rfl⟩ := hone
      have hdepth' : structDepth + 1 + m = 32 := by omega
      have helement := isElement_of_recognises _ (fun h => ih h harrays hdepth') hy
      have hvalue := helement.resolve_right fun hfalse => Bool.false_ne_true hfalse.1
      exact ⟨dictEntryBegin :: key :: y ++ [dictEntryEnd], r, by simp, by simp,
        .inr ⟨rfl, m, key, y, rfl, rfl, hkey, hvalue⟩⟩

/-- A single type is one of the grammar. -/
theorem signatureIsSingle_iff_isElement : signatureIsSingle x allow = true ↔ IsElement allow 32 32 x := by
  rw [signatureIsSingle_iff]
  refine ⟨fun h => ?_, fun h => h.recognises⟩
  exact isElement_of_recognises _ (fun h => exists_isElement h rfl rfl) h

/-! ## Signatures -/

/-- The parser accepts exactly the sequences of complete types of at most 255 bytes; and the type that
    is found at the start of a text is the only one that stands there, where a dictionary entry counts
    as a type. -/
theorem signature_grammar (s : Bytes) :
    (signatureIsValid s false = true ↔
      (∃ xs : List Bytes, s = xs.flatten ∧ ∀ x ∈ xs, IsCompleteType 32 32 x) ∧ s.length ≤ 255) ∧
    (∀ n, signatureElementLength s = .ok n ↔
      ∃ x r, s = x ++ r ∧ (IsCompleteType 32 32 x ∨ IsDictEntry 32 32 x) ∧ x.length = n) ∧
    (∀ x y r r', s = x ++ r → s = y ++ r' → (IsCompleteType 32 32 x ∨ IsDictEntry 32 32 x) →
      (IsCompleteType 32 32 y ∨ IsDictEntry 32 32 y) → x = y) := by
  have htrue : ∀ x, IsElement true 32 32 x ↔ (IsCompleteType 32 32 x ∨ IsDictEntry 32 32 x) := by
    intro x
    rw [IsElement, eq_self_iff_true, true_and]
  have hfalse : ∀ x, IsElement false 32 32 x ↔ IsCompleteType 32 32 x := by
    intro x
    rw [IsElement, or_iff_left fun h => Bool.false_ne_true h.1]
  refine ⟨?_, fun n => ⟨fun h => ?_, ?_⟩, ?_⟩
  · rw [signatureIsValid_iff, IsSequence]
    simp only [signatureIsSingle_iff_isElement, hfalse]
    rfl
  · obtain ⟨x, r, hs, hlen, hx⟩ := exists_isElement h (Nat.zero_add 32) (Nat.zero_add 32)
    exact ⟨x, r, hs, (htrue x).mp hx, hlen⟩
  · rintro ⟨x, r, rfl, hx, rfl⟩
    exact ((htrue x).mpr hx).recognises.2 r
  · intro x y r r' hx hy hx' hy'
    exact (((htrue x).mpr hx').recognises.eq_of_append ((htrue y).mpr hy').recognises
      (hx.symm.trans hy)).1

/-- At the start of `{sv}` there is no complete type, but its length is returned. -/
theorem signatureElementLength_dictEntry_alone :
    signatureElementLength (ascii "\x7bsv\x7d") = .ok 4 ∧
      ¬ ∃ x r, ascii "\x7bsv\x7d" = x ++ r ∧ IsCompleteType 32 32 x := by
  refine ⟨by decide, ?_⟩
  rintro ⟨x, r, hs, hx⟩
  have hhead : ∀ {c : UInt8} {y : Bytes}, x = c :: y → c = dictEntryBegin := by
    intro c y hc
    rw [hc] at hs
    exact (cons.inj hs).1.symm
  cases hx with
  | basic hc =>
    rw [hhead rfl] at hc
    cases hc
  | variant | array h | dictionary hkey h | struct hne h => cases hhead rfl

end Elogind
