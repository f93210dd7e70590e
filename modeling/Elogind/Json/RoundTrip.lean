/-
  Elogind.Json.RoundTrip

  A variant that is written and read again is equal to the first one, unless there is a delete character in
  a string: `json_format_string` writes it as it is, and `json_parse_string` refuses it.
-/

import Elogind.Json.Comparing
import Elogind.Json.FormatText
import Elogind.Json.Reading

namespace Elogind

open Byte Errno List JsonVariant

-- for what is checked for each byte
set_option maxRecDepth 2000

namespace JsonVariant

variable {R : Type}

variable [Double R]

/-! ## Comparing values -/

/-- Two integers are equal if they are read as equal ones. -/
theorem equalScalar_integer {a b : JsonVariant R} {i : Int64} (htype : b.hasType .integer = true)
    (hequal : a.integer = b.integer) : equalScalar (.integer i) a b = true := by
  unfold equalScalar
  split
  · rfl
  · rw [show JsonScalar.type (.integer i : JsonScalar R) = .integer from rfl, htype, hequal]
    simp

theorem equalScalar_unsigned {a b : JsonVariant R} {u : UInt64} (htype : b.hasType .unsigned = true)
    (hequal : a.unsigned = b.unsigned) : equalScalar (.unsigned u) a b = true := by
  unfold equalScalar
  split
  · rfl
  · rw [show JsonScalar.type (.unsigned u : JsonScalar R) = .unsigned from rfl, htype, hequal]
    simp

/-- An integer is equal to the one that is read, which may be an unsigned one. -/
theorem equalScalar_asRead_integer {p q : JsonPointer} {i : Int64} (hp : p.Fits (.integer i : JsonScalar R))
    (hq : q.Fits (JsonScalar.integer i : JsonScalar R).asRead) :
    equalScalar (.integer i) (scalar (R := R) p (.integer i)).formalize
      (scalar q (JsonScalar.integer i).asRead).formalize = true := by
  have hmax := Int64.toInt_lt i
  by_cases hneg : i.toInt < 0
  · have hread : (JsonScalar.integer i : JsonScalar R).asRead = .integer i := if_pos hneg
    have hzero : i ≠ 0 := by
      rintro rfl
      exact absurd hneg (by decide)
    have hmagic : (JsonScalar.integer i : JsonScalar R).isMagic = false := decide_eq_false hzero
    rw [hread] at hq ⊢
    rw [formalize_scalar hmagic, formalize_scalar hmagic]
    refine equalScalar_integer ?_ ((integer_of_fits hp).trans (integer_of_fits hq).symm)
    simp [hasType, JsonScalar.type]
  · have hread : (JsonScalar.integer i : JsonScalar R).asRead = .unsigned (UInt64.ofNat i.toInt.toNat) := if_neg hneg
    rw [hread] at hq ⊢
    by_cases hzero : i = 0
    · subst hzero
      rfl
    · have hnat : (UInt64.ofNat i.toInt.toNat).toNat = i.toInt.toNat := by
        exact Nat.mod_eq_of_lt (by omega)
      have hpos : i.toInt ≠ 0 := by
        intro h
        exact hzero (Int64.toInt_inj.mp h)
      have hunsigned : UInt64.ofNat i.toInt.toNat ≠ 0 := by
        intro h
        rw [h] at hnat
        have hnat' : 0 = i.toInt.toNat := hnat
        omega
      have hmagic : (JsonScalar.integer i : JsonScalar R).isMagic = false := decide_eq_false hzero
      have hmagic' : (JsonScalar.unsigned (UInt64.ofNat i.toInt.toNat) : JsonScalar R).isMagic = false :=
        decide_eq_false hunsigned
      rw [formalize_scalar hmagic, formalize_scalar hmagic']
      cases q with
      | magic => exact absurd rfl (ne_magic_of_fits hq hmagic' (fun h => by cases h))
      | constString => cases hq.constString rfl
      | regular a line column =>
        have hsmall : (UInt64.ofNat i.toInt.toNat).toNat < 2 ^ 63 := by omega
        have hback : Int64.ofInt ((UInt64.ofNat i.toInt.toNat).toNat : Int) = i := by
          rw [hnat, Int.toNat_of_nonneg (by omega), Int64.ofInt_toInt]
        refine equalScalar_integer ?_ ((integer_of_fits hp).trans ?_)
        · simp only [hasType, JsonScalar.type, hsmall, reduceCtorEq, if_false, decide_true]
        · simp only [integer, hsmall, hback, reduceCtorEq, if_false, if_true]

/-- A scalar is equal to the one that is read. -/
theorem equalScalar_asRead {p q : JsonPointer} {x : JsonScalar R} (hp : p.Fits x) (hq : q.Fits x.asRead)
    (hreal : x.type ≠ .real) : equalScalar x (scalar p x).formalize (scalar q x.asRead).formalize = true := by
  cases x with
  | null => rfl
  | boolean b => cases b <;> rfl
  | real d => exact absurd rfl hreal
  | string s =>
    cases s with
    | nil => rfl
    | cons c s =>
      show equalScalar _ (scalar p (.string (c :: s))) (scalar q (.string (c :: s))) = true
      unfold equalScalar
      split
      · rfl
      · simp [hasType, JsonScalar.type]
  | unsigned u =>
    show equalScalar _ (scalar p (.unsigned u)).formalize (scalar q (.unsigned u)).formalize = true
    have htype : ∀ r : JsonPointer, (scalar r (.unsigned u : JsonScalar R)).hasType .unsigned = true := by
      intro r
      simp [hasType, JsonScalar.type]
    by_cases hu : u = 0
    · have hmagic : (JsonScalar.unsigned u : JsonScalar R).isMagic = true := decide_eq_true hu
      rw [formalize_magic hmagic hreal, formalize_magic hmagic hreal]
      exact equalScalar_unsigned (htype _) rfl
    · have hmagic : (JsonScalar.unsigned u : JsonScalar R).isMagic = false := decide_eq_false hu
      rw [formalize_scalar hmagic, formalize_scalar hmagic]
      exact equalScalar_unsigned (htype _) ((unsigned_of_fits hp).trans (unsigned_of_fits hq).symm)
  | integer i => exact equalScalar_asRead_integer hp hq

/-- A variant is equal to one that was read and has its value. -/
theorem isEqual_of_asRead {v : JsonVariant R} (hv : v.Built) {w : JsonVariant R} (hw : w.Markable)
    (hvalue : w.value = v.value.asRead) : v.IsEqual w {a | a ∈ w.keyCells} := by
  induction hv generalizing w with
  | @scalar p x hp hreal _ =>
    rw [value_scalar, Json.asRead_scalar] at hvalue
    cases hw with
    | @scalar q y hq =>
      rw [value_scalar, Json.scalar.injEq] at hvalue
      subst hvalue
      intro m
      exact ⟨m, by rw [equal, equalScalar_asRead hp hq hreal], fun _ _ => rfl⟩
    | array q c h =>
      cases hvalue
    | object q c h hcell hnodup hbelow =>
      cases hvalue
  | @array p c es _ ih =>
    rw [value_array, Json.asRead_array] at hvalue
    cases hw with
    | scalar hq =>
      cases hvalue
    | object q d h hcell hnodup hbelow =>
      cases hvalue
    | @array q d ds hds =>
      rw [value_array, Json.array.injEq, map_map] at hvalue
      have hlength : es.length = ds.length := by
        have := congrArg length hvalue
        rw [length_map, length_map] at this
        exact this.symm
      refine isEqual_array (forall₂_iff_get.mpr ⟨hlength, fun i hi hd => ?_⟩)
      have hget := getElem_of_eq hvalue (by rw [length_map]; exact hd)
      rw [getElem_map, getElem_map] at hget
      have hd' := get_mem ds ⟨i, hd⟩
      exact (ih _ (get_mem es ⟨i, hi⟩) (hds _ hd') hget).mono fun a ha => mem_keyCells_array.mpr ⟨_, hd', ha⟩
  | @object p c fs _ _ ih =>
    rw [value_object, Json.asRead_object] at hvalue
    cases hw with
    | scalar hq =>
      cases hvalue
    | array q d h =>
      cases hvalue
    | @object q d gs hgs hcell hnodup hbelow =>
      rw [value_object, Json.object.injEq, map_map] at hvalue
      have hlength : fs.length = gs.length := by
        have := congrArg length hvalue
        rw [length_map, length_map] at this
        exact this.symm
      have hcells : CellsApart gs fun g => {a | a ∈ g.2.keyCells} := ⟨hcell, hnodup, hbelow⟩
      have hequal : Forall₂ (fun f g => f.1.2 = g.1.2 ∧ f.2.IsEqual g.2 {a | a ∈ g.2.keyCells}) fs gs := by
        rw [forall₂_iff_get]
        refine ⟨hlength, fun i hi hd => ?_⟩
        have hget := getElem_of_eq hvalue (by rw [length_map]; exact hd)
        rw [getElem_map, getElem_map] at hget
        obtain ⟨hkey, hfield⟩ := Prod.mk.inj hget
        exact ⟨hkey.symm, ih _ (get_mem fs ⟨i, hi⟩) (hgs _ (get_mem gs ⟨i, hd⟩)) hfield⟩
      have hfinds : Finds ([] ++ gs) (fun g => {a | a ∈ g.2.keyCells}) [] fs :=
        finds_of_forall₂ (Nodup.of_map _ hnodup) hequal
      exact isEqual_object hlength hfinds hcells fun g hg =>
        ⟨fun a ha => mem_keyCells_object.mpr ⟨g, hg, .inl ha⟩, fun a ha => mem_keyCells_object.mpr ⟨g, hg, .inr ha⟩⟩

/-! ## Deletes -/

theorem mem_jsonFormatElements {pretty first : Bool} {indent : Bytes} {es : List (JsonVariant R)} {e : JsonVariant R}
    (he : e ∈ es) {c : UInt8} (hc : c ∈ e.jsonFormat pretty indent) :
    c ∈ jsonFormatElements pretty first indent es := by
  induction es generalizing first with
  | nil => exact absurd he not_mem_nil
  | cons d es ih =>
    rw [jsonFormatElements, mem_append, mem_append]
    obtain rfl | he := mem_cons.mp he
    · exact .inl (.inr hc)
    · exact .inr (ih he)

theorem mem_jsonFormatFields {pretty first : Bool} {indent : Bytes}
    {fs : List (JsonField R)} {f : JsonField R} (hf : f ∈ fs)
    {c : UInt8} (hc : c ∈ jsonFormatString f.1.2 ∨ c ∈ f.2.jsonFormat pretty indent) :
    c ∈ jsonFormatFields pretty first indent fs := by
  induction fs generalizing first with
  | nil => exact absurd hf not_mem_nil
  | cons g fs ih =>
    obtain ⟨k, v⟩ := g
    rw [jsonFormatFields]
    simp only [mem_append]
    obtain rfl | hf := mem_cons.mp hf
    · obtain hc | hc := hc
      · exact .inl (.inl (.inl (.inr hc)))
      · exact .inl (.inr hc)
    · exact .inr (ih hf)

theorem delete_mem_jsonFormatString {s : Bytes} (h : 0x7f ∈ s) : 0x7f ∈ jsonFormatString s := by
  refine mem_append_left _ (mem_append_right _ (mem_flatMap.mpr ⟨0x7f, h, ?_⟩))
  decide

/-- A delete character in a string is written as it is. -/
theorem delete_mem_jsonFormat {v : JsonVariant R} {s : Bytes} (hs : s ∈ v.strings) (hdelete : 0x7f ∈ s) (pretty : Bool)
    (indent : Bytes) : 0x7f ∈ v.jsonFormat pretty indent := by
  -- what is in a container is in its text
  have hcontainer : ∀ {left right c : UInt8} {indent members : Bytes}, c ∈ members →
      c ∈ formatContainer pretty indent left right members := by
    intro left right c indent members hc
    unfold formatContainer
    simp only [mem_append]
    exact .inl (.inl (.inr hc))
  induction v using induct generalizing indent with
  | scalar p x =>
    cases x with
    | string t =>
      rw [strings, mem_singleton] at hs
      subst hs
      exact delete_mem_jsonFormatString hdelete
    | _ => exact absurd hs not_mem_nil
  | array p c es ih =>
    obtain ⟨e, he, hse⟩ := mem_strings_array.mp hs
    have hne : es.isEmpty = false := isEmpty_eq_false_iff.mpr (ne_nil_of_mem he)
    rw [jsonFormat, hne, if_neg (by decide)]
    exact hcontainer (mem_jsonFormatElements he (ih e he hse _))
  | object p c fs ih =>
    obtain ⟨f, hf, hsf⟩ := mem_strings_object.mp hs
    have hne : fs.isEmpty = false := isEmpty_eq_false_iff.mpr (ne_nil_of_mem hf)
    rw [jsonFormat, hne, if_neg (by decide)]
    refine hcontainer (mem_jsonFormatFields hf ?_)
    obtain rfl | hsf := hsf
    · exact .inl (delete_mem_jsonFormatString hdelete)
    · exact .inr (ih f hf hsf _)

end JsonVariant

theorem JsonSpace.noDelete {t : Bytes} (h : JsonSpace t) : 0x7f ∉ t := by
  intro hmem
  exact absurd (h _ hmem) (by decide)

theorem JsonHex.noDelete {x : Nat} {t : Bytes} (h : JsonHex x t) : 0x7f ∉ t := by
  obtain ⟨h₃, h₂, h₁, h₀⟩ := h
  have hall : ∀ {c : UInt8} {d : Nat}, unhexchar c = some d → 0x7f ≠ c := by
    rintro c d h rfl
    cases h
  simp only [mem_cons, not_mem_nil, or_false, not_or]
  exact ⟨hall h₃, hall h₂, hall h₁, hall h₀⟩

theorem JsonChar.noDelete {u : Nat} {t : Bytes} (h : JsonChar u t) : 0x7f ∉ t := by
  cases h with
  | unescaped hvalid hlow hquote hslash hdelete =>
    by_cases hu : u < 0x80
    · rw [utf8EncodeUnichar_ascii hu, mem_singleton]
      intro heq
      have hnat : u = 0x7f := by
        have heq' := congrArg UInt8.toNat heq
        rw [UInt8.toNat_ofNat', Nat.mod_eq_of_lt (by omega)] at heq'
        exact heq'.symm
      exact hdelete hnat
    · intro hmem
      exact absurd (utf8EncodeUnichar_high (by omega : 0x80 ≤ u) _ hmem) (by decide)
  | @letter c u h =>
    have hall : ∀ e ∈ jsonEscapes, 0x7f ∉ [backslash, e.1] := by decide
    exact hall (c, u) h
  | unicode h =>
    have hne := h.noDelete
    simp only [mem_cons, not_or]
    exact ⟨by decide, by decide, hne⟩
  | surrogates h hlead h' htrail =>
    have hne := h.noDelete
    have hne' := h'.noDelete
    simp only [mem_cons, mem_append, not_or]
    exact ⟨by decide, by decide, hne, by decide, by decide, hne'⟩

theorem JsonChars.noDelete {us : List Nat} {t : Bytes} (h : JsonChars us t) : 0x7f ∉ t := by
  induction h with
  | nil => exact not_mem_nil
  | cons h _ ih =>
    rw [mem_append, not_or]
    exact ⟨h.noDelete, ih⟩

theorem JsonString.noDelete {s t : Bytes} (h : JsonString s t) : 0x7f ∉ t := by
  obtain ⟨us, ⟨h⟩, -, -⟩ := h
  simp only [mem_cons, mem_append, not_mem_nil, or_false, not_or]
  exact ⟨by decide, h.noDelete, by decide⟩

theorem JsonDigits.noDelete {ds : Bytes} (h : JsonDigits ds) : 0x7f ∉ ds := by
  intro hmem
  exact absurd (h.2 _ hmem) (by decide)

theorem JsonUnsignedText.noDelete {n : JsonNumberParts} {t : Bytes} (h : JsonUnsignedText n t) : 0x7f ∉ t := by
  obtain ⟨hi, hf, he⟩ := h
  rw [mem_append, mem_append, not_or, not_or]
  refine ⟨⟨?_, ?_⟩, ?_⟩
  · cases hi with
    | zero => decide
    | digits h _ => exact h.noDelete
  · cases hf with
    | absent => exact not_mem_nil
    | point h =>
      rw [mem_cons, not_or]
      exact ⟨by decide, h.noDelete⟩
  · cases he with
    | absent => exact not_mem_nil
    | power he hsign h =>
      rw [mem_cons, mem_append, not_or, not_or]
      refine ⟨?_, ?_, h.noDelete⟩
      · obtain rfl | rfl := he <;> decide
      · cases hsign <;> decide

theorem JsonNumberText.noDelete {n : JsonNumberParts} {t : Bytes} (h : JsonNumberText n t) : 0x7f ∉ t := by
  cases h with
  | minus _ h =>
    rw [mem_cons, not_or]
    exact ⟨by decide, h.noDelete⟩
  | plain _ h => exact h.noDelete

/-- There is no delete character in a text of the grammar. -/
theorem JsonText.noDelete {R : Type} [Double R] {x : JsonPhrase R} {t : Bytes} (h : JsonText x t) : 0x7f ∉ t := by
  induction h with
  | null | booleanTrue | booleanFalse => decide
  | number h | string h => exact h.noDelete
  | emptyArray ha | emptyObject ha =>
    simp only [mem_cons, mem_append, not_mem_nil, or_false, not_or]
    exact ⟨by decide, ha.noDelete, by decide⟩
  | array _ ha ih | object _ ha ih =>
    simp only [mem_cons, mem_append, not_mem_nil, or_false, not_or]
    exact ⟨by decide, ⟨ih, ha.noDelete⟩, by decide⟩
  | element ha _ ih =>
    simp only [mem_append, not_or]
    exact ⟨ha.noDelete, ih⟩
  | elements _ hb ha _ ihs ih =>
    simp only [mem_cons, mem_append, not_or]
    exact ⟨⟨ihs, hb.noDelete⟩, by decide, ha.noDelete, ih⟩
  | member ha hk hb hc _ ih =>
    simp only [mem_cons, mem_append, not_or]
    exact ⟨⟨⟨ha.noDelete, hk.noDelete⟩, hb.noDelete⟩, by decide, hc.noDelete, ih⟩
  | members _ hd ha hk hb hc _ ihs ih =>
    simp only [mem_cons, mem_append, not_or]
    exact ⟨⟨ihs, hd.noDelete⟩, by decide, ⟨⟨ha.noDelete, hk.noDelete⟩, hb.noDelete⟩, by decide, hc.noDelete, ih⟩

/-! ## The round trip -/

/-- What is written from a variant that was made by the constructors (`hv`) is read again, as one that is equal
    and has the same order of elements and fields (`asRead`), if and only if no string has a delete character
    in it. -/
theorem jsonParse_jsonFormat_iff {R : Type} [Double R] {v : JsonVariant R} (hv : v.Built)
    (hmax : v.value.depth ≤ depthMax) (pretty : Bool) {indent : Bytes} (hindent : JsonSpace indent) (free : Nat) :
    (∃ w, jsonParseInternal false free (v.jsonFormat pretty indent) = some (.done w []) ∧
        (∀ m, ∃ m', v.equal w m = some (m', true)) ∧ w.value = v.value.asRead) ↔
      ∀ s ∈ v.strings, 0x7f ∉ s := by
  obtain ⟨r, hr, hholds⟩ := jsonParseInternal_sound (R := R) free (v.jsonFormat pretty indent)
  constructor
  · rintro ⟨w, hw, -, -⟩ s hs hdelete
    rw [hw] at hr
    obtain rfl := Option.some.inj hr
    obtain ⟨⟨a, t, b, ha, ht, hb, htext⟩, -⟩ := hholds
    have hmem := delete_mem_jsonFormat hs hdelete pretty indent
    rw [htext, mem_append, mem_append] at hmem
    obtain (hmem | hmem) | hmem := hmem
    · exact ha.noDelete hmem
    · exact ht.noDelete hmem
    · exact hb.noDelete hmem
  · intro hdelete
    have htext := jsonText_format hv hdelete pretty hindent
    have hdocument : JsonDocument v.value.asRead (v.jsonFormat pretty indent) :=
      ⟨[], _, [], by simp [JsonSpace], htext, by simp [JsonSpace], by simp⟩
    obtain ⟨w, rfl, hvalue⟩ := jsonParseInternal_complete hdocument (by rw [Json.depth_asRead]; exact hmax) hr
    refine ⟨w, hr, fun m => ?_, hvalue⟩
    obtain ⟨m', hequal, -⟩ := isEqual_of_asRead hv hholds.2.2.1 hvalue m
    exact ⟨m', hequal⟩

/-- `[-5, "a"]` -/
def numberAndString : JsonVariant Unit :=
  .array (.regular 0 0 0) ⟨0, 1, true, false⟩
    [.scalar (.regular 1 0 0) (.integer (-5)), .scalar (.regular 2 0 0) (.string [97])]

/-- `[-5,"a"]` is written, and read as the same. -/
theorem jsonParse_jsonFormat_iff_array :
    numberAndString.jsonFormat false [] = [91, 45, 53, 44, 34, 97, 34, 93] ∧
      ∃ w : JsonVariant Unit,
        jsonParseInternal false 9 (numberAndString.jsonFormat false []) = some (.done w []) ∧
          (∀ m, ∃ m', numberAndString.equal w m = some (m', true)) ∧
          w.value = .array [.scalar (.integer (-5)), .scalar (.string [97])] := by
  refine ⟨by decide, (jsonParse_jsonFormat_iff (.array _ _ ?_) ?_ false (by simp [JsonSpace]) 9).mpr ?_⟩
  · intro e he
    obtain rfl | he := mem_cons.mp he
    · exact .scalar (JsonPointer.fits_regular _ _ _ _) (by decide) (fun s hs => by cases hs)
    · obtain rfl := mem_singleton.mp he
      refine .scalar (JsonPointer.fits_regular _ _ _ _) (by decide) ?_
      rintro s ⟨⟩
      exact ⟨rfl, by decide⟩
  · decide
  · decide

/-- The string that consists of a delete character is accepted and written, and not read again. -/
theorem jsonParse_jsonFormat_delete :
    (JsonVariant.newString 0 [0x7f] : Result (JsonVariant Unit)) =
        .ok (.scalar (.regular 0 0 0) (.string [0x7f])) ∧
      jsonParseInternal (R := Unit) false 1
          ((JsonVariant.scalar (.regular 0 0 0) (.string [0x7f]) : JsonVariant Unit).jsonFormat false []) =
        some (.failed EINVAL) := by
  refine ⟨rfl, ?_⟩
  rw [jsonFormat]
  rfl

end Elogind
