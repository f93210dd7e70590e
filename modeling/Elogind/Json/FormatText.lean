/-
  Elogind.Json.FormatText

  What `json_format` writes is a text of the grammar, unless a string has a delete character in it.  It
  denotes the value that was written, where integers without a sign are unsigned.
-/

import Elogind.Json.Format
import Elogind.Json.ScanString
import Elogind.Json.NewVariant

namespace Elogind

open Byte Errno List

-- for what is checked for each byte
set_option maxRecDepth 2000

/-! ## Numbers -/

theorem jsonDigit_of_digitValue :
    ∀ b : UInt8, ∀ d ∈ digitValue b, d < 10 → jsonIsDigit b = true ∧ jsonDigit b = d := by decide

/-- The digits of a number stand for it. -/
theorem jsonDigits_toDigits {l : List Char} (h : ∀ c ∈ l, c.isDigit = true) (acc : Nat) :
    (∀ b ∈ l.map Char.toUInt8, jsonIsDigit b = true) ∧
      (l.map Char.toUInt8).foldl (fun n c => 10 * n + jsonDigit c) acc = Nat.ofDigitChars 10 l acc := by
  induction l generalizing acc with
  | nil => exact ⟨by simp, by simp [Nat.ofDigitChars_nil]⟩
  | cons c l ih =>
    obtain ⟨hval, hlt⟩ := digitValue_digit (h c mem_cons_self)
    obtain ⟨hdigit, hvalue⟩ := jsonDigit_of_digitValue _ _ hval hlt
    obtain ⟨hds, hfold⟩ := ih (fun d hd => h d (mem_cons_of_mem c hd)) (10 * acc + (c.toNat - 48))
    rw [map_cons]
    refine ⟨?_, ?_⟩
    · intro b hb
      obtain rfl | hb := mem_cons.mp hb
      · exact hdigit
      · exact hds b hb
    · rw [foldl_cons, hvalue, hfold, Nat.ofDigitChars_cons]
      rfl

theorem jsonNatural_decimal (n : Nat) :
    (∀ b ∈ decimal n, jsonIsDigit b = true) ∧ jsonNatural (decimal n) = n := by
  obtain ⟨hds, hfold⟩ := jsonDigits_toDigits (l := Nat.toDigits 10 n) (fun c hc => isDigit_of_mem_toDigits hc) 0
  refine ⟨hds, ?_⟩
  show (decimal n).foldl (fun n c => 10 * n + jsonDigit c) 0 = n
  rw [decimal, hfold, Nat.ofDigitChars_toDigits (by decide) (by decide)]

/-- The digits that are kept of a number. -/
def keptDigits (n : Nat) : Bytes := if n = 0 then [] else decimal n

theorem jsonIntegerText_decimal (n : Nat) :
    JsonIntegerText (keptDigits n) (decimal n) ∧ jsonNatural (keptDigits n) = n := by
  obtain ⟨hds, hvalue⟩ := jsonNatural_decimal n
  unfold keptDigits
  split
  · rename_i hzero
    subst hzero
    exact ⟨.zero, rfl⟩
  · rename_i hn
    obtain ⟨c, cs, hcs, -, hne⟩ := decimal_head (Nat.pos_of_ne_zero hn)
    refine ⟨.digits ⟨?_, hds⟩ ?_, hvalue⟩
    · rw [hcs]
      exact cons_ne_nil c cs
    · rw [hcs]
      simpa using hne

/-- The parts of an integer. -/
def integerParts (negative : Bool) (n : Nat) : JsonNumberParts := ⟨negative, keptDigits n, none, none⟩

theorem jsonUnsignedText_decimal (negative : Bool) (n : Nat) :
    JsonUnsignedText (integerParts negative n) (decimal n) := by
  have htext : JsonUnsignedText (integerParts negative n) (decimal n ++ [] ++ []) :=
    .parts (jsonIntegerText_decimal n).1 .absent .absent
  rw [append_nil, append_nil] at htext
  exact htext

section

variable {R : Type} [Double R]

/-- A number without a sign. -/
theorem jsonText_decimal {n : Nat} (hn : n < 2 ^ 64) :
    JsonText (R := R) (.value (.scalar (.unsigned (UInt64.ofNat n)))) (decimal n) := by
  have hvalue := (jsonIntegerText_decimal n).2
  have hint : (integerParts false n).IsInteger := by
    refine ⟨rfl, rfl, ?_⟩
    show jsonNatural (keptDigits n) < 2 ^ 64
    omega
  have hscalar : (integerParts false n).scalar = (.unsigned (UInt64.ofNat n) : JsonScalar R) := by
    unfold JsonNumberParts.scalar
    rw [if_pos hint]
    show JsonScalar.unsigned (UInt64.ofNat (jsonNatural (keptDigits n))) = _
    rw [hvalue]
  rw [← hscalar]
  exact .number (.plain rfl (jsonUnsignedText_decimal false n))

/-- A number with a sign. -/
theorem jsonText_minus {n : Nat} (hn : n ≤ 2 ^ 63) :
    JsonText (R := R) (.value (.scalar (.integer (Int64.ofInt (-n))))) ('-'.toUInt8 :: decimal n) := by
  have hvalue := (jsonIntegerText_decimal n).2
  have hint : (integerParts true n).IsInteger := by
    refine ⟨rfl, rfl, ?_⟩
    show jsonNatural (keptDigits n) ≤ 2 ^ 63
    omega
  have hscalar : (integerParts true n).scalar = (.integer (Int64.ofInt (-n)) : JsonScalar R) := by
    unfold JsonNumberParts.scalar
    rw [if_pos hint]
    show JsonScalar.integer (Int64.ofInt (-(jsonNatural (keptDigits n) : Int))) = _
    rw [hvalue]
  rw [← hscalar]
  exact .number (.minus rfl (jsonUnsignedText_decimal true n))

end

/-! ## Strings -/

theorem jsonFormatChar_high : ∀ c : UInt8, 0x80 ≤ c → jsonFormatChar c = [c] := by decide

theorem unhexchar_hexchar_mod : ∀ c : UInt8, unhexchar (hexchar c) = some (c.toNat % 16) := by decide

/-- A character of one byte as it is written. -/
theorem jsonChar_ascii {c : UInt8} (hc : c < 0x80) (hzero : c ≠ 0) (hdelete : c ≠ 0x7f) :
    JsonChar c.toNat (jsonFormatChar c) := by
  have hlt : c.toNat < 0x80 := hc
  unfold jsonFormatChar
  split
  · subst c
    exact .letter (by decide)
  rename_i hquote
  split
  · subst c
    exact .letter (by decide)
  rename_i hslash
  split
  · subst c
    exact .letter (by decide)
  split
  · subst c
    exact .letter (by decide)
  split
  · subst c
    exact .letter (by decide)
  split
  · subst c
    exact .letter (by decide)
  split
  · subst c
    exact .letter (by decide)
  have hne : ∀ n : Nat, n < 256 → c ≠ UInt8.ofNat n → c.toNat ≠ n := by
    intro n hn hcn heq
    refine hcn (UInt8.toNat_inj.mp ?_)
    rw [heq, UInt8.toNat_ofNat']
    exact (Nat.mod_eq_of_lt hn).symm
  split
  · rename_i hlow
    have hbits : ∀ c : UInt8, c < space → (c >>> 4).toNat % 16 * 16 + c.toNat % 16 = c.toNat := by decide
    have hhex : JsonHex (0x1000 * 0 + 0x100 * 0 + 0x10 * ((c >>> 4).toNat % 16) + c.toNat % 16)
        [48, 48, hexchar (c >>> 4), hexchar c] :=
      .digits rfl rfl (unhexchar_hexchar_mod (c >>> 4)) (unhexchar_hexchar_mod c)
    have hvalue : 0x1000 * 0 + 0x100 * 0 + 0x10 * ((c >>> 4).toNat % 16) + c.toNat % 16 = c.toNat := by
      have hall := hbits c hlow
      omega
    rw [hvalue] at hhex
    exact .unicode hhex (hne 0 (by decide) hzero) (by omega)
  · rename_i hlow
    have hencode := utf8EncodeUnichar_ascii hlt
    rw [UInt8.ofNat_toNat] at hencode
    rw [← hencode]
    refine .unescaped (unicharIsValid_ascii _ hlt) ?_ (hne 0x22 (by decide) hquote) (hne 0x5c (by decide) hslash)
      (hne 0x7f (by decide) hdelete)
    have hspace : ¬ c.toNat < 0x20 := hlow
    omega

/-- A character as it is written. -/
theorem jsonChar_format {u : Nat} (hu : unicharIsValid u = true)
    (hbytes : ∀ c ∈ utf8EncodeUnichar u, c ≠ 0 ∧ c ≠ 0x7f) :
    JsonChar u ((utf8EncodeUnichar u).flatMap jsonFormatChar) := by
  by_cases hlow : u < 0x80
  · rw [utf8EncodeUnichar_ascii hlow] at hbytes ⊢
    obtain ⟨hzero, hdelete⟩ := hbytes _ mem_cons_self
    have hnat : (UInt8.ofNat u).toNat = u := by
      exact Nat.mod_eq_of_lt (by omega)
    have hchar := jsonChar_ascii (c := UInt8.ofNat u) (by rw [UInt8.lt_iff_toNat_lt, hnat]; exact hlow) hzero hdelete
    rw [hnat] at hchar
    rw [flatMap_singleton]
    exact hchar
  · have hplain : (utf8EncodeUnichar u).flatMap jsonFormatChar = utf8EncodeUnichar u := by
      have hhigh := utf8EncodeUnichar_high (by omega : 0x80 ≤ u)
      generalize utf8EncodeUnichar u = t at hhigh
      induction t with
      | nil => rfl
      | cons c t ih =>
        rw [flatMap_cons, jsonFormatChar_high c (hhigh c mem_cons_self),
          ih fun d hd => hhigh d (mem_cons_of_mem c hd)]
        rfl
    rw [hplain]
    exact .unescaped hu (by omega) (by omega) (by omega) (by omega)

theorem jsonChars_format {us : List Nat} (hus : ∀ u ∈ us, unicharIsValid u = true)
    (hbytes : ∀ c ∈ us.flatMap utf8EncodeUnichar, c ≠ 0 ∧ c ≠ 0x7f) :
    JsonChars us ((us.flatMap utf8EncodeUnichar).flatMap jsonFormatChar) := by
  induction us with
  | nil => exact .nil
  | cons u us ih =>
    rw [flatMap_cons] at hbytes ⊢
    rw [flatMap_append]
    exact .cons
      (jsonChar_format (hus u mem_cons_self) fun c hc => hbytes c (mem_append_left _ hc))
      (ih (fun w hw => hus w (mem_cons_of_mem u hw)) fun c hc => hbytes c (mem_append_right _ hc))

/-- A string as it is written. -/
theorem jsonString_format {s : Bytes} (hs : utf8IsValid s = true) (hzero : 0 ∉ s) (hdelete : 0x7f ∉ s) :
    JsonString s (jsonFormatString s) := by
  obtain ⟨us, hus, rfl⟩ := exists_of_utf8IsValid hs
  refine ⟨us, ?_, hus, rfl⟩
  refine JsonQuoted.quotes (jsonChars_format hus fun c hc => ⟨?_, ?_⟩)
  · rintro rfl
    exact hzero hc
  · rintro rfl
    exact hdelete hc

/-! ## Values -/

/-- A value as it is read again: an integer has a sign only if it is negative. -/
def JsonScalar.asRead {R : Type} : JsonScalar R → JsonScalar R
  | integer i => if i.toInt < 0 then .integer i else .unsigned (UInt64.ofNat i.toInt.toNat)
  | x => x

namespace Json

variable {R : Type}

mutual

def asRead : Json R → Json R
  | scalar x => scalar x.asRead
  | array es => array (asReadElements es)
  | object fs => object (asReadFields fs)

def asReadElements : List (Json R) → List (Json R)
  | [] => []
  | e :: es => e.asRead :: asReadElements es

def asReadFields : List (Bytes × Json R) → List (Bytes × Json R)
  | [] => []
  | (k, v) :: fs => (k, v.asRead) :: asReadFields fs

end

theorem asReadElements_eq_map (es : List (Json R)) : asReadElements es = es.map asRead := by
  induction es with
  | nil => rfl
  | cons e es ih => rw [asReadElements, ih, map_cons]

theorem asReadFields_eq_map (fs : List (Bytes × Json R)) : asReadFields fs = fs.map fun f => (f.1, f.2.asRead) := by
  induction fs with
  | nil => rfl
  | cons f fs ih => rw [asReadFields, ih, map_cons]

theorem asRead_scalar (x : JsonScalar R) : (scalar x).asRead = scalar x.asRead := by rw [asRead]

theorem asRead_array (es : List (Json R)) : (array es).asRead = array (es.map asRead) := by
  rw [asRead, asReadElements_eq_map]

theorem asRead_object (fs : List (Bytes × Json R)) :
    (object fs).asRead = object (fs.map fun f => (f.1, f.2.asRead)) := by
  rw [asRead, asReadFields_eq_map]

/-- The depth is the same. -/
theorem depth_asRead (v : Json R) : v.asRead.depth = v.depth := by
  induction v using Json.induct with
  | scalar x => rw [asRead_scalar, depth, depth]
  | array es ih =>
    rw [asRead_array, depth, depth]
    induction es with
    | nil => rfl
    | cons e es ihs =>
      rw [map_cons, depthElements, depthElements, ih e mem_cons_self,
        ihs fun d hd => ih d (mem_cons_of_mem e hd)]
  | object fs ih =>
    rw [asRead_object, depth, depth]
    induction fs with
    | nil => rfl
    | cons f fs ihs =>
      rw [map_cons, depthFields, depthFields, ih f mem_cons_self,
        ihs fun d hd => ih d (mem_cons_of_mem f hd)]

end Json

namespace JsonVariant

variable {R : Type}

/-- A string that `sd_json_variant_new_string` accepts. -/
def IsString (s : Bytes) : Prop := utf8IsValid s = true ∧ 0 ∉ s

/-- A variant that is made of null, booleans, integers, strings, arrays and objects. -/
inductive Built [Double R] : JsonVariant R → Prop where
  | scalar {p : JsonPointer} {x : JsonScalar R} (h : p.Fits x) (hreal : x.type ≠ .real)
      (hstring : ∀ s, x = .string s → IsString s) : Built (scalar p x)
  | array (p : JsonPointer) (c : JsonContainer) {es : List (JsonVariant R)} (h : ∀ e ∈ es, Built e) :
      Built (array p c es)
  | object (p : JsonPointer) (c : JsonContainer) {fs : List ((JsonPointer × Bytes) × JsonVariant R)}
      (h : ∀ f ∈ fs, Built f.2) (hkey : ∀ f ∈ fs, IsString f.1.2) : Built (object p c fs)

mutual

/-- The strings and keys in a variant. -/
def strings : JsonVariant R → List Bytes
  | scalar _ (.string s) => [s]
  | scalar _ _ => []
  | array _ _ es => stringsOfElements es
  | object _ _ fs => stringsOfFields fs

def stringsOfElements : List (JsonVariant R) → List Bytes
  | [] => []
  | e :: es => e.strings ++ stringsOfElements es

def stringsOfFields : List ((JsonPointer × Bytes) × JsonVariant R) → List Bytes
  | [] => []
  | (k, v) :: fs => k.2 :: (v.strings ++ stringsOfFields fs)

end

theorem mem_strings_array {p : JsonPointer} {c : JsonContainer} {es : List (JsonVariant R)} {s : Bytes} :
    s ∈ (array p c es).strings ↔ ∃ e ∈ es, s ∈ e.strings := by
  rw [strings]
  induction es with
  | nil => simp [stringsOfElements]
  | cons e es ih => simp [stringsOfElements, ih]

theorem mem_strings_object {p : JsonPointer} {c : JsonContainer} {fs : List (JsonField R)}
    {s : Bytes} : s ∈ (object p c fs).strings ↔ ∃ f ∈ fs, s = f.1.2 ∨ s ∈ f.2.strings := by
  rw [strings]
  induction fs with
  | nil => simp [stringsOfFields]
  | cons f fs ih => simp [stringsOfFields, ih, or_assoc]

section

variable [Double R]

theorem formatBefore_next (pretty : Bool) {indent : Bytes} (hindent : JsonSpace indent) :
    ∃ a, JsonSpace a ∧ formatBefore pretty false indent = ','.toUInt8 :: a := by
  cases pretty with
  | true =>
    refine ⟨newline :: indent, ?_, rfl⟩
    intro c hc
    obtain rfl | hc := mem_cons.mp hc
    · rfl
    · exact hindent c hc
  | false => exact ⟨[], by simp [JsonSpace], rfl⟩

theorem jsonSpace_append {a b : Bytes} (ha : JsonSpace a) (hb : JsonSpace b) : JsonSpace (a ++ b) :=
  forall_mem_append.mpr ⟨ha, hb⟩

theorem formatBefore_first (pretty : Bool) {indent : Bytes} (hindent : JsonSpace indent) :
    JsonSpace (formatBefore pretty true indent) := by
  cases pretty with
  | true => exact hindent
  | false =>
    intro c hc
    exact absurd hc not_mem_nil

theorem jsonSpace_indentMembers (pretty : Bool) {indent : Bytes} (hindent : JsonSpace indent) :
    JsonSpace (indentMembers pretty indent) := by
  unfold indentMembers
  split
  · intro c hc
    obtain hc | hc := mem_append.mp hc
    · exact hindent c hc
    · obtain rfl := mem_singleton.mp hc
      rfl
  · exact hindent

/-- The elements after the first ones. -/
theorem jsonText_formatElements {pretty : Bool} {indent : Bytes} (hindent : JsonSpace indent)
    {es : List (JsonVariant R)}
    (hes : ∀ e ∈ es, JsonText (.value e.value.asRead) (e.jsonFormat pretty indent)) {ds : List (Json R)} {t : Bytes}
    (h : JsonText (.elements ds) t) :
    JsonText (.elements (ds ++ es.map fun e => e.value.asRead)) (t ++ jsonFormatElements pretty false indent es) := by
  induction es generalizing ds t with
  | nil =>
    rw [jsonFormatElements, map_nil, append_nil, append_nil]
    exact h
  | cons e es ih =>
    obtain ⟨a, ha, hbefore⟩ := formatBefore_next pretty hindent
    have helement := JsonText.elements (b := []) h (by simp [JsonSpace]) ha (hes e mem_cons_self)
    have hrest := ih (fun d hd => hes d (mem_cons_of_mem e hd)) helement
    rw [jsonFormatElements, hbefore]
    simpa only [map_cons, append_assoc, cons_append, nil_append, append_nil] using hrest

/-- The colon with its spaces. -/
theorem formatColon_eq (pretty : Bool) : ∃ b c, JsonSpace b ∧ JsonSpace c ∧ formatColon pretty = b ++ ':'.toUInt8 :: c := by
  have hspace : JsonSpace [space] := by
    intro c hc
    obtain rfl := mem_singleton.mp hc
    rfl
  cases pretty with
  | true => exact ⟨[space], [space], hspace, hspace, rfl⟩
  | false => exact ⟨[], [], by simp [JsonSpace], by simp [JsonSpace], rfl⟩

/-- The fields after the first ones. -/
theorem jsonText_formatFields {pretty : Bool} {indent : Bytes} (hindent : JsonSpace indent)
    {fs : List (JsonField R)}
    (hfs : ∀ f ∈ fs, JsonText (.value f.2.value.asRead) (f.2.jsonFormat pretty indent))
    (hkeys : ∀ f ∈ fs, JsonString f.1.2 (jsonFormatString f.1.2)) {ds : List (Bytes × Json R)} {t : Bytes}
    (h : JsonText (.members ds) t) :
    JsonText (.members (ds ++ fs.map fun f => (f.1.2, f.2.value.asRead)))
      (t ++ jsonFormatFields pretty false indent fs) := by
  induction fs generalizing ds t with
  | nil =>
    rw [jsonFormatFields, map_nil, append_nil, append_nil]
    exact h
  | cons f fs ih =>
    obtain ⟨a, ha, hbefore⟩ := formatBefore_next pretty hindent
    obtain ⟨b, c, hb, hc, hcolon⟩ := formatColon_eq pretty
    have hfield := JsonText.members (d := []) h (by simp [JsonSpace]) ha (hkeys f mem_cons_self) hb hc
      (hfs f mem_cons_self)
    have hrest := ih (fun d hd => hfs d (mem_cons_of_mem f hd)) (fun d hd => hkeys d (mem_cons_of_mem f hd))
      hfield
    obtain ⟨k, v⟩ := f
    rw [jsonFormatFields, hbefore, hcolon]
    simpa only [map_cons, append_assoc, cons_append, nil_append, append_nil] using hrest

/-- The white space in a container before its members and after them. -/
theorem formatContainer_eq (pretty : Bool) {indent : Bytes} (hindent : JsonSpace indent) (left right : UInt8)
    (members : Bytes) : ∃ a b, JsonSpace a ∧ JsonSpace b ∧
      formatContainer pretty indent left right members = left :: (a ++ members ++ b ++ [right]) := by
  have hline : ∀ {t : Bytes}, JsonSpace t → JsonSpace (newline :: t) := by
    intro t ht c hc
    obtain rfl | hc := mem_cons.mp hc
    · rfl
    · exact ht c hc
  have hnil : JsonSpace [] := by simp [JsonSpace]
  cases pretty with
  | true => exact ⟨[newline], newline :: indent, hline hnil, hline hindent, rfl⟩
  | false => exact ⟨[], [], hnil, hnil, rfl⟩

/-- A constant pointer to an integer is one to zero. -/
theorem integer_of_fits {p : JsonPointer} {i : Int64} (h : p.Fits (.integer i : JsonScalar R)) :
    (scalar p (.integer i) : JsonVariant R).integer = i := by
  cases p with
  | magic =>
    obtain hmagic | hreal := h.magic rfl
    · have hzero : i = 0 := of_decide_eq_true hmagic
      rw [hzero]
      rfl
    · cases hreal
  | constString => rfl
  | regular a line column => rfl

theorem unsigned_of_fits {p : JsonPointer} {u : UInt64} (h : p.Fits (.unsigned u : JsonScalar R)) :
    (scalar p (.unsigned u) : JsonVariant R).unsigned = u := by
  cases p with
  | magic =>
    obtain hmagic | hreal := h.magic rfl
    · have hzero : u = 0 := of_decide_eq_true hmagic
      rw [hzero]
      rfl
    · cases hreal
  | constString => rfl
  | regular a line column => rfl

/-- An integer as it is written. -/
theorem jsonText_formatInteger (i : Int64) :
    JsonText (R := R) (.value (.scalar (JsonScalar.integer i).asRead)) (formatInteger i.toInt) := by
  have hmin := Int64.le_toInt i
  have hmax := Int64.toInt_lt i
  unfold formatInteger JsonScalar.asRead
  simp only
  split
  · rename_i hneg
    have habs : -(i.toInt.natAbs : Int) = i.toInt := by omega
    have htext := jsonText_minus (R := R) (n := i.toInt.natAbs) (by omega)
    rw [habs, Int64.ofInt_toInt] at htext
    exact htext
  · rename_i hpos
    have habs : i.toInt.natAbs = i.toInt.toNat := by omega
    rw [habs]
    exact jsonText_decimal (by omega)

/-- What is written is a text of the grammar. -/
theorem jsonText_format {v : JsonVariant R} (hv : v.Built) (hdelete : ∀ s ∈ v.strings, 0x7f ∉ s) (pretty : Bool)
    {indent : Bytes} (hindent : JsonSpace indent) :
    JsonText (.value v.value.asRead) (v.jsonFormat pretty indent) := by
  induction hv generalizing indent with
  | @scalar p x h hreal hstring =>
    rw [value_scalar, Json.asRead_scalar, jsonFormat]
    cases x with
    | null => exact .null
    | boolean b =>
      cases b with
      | false => exact .booleanFalse
      | true => exact .booleanTrue
    | integer i =>
      rw [jsonFormatScalar, integer_of_fits h]
      exact jsonText_formatInteger i
    | unsigned u =>
      rw [jsonFormatScalar, unsigned_of_fits h]
      have htext := jsonText_decimal (R := R) (UInt64.toNat_lt u)
      rw [UInt64.ofNat_toNat] at htext
      exact htext
    | real d => exact absurd rfl hreal
    | string s =>
      obtain ⟨hvalid, hzero⟩ := hstring s rfl
      exact .string (jsonString_format hvalid hzero (hdelete s (by rw [strings]; exact mem_singleton.mpr rfl)))
  | @array p c es h ih =>
    have hes : ∀ e ∈ es, ∀ s ∈ e.strings, 0x7f ∉ s := fun e he s hs => hdelete s (mem_strings_array.mpr ⟨e, he, hs⟩)
    rw [value_array, Json.asRead_array, map_map, jsonFormat]
    cases es with
    | nil => exact .emptyArray (a := []) (by simp [JsonSpace])
    | cons e es =>
      have hmembers := jsonSpace_indentMembers pretty hindent
      obtain ⟨a, b, ha, hb, hcontainer⟩ := formatContainer_eq pretty hindent '['.toUInt8 ']'.toUInt8
        (jsonFormatElements pretty true (indentMembers pretty indent) (e :: es))
      have hfirst := JsonText.element (jsonSpace_append ha (formatBefore_first pretty hmembers))
        (ih e mem_cons_self (hes e mem_cons_self) hmembers)
      have hrest := jsonText_formatElements hmembers (fun d hd =>
        ih d (mem_cons_of_mem e hd) (hes d (mem_cons_of_mem e hd)) hmembers) hfirst
      rw [isEmpty_cons, if_neg (by decide), hcontainer, jsonFormatElements]
      refine .array ?_ hb
      simpa only [map_cons, Function.comp_def, append_assoc, cons_append, nil_append] using hrest
  | @object p c fs h hkey ih =>
    have hfs : ∀ f ∈ fs, ∀ s ∈ f.2.strings, 0x7f ∉ s :=
      fun f hf s hs => hdelete s (mem_strings_object.mpr ⟨f, hf, .inr hs⟩)
    have hkeys : ∀ f ∈ fs, JsonString f.1.2 (jsonFormatString f.1.2) := fun f hf =>
      jsonString_format (hkey f hf).1 (hkey f hf).2 (hdelete _ (mem_strings_object.mpr ⟨f, hf, .inl rfl⟩))
    rw [value_object, Json.asRead_object, map_map, jsonFormat]
    cases fs with
    | nil => exact .emptyObject (a := []) (by simp [JsonSpace])
    | cons f fs =>
      have hmembers := jsonSpace_indentMembers pretty hindent
      obtain ⟨a, b, ha, hb, hcontainer⟩ := formatContainer_eq pretty hindent '{'.toUInt8 '}'.toUInt8
        (jsonFormatFields pretty true (indentMembers pretty indent) (f :: fs))
      obtain ⟨b', c', hb', hc', hcolon⟩ := formatColon_eq pretty
      have hfirst := JsonText.member (jsonSpace_append ha (formatBefore_first pretty hmembers))
        (hkeys f mem_cons_self) hb' hc' (ih f mem_cons_self (hfs f mem_cons_self) hmembers)
      have hrest := jsonText_formatFields hmembers (fun d hd =>
        ih d (mem_cons_of_mem f hd) (hfs d (mem_cons_of_mem f hd)) hmembers)
        (fun d hd => hkeys d (mem_cons_of_mem f hd)) hfirst
      obtain ⟨k, v⟩ := f
      rw [isEmpty_cons, if_neg (by decide), hcontainer, jsonFormatFields, hcolon]
      refine .object ?_ hb
      simpa only [map_cons, Function.comp_def, append_assoc, cons_append, nil_append] using hrest

end

end JsonVariant

end Elogind
