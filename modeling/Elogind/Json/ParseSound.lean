/-
  Elogind.Json.ParseSound

  What `json_parse_internal` accepts is a text of the grammar.  At the start of each round, the text before
  the tokenizer is what the frames of the stack have read, each up to what it expects next.
-/

import Elogind.Json.ParseSteps

namespace Elogind

open Byte Errno List JsonVariant

section

variable {R : Type} [Double R]

/-! ## Frames -/

/-- The members of an object as values. -/
def fieldsOf (fs : List ((JsonPointer × Bytes) × JsonVariant R)) : List (Bytes × Json R) :=
  fs.map fun f => (f.1.2, f.2.value)

/-- What a frame has read when it expects this: its elements, and the text since its bracket. -/
inductive JsonSlot : JsonExpect → List (JsonVariant R) → Bytes → Prop where
  | toplevel : JsonSlot .toplevel [] []
  | document {v : JsonVariant R} {a t : Bytes} (ha : JsonSpace a) (h : JsonText (.value v.value) t) :
      JsonSlot .end [v] (a ++ t)
  | arrayFirstElement : JsonSlot .arrayFirstElement [] []
  | arrayComma {es : List (JsonVariant R)} {t : Bytes} (h : JsonText (.elements (es.map JsonVariant.value)) t) :
      JsonSlot .arrayComma es t
  | arrayNextElement {es : List (JsonVariant R)} {t b : Bytes}
      (h : JsonText (.elements (es.map JsonVariant.value)) t) (hb : JsonSpace b) :
      JsonSlot .arrayNextElement es (t ++ b ++ [','.toUInt8])
  | objectFirstKey : JsonSlot .objectFirstKey [] []
  | objectComma {fs : List ((JsonPointer × Bytes) × JsonVariant R)} {t : Bytes} (h : JsonText (.members (fieldsOf fs)) t) :
      JsonSlot .objectComma (JsonVariant.flatten fs) t
  | objectNextKey {fs : List ((JsonPointer × Bytes) × JsonVariant R)} {t b : Bytes}
      (h : JsonText (.members (fieldsOf fs)) t) (hb : JsonSpace b) :
      JsonSlot .objectNextKey (JsonVariant.flatten fs) (t ++ b ++ [','.toUInt8])
  | objectColon {x : JsonExpect} {es : List (JsonVariant R)} {t a k tk : Bytes} {p : JsonPointer}
      (hx : x = .objectFirstKey ∨ x = .objectNextKey) (h : JsonSlot x es t) (ha : JsonSpace a) (hk : JsonString k tk) :
      JsonSlot .objectColon (es ++ [.scalar p (.string k)]) (t ++ a ++ tk)
  | objectValue {es : List (JsonVariant R)} {t b : Bytes} (h : JsonSlot .objectColon es t) (hb : JsonSpace b) :
      JsonSlot .objectValue es (t ++ b ++ [':'.toUInt8])

variable {x y : JsonExpect} {es : List (JsonVariant R)} {t a : Bytes}

/-- A value is read. -/
theorem JsonSlot.value {tv : Bytes} {v : JsonVariant R} (h : JsonSlot x es t)
    (hy : x.afterValue = some y) (ha : JsonSpace a) (hv : JsonText (.value v.value) tv) :
    JsonSlot y (es ++ [v]) (t ++ a ++ tv) := by
  cases h with
  | toplevel =>
    obtain rfl := Option.some.inj hy
    exact .document ha hv
  | arrayFirstElement =>
    obtain rfl := Option.some.inj hy
    exact .arrayComma (.element ha hv)
  | arrayNextElement h hb =>
    obtain rfl := Option.some.inj hy
    have helements := JsonText.elements h hb ha hv
    refine .arrayComma ?_
    rw [map_append]
    simpa only [map_cons, map_nil, append_assoc, cons_append, nil_append] using helements
  | objectValue h hb =>
    obtain rfl := Option.some.inj hy
    cases h with
    | @objectColon x es t a' k tk p hx h ha' hk =>
      cases h with
      | objectFirstKey =>
        have hmember := JsonText.member ha' hk hb ha hv
        have hflat : [] ++ [scalar p (.string k)] ++ [v] = flatten [((p, k), v)] := rfl
        rw [hflat]
        refine .objectComma ?_
        simpa only [fieldsOf, map_cons, map_nil, append_assoc, cons_append, nil_append] using
          hmember
      | @objectNextKey fs t d h hd =>
        have hmembers := JsonText.members h hd ha' hk hb ha hv
        have hflat : flatten fs ++ [scalar p (.string k)] ++ [v] =
            flatten (fs ++ [((p, k), v)]) := by
          rw [JsonVariant.flatten_append, append_assoc]
          rfl
        rw [hflat]
        refine .objectComma ?_
        rw [fieldsOf, map_append]
        simpa only [fieldsOf, map_cons, map_nil, append_assoc, cons_append, nil_append] using
          hmembers
      | _ => obtain hx | hx := hx <;> cases hx
  | _ => cases hy

/-- A comma is read. -/
theorem JsonSlot.comma {b : Bytes} (h : JsonSlot x es t) (hy : x.afterComma = some y) (hb : JsonSpace b) :
    JsonSlot y es (t ++ b ++ [','.toUInt8]) := by
  cases h with
  | arrayComma h =>
    obtain rfl := Option.some.inj hy
    exact .arrayNextElement h hb
  | objectComma h =>
    obtain rfl := Option.some.inj hy
    exact .objectNextKey h hb
  | _ => cases hy

/-- An array ends. -/
theorem JsonSlot.array (h : JsonSlot x es t) (hx : x = .arrayFirstElement ∨ x = .arrayComma)
    (ha : JsonSpace a) :
    JsonText (.value (.array (es.map JsonVariant.value))) ('['.toUInt8 :: (t ++ a ++ [']'.toUInt8])) := by
  cases h with
  | arrayFirstElement => exact .emptyArray ha
  | arrayComma h => exact .array h ha
  | _ => obtain hx | hx := hx <;> cases hx

/-- An object ends. -/
theorem JsonSlot.object (h : JsonSlot x es t) (hx : x = .objectFirstKey ∨ x = .objectComma)
    (ha : JsonSpace a) :
    ∃ fs, es = JsonVariant.flatten fs ∧
      JsonText (.value (.object (fieldsOf fs))) ('{'.toUInt8 :: (t ++ a ++ ['}'.toUInt8])) := by
  cases h with
  | objectFirstKey => exact ⟨[], rfl, .emptyObject ha⟩
  | @objectComma fs t h => exact ⟨fs, rfl, .object h ha⟩
  | _ => obtain hx | hx := hx <;> cases hx

/-! ## The stack -/

/-- The bracket of the container that a frame is for. -/
def JsonExpect.bracket : JsonExpect → Option UInt8
  | toplevel | .end => none
  | objectFirstKey | objectNextKey | objectColon | objectValue | objectComma => some '{'.toUInt8
  | arrayFirstElement | arrayNextElement | arrayComma => some '['.toUInt8

theorem JsonExpect.bracket_afterValue (h : x.afterValue = some y) : y.bracket = x.bracket := by
  cases x <;> cases h <;> rfl

theorem JsonExpect.bracket_afterComma (h : x.afterComma = some y) : y.bracket = x.bracket := by
  cases x <;> cases h <;> rfl

/-- What the frames below one with this bracket, which is in this line, have read; each already expects what
    comes after the container above it. -/
inductive JsonOpened : Option UInt8 → Nat → List (JsonStack R) → Bytes → Prop where
  | toplevel (line : Nat) : JsonOpened none line [] []
  | inside {c : UInt8} {line : Nat} {x : JsonExpect} {f : JsonStack R} {fs : List (JsonStack R)} {before t a : Bytes}
      (hline : 0 < line) (hx : x.afterValue = some f.expect) (h : JsonSlot x f.elements t) (ha : JsonSpace a)
      (hs : JsonOpened x.bracket f.lineBefore fs before) : JsonOpened (some c) line (f :: fs) (before ++ t ++ a ++ [c])

/-- What is true of the elements of all frames. -/
def JsonStack.FromText (free : Nat) (f : JsonStack R) : Prop :=
  ∀ e ∈ f.elements, e.FromText free ∧ e.value.depth ≤ depthMax

theorem JsonStack.FromText.mono {free free' : Nat} {f : JsonStack R} (h : f.FromText free) (hfree : free ≤ free') :
    f.FromText free' := fun e he => ⟨(h e he).1.mono hfree, (h e he).2⟩

/-- What is true at the start of each round. -/
structure JsonParser.Holds (input : Bytes) (s : JsonParser R) : Prop where
  text : ∃ before t, JsonOpened s.current.expect.bracket s.current.lineBefore s.outer before ∧
    JsonSlot s.current.expect s.current.elements t ∧ input = before ++ t ++ s.tokenizer.p
  current : s.current.FromText s.free
  outer : ∀ f ∈ s.outer, f.FromText s.free
  lines : s.tokenizer.Counts

/-- What is true after a round. -/
def JsonRound.Holds (input : Bytes) (n : Nat) : JsonRound R → Prop
  | next s => s.Holds input ∧ s.tokenizer.p.length < n
  | done v p => JsonDocument v.value input ∧ v.value.depth ≤ depthMax ∧ v.Markable ∧ p = []
  | failed _ => True
  | assertFailed => False

namespace JsonParser

variable {input before t a tt : Bytes} {s : JsonParser R} {line n : Nat}

/-- A variant becomes an element of the frame at the top. -/
theorem Holds.add {y : JsonExpect} {v : JsonVariant R} {column memory : Nat}
    (hs : JsonOpened y.bracket s.current.lineBefore s.outer before)
    (h : JsonSlot y (s.current.elements ++ [v.setSource s.free line column]) t)
    (hinput : input = before ++ t ++ s.tokenizer.p) (hcurrent : s.current.FromText s.free)
    (houter : ∀ f ∈ s.outer, f.FromText s.free) (hlines : 0 < s.tokenizer.line)
    (hfrom : (v.setSource s.free line column).FromText (s.free + memory))
    (hmax : v.value.depth ≤ depthMax) (hn : s.tokenizer.p.length < n) :
    ({ s with current := { s.current with expect := y } }.add v line column memory).Holds input n := by
  refine ⟨⟨⟨before, t, hs, h, hinput⟩, ?_, ?_, fun _ => hlines⟩, hn⟩
  · intro e he
    obtain he | he := mem_append.mp he
    · exact (hcurrent.mono (Nat.le_add_right _ _)) e he
    · obtain rfl := mem_singleton.mp he
      exact ⟨hfrom, by rw [value_setSource]; exact hmax⟩
  · intro f hf
    exact (houter f hf).mono (Nat.le_add_right _ _)

/-- What is known where a token was found: the frames have read what is before it. -/
structure AtToken (input : Bytes) (s : JsonParser R) (before t a tt : Bytes) (line : Nat) : Prop where
  opened : JsonOpened s.current.expect.bracket s.current.lineBefore s.outer before
  slot : JsonSlot s.current.expect s.current.elements t
  space : JsonSpace a
  input : input = before ++ t ++ a ++ tt ++ s.tokenizer.p
  current : s.current.FromText s.free
  outer : ∀ f ∈ s.outer, f.FromText s.free
  lines : 0 < s.tokenizer.line
  line : 0 < line

/-- A token without members. -/
theorem AtToken.scalar (h : s.AtToken input before t a tt line) {token : JsonToken R} {x : JsonScalar R}
    (hx : JsonScalarToken token x) (ht : JsonTokenText token tt) (column : Nat)
    (hn : s.tokenizer.p.length < n) : (s.token line column token).Holds input n := by
  rw [token_scalar hx]
  cases hexpect : token.expectAfter s.current.expect with
  | none => exact trivial
  | some y =>
    cases hv : token.variant s.free with
    | error er => exact trivial
    | ok v =>
      have hscalar := hx.isScalar hv
      have hvalue := hscalar.value
      have hmax : v.value.depth ≤ depthMax := by
        rw [hvalue, Json.depth]
        exact Nat.zero_le _
      have htext := hx.text ht hv
      have hfrom := hscalar.fromText (s.free + 1) s.free h.line column
      have hinput : input = before ++ (t ++ a ++ tt) ++ s.tokenizer.p := by
        rw [h.input]
        simp only [append_assoc]
      -- a value stands here
      have hplace : s.current.expect.afterValue = some y →
          (s.addValue (some y) (.ok v) line column).Holds input n := by
        intro hy
        refine Holds.add ?_ (h.slot.value hy h.space ?_) hinput h.current h.outer h.lines hfrom hmax hn
        · rw [JsonExpect.bracket_afterValue hy]
          exact h.opened
        · rw [value_setSource, hvalue]
          exact htext
      cases hx with
      | string k =>
        obtain hy | ⟨hkey, rfl⟩ := JsonExpect.afterString_cases hexpect
        · exact hplace hy
        · obtain ⟨hvalid, rfl⟩ := utf8IsValid_of_newString hv
          cases ht with
          | string hus =>
            refine Holds.add ?_
              (.objectColon hkey h.slot h.space ⟨_, hus, (utf8IsValid_iff_of_jsonQuoted hus).mp hvalid, rfl⟩) hinput
              h.current h.outer h.lines hfrom hmax hn
            have hbracket : s.current.expect.bracket = JsonExpect.objectColon.bracket := by
              obtain hkey | hkey := hkey <;> rw [hkey] <;> rfl
            rw [← hbracket]
            exact h.opened
      | number m | boolean b | null => exact hplace hexpect

/-- A bracket opens. -/
theorem AtToken.begin {c : UInt8} (h : s.AtToken input before t a [c] line) {expect : JsonExpect}
    (hbracket : expect.bracket = some c) (hslot : JsonSlot (R := R) expect [] []) (column : Nat)
    (hn : s.tokenizer.p.length < n) : (s.begin expect line column).Holds input n := by
  unfold JsonParser.begin
  cases hafter : s.current.expect.afterValue with
  | none => exact trivial
  | some after =>
    refine ⟨⟨⟨before ++ t ++ a ++ [c], [], ?_, hslot, ?_⟩, ?_, ?_, fun _ => h.lines⟩, hn⟩
    · rw [hbracket]
      exact .inside h.line hafter h.slot h.space h.opened
    · rw [append_nil]
      exact h.input
    · intro e he
      exact absurd he not_mem_nil
    · intro f hf
      obtain rfl | hf := mem_cons.mp hf
      · exact h.current
      · exact h.outer f hf

/-- A container ends. -/
theorem AtToken.close (h : s.AtToken input before t a tt line) {c : UInt8}
    (hbracket : s.current.expect.bracket = some c) {r : Result (JsonVariant R)} (hr : ∀ v, r = .ok v →
      JsonText (.value v.value) (c :: (t ++ a ++ tt)) ∧ v.value.depth ≤ depthMax ∧
        v.variantDepth = v.value.depth ∧ v.Markable ∧ ∀ b ∈ v.keyCells, b < s.free + s.current.elements.length + 1)
    (hn : s.tokenizer.p.length < n) : (s.close r).Holds input n := by
  have hopened := h.opened
  rw [hbracket] at hopened
  unfold JsonParser.close
  cases houter : s.outer with
  | nil =>
    rw [houter] at hopened
    cases hopened
  | cons f fs =>
    cases r with
    | error er => exact trivial
    | ok v =>
      obtain ⟨htext, hmax, hdepth, hmark, hcells⟩ := hr v rfl
      rw [houter] at hopened
      cases hopened with
      | @inside _ _ x _ _ before t' a' hline hx hslot ha hs =>
        have hfrom := fromText_setSource s.free hline s.current.columnBefore hdepth hmark hcells
        have hframes : ∀ g ∈ f :: fs, g.FromText s.free := fun g hg => h.outer g (by rw [houter]; exact hg)
        have hslot' := hslot.value (v := v.setSource s.free s.current.lineBefore s.current.columnBefore) hx ha
          (by rw [value_setSource]; exact htext)
        have hs' : JsonOpened f.expect.bracket f.lineBefore fs before := by
          rw [JsonExpect.bracket_afterValue hx]
          exact hs
        have hinput : input = before ++ (t' ++ a' ++ c :: (t ++ a ++ tt)) ++ s.tokenizer.p := by
          rw [h.input]
          simp only [append_assoc, cons_append, nil_append]
        exact Holds.add (s := { s with current := f, outer := fs }) (y := f.expect) hs' hslot' hinput
          (hframes f mem_cons_self) (fun g hg => hframes g (mem_cons_of_mem f hg)) h.lines hfrom hmax hn

/-- A colon or a comma. -/
theorem AtToken.next (h : s.AtToken input before t a tt line) {y : JsonExpect}
    (hy : y.bracket = s.current.expect.bracket) (hslot : JsonSlot y s.current.elements (t ++ a ++ tt))
    (hn : s.tokenizer.p.length < n) :
    (JsonRound.next { s with current := { s.current with expect := y } }).Holds input n := by
  refine ⟨⟨⟨before, t ++ a ++ tt, ?_, hslot, ?_⟩, h.current, h.outer, fun _ => h.lines⟩, hn⟩
  · rw [show _ = s.current.expect.bracket from hy]
    exact h.opened
  · rw [h.input]
    simp only [append_assoc]

/-- What a token leads to. -/
theorem AtToken.token (h : s.AtToken input before t a tt line) {token : JsonToken R}
    (ht : JsonTokenText token tt) (column : Nat) (hn : s.tokenizer.p.length < n) :
    (s.token line column token).Holds input n := by
  cases ht with
  | string hus => exact h.scalar (.string _) (.string hus) column hn
  | number hm => exact h.scalar (.number _) (.number hm) column hn
  | booleanTrue => exact h.scalar (.boolean _) .booleanTrue column hn
  | booleanFalse => exact h.scalar (.boolean _) .booleanFalse column hn
  | null => exact h.scalar .null .null column hn
  | objectOpen => exact h.begin rfl .objectFirstKey column hn
  | arrayOpen => exact h.begin rfl .arrayFirstElement column hn
  | colon =>
    simp only [JsonParser.token]
    split
    · rename_i hexpect
      have hslot := h.slot
      rw [hexpect] at hslot
      exact h.next (by rw [hexpect]; rfl) (.objectValue hslot h.space) hn
    · exact trivial
  | comma =>
    simp only [JsonParser.token]
    split
    · exact trivial
    · rename_i y hy
      exact h.next (JsonExpect.bracket_afterComma hy) (h.slot.comma hy h.space) hn
  | objectClose =>
    simp only [JsonParser.token]
    split
    · rename_i hexpect
      have hbracket : s.current.expect.bracket = some '{'.toUInt8 := by
        obtain hexpect | hexpect := hexpect <;> rw [hexpect] <;> rfl
      obtain ⟨fs, helements, htext⟩ := h.slot.object hexpect h.space
      have hfrom : ∀ e ∈ flatten fs, e.FromText s.free := by
        intro e he
        rw [← helements] at he
        exact (h.current e he).1
      refine h.close hbracket ?_ hn
      intro v hv
      rw [helements] at hv ⊢
      have hmax := depth_le_of_newObject hfrom hv
      obtain ⟨w, hw, hvalue, hdepth, hmark, hcells⟩ := newObject_eq_ok hfrom hmax
      obtain rfl := Except.ok.inj (hv.symm.trans hw)
      rw [hvalue] at hdepth ⊢
      exact ⟨htext, hmax, hdepth, hmark, hcells⟩
    · exact trivial
  | arrayClose =>
    simp only [JsonParser.token]
    split
    · rename_i hexpect
      have hbracket : s.current.expect.bracket = some '['.toUInt8 := by
        obtain hexpect | hexpect := hexpect <;> rw [hexpect] <;> rfl
      have hfrom : ∀ e ∈ s.current.elements, e.FromText s.free := fun e he => (h.current e he).1
      refine h.close hbracket ?_ hn
      intro v hv
      have hmax := depth_le_of_newArray hfrom hv
      obtain ⟨w, hw, hvalue, hdepth, hmark, hcells⟩ := newArray_eq_ok hfrom hmax
      obtain rfl := Except.ok.inj (hv.symm.trans hw)
      rw [hvalue] at hdepth ⊢
      exact ⟨h.slot.array hexpect h.space, hmax, hdepth, hmark, fun b hb => (hcells b hb).trans_le (by omega)⟩
    · exact trivial

/-- The end of the text. -/
theorem Holds.end (h : s.Holds input) (hp : JsonSpace s.tokenizer.p) (s' : JsonParser R)
    (hcurrent : s'.current = s.current) (houter : s'.outer = s.outer) (hnil : s'.tokenizer.p = [])
    (line column : Nat) : (s'.token line column .end).Holds input n := by
  simp only [JsonParser.token]
  split
  · rename_i hexpect
    rw [hcurrent] at hexpect
    obtain ⟨before, t, hopened, hslot, hinput⟩ := h.text
    unfold JsonParser.done
    rw [hcurrent, houter]
    rw [hexpect] at hopened hslot
    cases hslots : s.current.elements with
    | nil =>
      rw [hslots] at hslot
      cases hslot
    | cons v es =>
      rw [hslots] at hslot
      cases houters : s.outer with
      | cons f fs =>
        rw [houters] at hopened
        cases hopened
      | nil =>
        rw [houters] at hopened
        cases hopened
        obtain ⟨hfrom, hmax⟩ := h.current v (by rw [hslots]; exact mem_cons_self)
        cases hslot with
        | @document v a t ha htext =>
          exact ⟨⟨a, t, s.tokenizer.p, ha, htext, hp, hinput⟩, hmax, hfrom.markable, hnil⟩
  · exact trivial

/-- A round. -/
theorem Holds.round (h : s.Holds input) : (s.round false).Holds input s.tokenizer.p.length := by
  unfold JsonParser.round
  cases htokenize : jsonTokenize (R := R) s.tokenizer with
  | error er => exact trivial
  | ok r =>
    obtain ⟨token, place, tokenizer⟩ := r
    obtain ⟨hplace, hline⟩ := jsonTokenize_lines htokenize h.lines
    obtain ⟨a, ha, ⟨hp, rfl, hnil⟩ | ⟨tt, ht, hp⟩⟩ := jsonTokenize_sound htokenize
    · exact h.end (by rw [hp]; exact ha) { s with tokenizer := tokenizer } rfl rfl hnil place.1 place.2
    · obtain ⟨before, t, hopened, hslot, hinput⟩ := h.text
      have hat : ({ s with tokenizer := tokenizer } : JsonParser R).AtToken input before t a tt place.1 :=
        ⟨hopened, hslot, ha, by rw [hinput, hp]; simp only [append_assoc], h.current, h.outer, hline, hplace⟩
      refine hat.token ht place.2 ?_
      obtain ⟨c, q, rfl, -⟩ := ht.head
      rw [hp]
      simp only [length_append, length_cons]
      omega

/-- The loop ends, and with a result of which this is true. -/
theorem Holds.run (h : s.Holds input) (hn : s.tokenizer.p.length < n) :
    ∃ r, s.run false n = some r ∧ r.Holds input 0 := by
  induction n generalizing s with
  | zero => exact absurd hn (Nat.not_lt_zero _)
  | succ n ih =>
    have hround := h.round
    unfold JsonParser.run
    cases hr : s.round false with
    | next s' =>
      rw [hr] at hround
      exact ih hround.1 (by have := hround.2; omega)
    | done v p =>
      rw [hr] at hround
      exact ⟨_, rfl, hround⟩
    | failed er => exact ⟨_, rfl, trivial⟩
    | assertFailed =>
      rw [hr] at hround
      exact hround.elim

theorem holds_start (input : Bytes) (free : Nat) : (start (R := R) input free).Holds input where
  text := ⟨[], [], .toplevel 0, .toplevel, rfl⟩
  current := fun _ he => absurd he not_mem_nil
  outer := fun _ hf => absurd hf not_mem_nil
  lines := fun h => absurd rfl h

end JsonParser

/-- The result of `json_parse_internal`: a variant with the value that the text denotes, or an error. -/
theorem jsonParseInternal_sound (free : Nat) (input : Bytes) :
    ∃ r : JsonRound R, jsonParseInternal false free input = some r ∧ r.Holds input 0 :=
  (JsonParser.holds_start (R := R) input free).run (Nat.lt_succ_self _)

end

end Elogind
