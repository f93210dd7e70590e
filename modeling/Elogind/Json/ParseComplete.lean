/-
  Elogind.Json.ParseComplete

  What the grammar derives is accepted by `json_parse_internal`, as long as it is not too deep: by induction
  on the derivation, whatever the frames below have read and whatever the text goes on with.
-/

import Elogind.Json.ParseSteps

namespace Elogind

open Byte Errno List JsonVariant

/-- The depth of elements of which one more is the last. -/
theorem Json.depthElements_append {R : Type} {n : Nat} {es : List (Json R)} {v : Json R} :
    Json.depthElements (es ++ [v]) ≤ n ↔ Json.depthElements es ≤ n ∧ v.depth < n := by
  rw [Json.depthElements_le, Json.depthElements_le, forall_mem_append, forall_mem_singleton]

theorem Json.depthFields_append {R : Type} {n : Nat} {fs : List (Bytes × Json R)} {k : Bytes} {v : Json R} :
    Json.depthFields (fs ++ [(k, v)]) ≤ n ↔ Json.depthFields fs ≤ n ∧ v.depth < n := by
  rw [Json.depthFields_le, Json.depthFields_le, forall_mem_append, forall_mem_singleton]

section

variable {R : Type} [Double R]

/-! ## Rounds -/

namespace JsonParser

/-- The state after some rounds. -/
def Steps : JsonParser R → JsonParser R → Prop :=
  Relation.ReflTransGen fun s s' => s.round false = .next s'

/-- After some rounds, the frame at the top has these elements besides, it expects this, and the text goes on
    like this. -/
structure HasRead (s s' : JsonParser R) (rest : Bytes) (y : JsonExpect) (ws : List (JsonVariant R)) : Prop where
  steps : s.Steps s'
  current : s'.current = { s.current with expect := y, elements := s.current.elements ++ ws }
  outer : s'.outer = s.outer
  text : s'.tokenizer.p = rest
  state : s'.tokenizer.state = .valuePost
  line : 0 < s'.tokenizer.line
  free : s.free ≤ s'.free
  fromText : ∀ w ∈ ws, w.FromText s'.free

variable {s s₁ : JsonParser R} {rest a t : Bytes} {y : JsonExpect} {ws : List (JsonVariant R)}

theorem HasRead.counts {s' : JsonParser R} (h : s.HasRead s' rest y ws) : s'.tokenizer.Counts := fun _ => h.line

/-- What was read in two parts. -/
theorem HasRead.trans {s₂ s₃ : JsonParser R} {rest' : Bytes} {z : JsonExpect}
    {vs : List (JsonVariant R)} (h : s.HasRead s₁ rest y ws) (hround : s₁.Steps s₂)
    (hcurrent : s₂.current = { s₁.current with expect := s₂.current.expect })
    (houter : s₂.outer = s₁.outer) (hfree : s₂.free = s₁.free) (h' : s₂.HasRead s₃ rest' z vs) :
    s.HasRead s₃ rest' z (ws ++ vs) where
  steps := h.steps.trans (hround.trans h'.steps)
  current := by
    rw [h'.current, hcurrent, h.current]
    simp only [append_assoc]
  outer := by rw [h'.outer, houter, h.outer]
  text := h'.text
  state := h'.state
  line := h'.line
  free := by
    have hle := h'.free
    rw [hfree] at hle
    exact h.free.trans hle
  fromText := by
    have hle := h'.free
    rw [hfree] at hle
    intro w hw
    obtain hw | hw := mem_append.mp hw
    · exact (h.fromText w hw).mono hle
    · exact h'.fromText w hw

/-- A comma. -/
theorem round_comma {b : Bytes} (hy : s.current.expect.afterComma = some y) (hb : JsonSpace b)
    (hp : s.tokenizer.p = b ++ ','.toUInt8 :: rest) (hstate : s.tokenizer.state = .valuePost)
    (hlines : s.tokenizer.Counts) :
    ∃ t : JsonTokenizer, t.p = rest ∧ t.state = .value ∧ 0 < t.line ∧
      s.round false = .next { s with tokenizer := t, current := { s.current with expect := y } } := by
  obtain ⟨line, column, t, hline, htline, htp, htstate, hround⟩ :=
    round_token hb (JsonTokenText.comma (R := R)) hp (by rw [hstate]; rfl) trivial hlines
  refine ⟨t, htp, htstate, htline, ?_⟩
  rw [hround]
  simp only [JsonParser.token, hy]

/-- A colon. -/
theorem round_colon {b : Bytes} (hx : s.current.expect = .objectColon) (hb : JsonSpace b)
    (hp : s.tokenizer.p = b ++ ':'.toUInt8 :: rest) (hstate : s.tokenizer.state = .valuePost)
    (hlines : s.tokenizer.Counts) :
    ∃ t : JsonTokenizer, t.p = rest ∧ t.state = .value ∧ 0 < t.line ∧
      s.round false = .next { s with tokenizer := t, current := { s.current with expect := .objectValue } } := by
  obtain ⟨line, column, t, hline, htline, htp, htstate, hround⟩ :=
    round_token hb (JsonTokenText.colon (R := R)) hp (by rw [hstate]; rfl) trivial hlines
  refine ⟨t, htp, htstate, htline, ?_⟩
  rw [hround]
  simp only [JsonParser.token, hx, if_true]

/-- A token without members. -/
theorem hasRead_scalar {token : JsonToken R} {x : JsonScalar R} {v : JsonVariant R}
    (hx : JsonScalarToken token x) (ht : JsonTokenText token t) (hv : token.variant s.free = .ok v)
    (hy : token.expectAfter s.current.expect = some y) (ha : JsonSpace a)
    (hp : s.tokenizer.p = a ++ (t ++ rest)) (hstate : s.tokenizer.state ≠ .valuePost)
    (hlines : s.tokenizer.Counts) (hrest : token.Follow rest) :
    ∃ s' line column, s.HasRead s' rest y [v.setSource s.free line column] := by
  have hallowed : token.isAllowed s.tokenizer.state = true := by
    cases hx <;> exact decide_eq_true hstate
  have hafter : token.stateAfter s.tokenizer.state = .valuePost := by
    cases hx <;> rfl
  obtain ⟨line, column, t, hline, htline, htp, htstate, hround⟩ := round_token ha ht hp hallowed hrest hlines
  rw [token_scalar hx] at hround
  simp only [hy, hv] at hround
  refine ⟨_, line, column, .single hround, rfl, rfl, htp, htstate.trans hafter, htline, Nat.le_succ _, ?_⟩
  intro w hw
  obtain rfl := mem_singleton.mp hw
  exact (hx.isScalar hv).fromText _ _ hline column

/-- The parser is in a container that began after `s`, where `y` is expected behind the container. -/
structure Within (s s₁ : JsonParser R) (y : JsonExpect) (rest : Bytes) : Prop where
  steps : s.Steps s₁
  free : s.free ≤ s₁.free
  outer : s₁.outer = { s.current with expect := y } :: s.outer
  line : 0 < s₁.current.lineBefore
  text : s₁.tokenizer.p = rest
  counts : s₁.tokenizer.Counts

theorem Within.read {s₂ : JsonParser R} {x : JsonExpect} (h : s.Within s₁ y t)
    (hread : s₁.HasRead s₂ rest x ws) : s.Within s₂ y rest where
  steps := h.steps.trans hread.steps
  free := h.free.trans hread.free
  outer := hread.outer.trans h.outer
  line := by
    rw [hread.current]
    exact h.line
  text := hread.text
  counts := hread.counts

/-- A container begins. -/
theorem within_begin {token : JsonToken R} {c : UInt8} {expect : JsonExpect}
    (ht : JsonTokenText token [c])
    (htoken : token = .arrayOpen ∧ expect = .arrayFirstElement ∨ token = .objectOpen ∧ expect = .objectFirstKey)
    (hy : s.current.expect.afterValue = some y) (ha : JsonSpace a) (hp : s.tokenizer.p = a ++ c :: rest)
    (hstate : s.tokenizer.state ≠ .valuePost) (hlines : s.tokenizer.Counts) :
    ∃ s₁, s.Within s₁ y rest ∧ s₁.current.expect = expect ∧ s₁.current.elements = [] ∧
      s₁.tokenizer.state ≠ .valuePost := by
  have hallowed : token.isAllowed s.tokenizer.state = true := by
    obtain ⟨rfl, -⟩ | ⟨rfl, -⟩ := htoken <;> exact decide_eq_true hstate
  have hafter : token.stateAfter s.tokenizer.state ≠ .valuePost := by
    obtain ⟨rfl, -⟩ | ⟨rfl, -⟩ := htoken <;> nofun
  have hrest : token.Follow rest := by
    obtain ⟨rfl, -⟩ | ⟨rfl, -⟩ := htoken <;> trivial
  obtain ⟨line, column, t, hline, htline, htp, htstate, hround⟩ := round_token ha ht hp hallowed hrest hlines
  refine ⟨{ s with
    tokenizer := t
    current := ⟨expect, [], line, column⟩
    outer := { s.current with expect := y } :: s.outer }, ?_, rfl, rfl, fun h => hafter (htstate.symm.trans h)⟩
  refine ⟨.single ?_, Nat.le_refl _, rfl, hline, htp, fun _ => htline⟩
  rw [hround]
  obtain ⟨rfl, rfl⟩ | ⟨rfl, rfl⟩ := htoken <;> simp only [JsonParser.token, JsonParser.begin, hy]

/-- A container ends, and becomes an element of the frame below. -/
theorem Within.close {v : JsonVariant R} (h : s.Within s₁ y t) {tokenizer : JsonTokenizer}
    (htp : tokenizer.p = rest) (htstate : tokenizer.state = .valuePost) (htline : 0 < tokenizer.line)
    (hround : s₁.round false = ({ s₁ with tokenizer := tokenizer } : JsonParser R).close (.ok v))
    (hdepth : v.variantDepth = v.value.depth) (hmark : v.Markable)
    (hcells : ∀ b ∈ v.keyCells, b < s₁.free + s₁.current.elements.length + 1) :
    ∃ s' w, s.HasRead s' rest y [w] ∧ w.value = v.value := by
  simp only [JsonParser.close, h.outer] at hround
  refine ⟨_, _, ⟨h.steps.tail hround, rfl, rfl, htp, htstate, htline, h.free.trans (Nat.le_add_right _ _), ?_⟩,
    value_setSource _ _ _ _⟩
  intro w hw
  obtain rfl := mem_singleton.mp hw
  exact fromText_setSource _ h.line _ hdepth hmark hcells

/-- An array ends. -/
theorem Within.arrayClose (h : s.Within s₁ y (a ++ ']'.toUInt8 :: rest) )
    (hx : s₁.current.expect = .arrayFirstElement ∨ s₁.current.expect = .arrayComma) (ha : JsonSpace a)
    (es : List (JsonVariant R)) (helements : s₁.current.elements = es) (hfrom : ∀ e ∈ es, e.FromText s₁.free)
    (hmax : (Json.array (es.map JsonVariant.value)).depth ≤ depthMax) :
    ∃ s' w, s.HasRead s' rest y [w] ∧ w.value = .array (es.map JsonVariant.value) := by
  obtain ⟨v, hv, hvalue, hdepth, hmark, hcells⟩ := JsonVariant.newArray_eq_ok hfrom hmax
  obtain ⟨line, column, t, -, htline, htp, htstate, hround⟩ :=
    round_token ha (JsonTokenText.arrayClose (R := R)) h.text rfl trivial h.counts
  simp only [JsonParser.token, hx, if_true, helements, hv] at hround
  rw [← hvalue]
  exact h.close htp htstate htline hround hdepth hmark (fun b hb => (hcells b hb).trans_le (by omega))
/-- An object ends. -/
theorem Within.objectClose (h : s.Within s₁ y (a ++ '}'.toUInt8 :: rest) )
    (hx : s₁.current.expect = .objectFirstKey ∨ s₁.current.expect = .objectComma) (ha : JsonSpace a)
    (fs : List (JsonField R)) (helements : s₁.current.elements = JsonVariant.flatten fs)
    (hfrom : ∀ e ∈ JsonVariant.flatten fs, e.FromText s₁.free)
    (hmax : (Json.object (fs.map fun f => (f.1.2, f.2.value))).depth ≤ depthMax) :
    ∃ s' w, s.HasRead s' rest y [w] ∧ w.value = .object (fs.map fun f => (f.1.2, f.2.value)) := by
  obtain ⟨v, hv, hvalue, hdepth, hmark, hcells⟩ := JsonVariant.newObject_eq_ok hfrom hmax
  obtain ⟨line, column, t, -, htline, htp, htstate, hround⟩ :=
    round_token ha (JsonTokenText.objectClose (R := R)) h.text rfl trivial h.counts
  simp only [JsonParser.token, hx, if_true, helements, hv] at hround
  rw [← hvalue]
  refine h.close htp htstate htline hround hdepth hmark ?_
  rw [helements]
  exact hcells
end JsonParser

/-! ## Derivations -/

/-- What is read of the text of a phrase: a value where one may stand, elements and members after their
    bracket. -/
def JsonPhrase.Reads (t : Bytes) : JsonPhrase R → Prop
  | value v => v.depth ≤ depthMax → ∀ (s : JsonParser R) (a rest : Bytes) (y : JsonExpect), JsonSpace a →
      s.tokenizer.p = a ++ (t ++ rest) → s.current.expect.afterValue = some y → s.tokenizer.state ≠ .valuePost →
      s.tokenizer.Counts → JsonFollow rest → ∃ s' w, s.HasRead s' rest y [w] ∧ w.value = v
  | elements es => Json.depthElements es ≤ depthMax → ∀ (s : JsonParser R) (rest : Bytes),
      s.tokenizer.p = t ++ rest → s.current.expect = .arrayFirstElement → s.tokenizer.state ≠ .valuePost →
      s.tokenizer.Counts → JsonFollow rest → ∃ s' ws, s.HasRead s' rest .arrayComma ws ∧ ws.map JsonVariant.value = es
  | members fs => Json.depthFields fs ≤ depthMax → ∀ (s : JsonParser R) (rest : Bytes),
      s.tokenizer.p = t ++ rest → s.current.expect = .objectFirstKey → s.tokenizer.state ≠ .valuePost →
      s.tokenizer.Counts → JsonFollow rest →
      ∃ s' ws, s.HasRead s' rest .objectComma (JsonVariant.flatten ws) ∧ (ws.map fun f => (f.1.2, f.2.value)) = fs

variable {t b a k tk c : Bytes} {v : Json R}

theorem reads_scalar {x : JsonScalar R} (h : JsonText (.value (.scalar x)) t) :
    (JsonPhrase.value (.scalar x)).Reads t := by
  intro _ s a rest y ha hp hy hstate hlines hrest
  obtain ⟨token, v, ht, hx, hv⟩ := h.exists_token s.free
  have hexpect : token.expectAfter s.current.expect = some y := by
    cases hx with
    | string k => exact JsonExpect.afterString_of_afterValue hy
    | _ => exact hy
  obtain ⟨s', line, column, hread⟩ := JsonParser.hasRead_scalar hx ht hv hexpect ha hp hstate hlines (hrest.follow token)
  exact ⟨s', _, hread, by rw [value_setSource]; exact (hx.isScalar hv).value⟩

theorem reads_emptyArray (hb : JsonSpace b) :
    (JsonPhrase.value (R := R) (.array [])).Reads ('['.toUInt8 :: (b ++ [']'.toUInt8])) := by
  intro hmax s a rest y ha hp hy hstate hlines _
  rw [cons_append, append_assoc] at hp
  obtain ⟨s₁, hin, hx, hnil, -⟩ := JsonParser.within_begin .arrayOpen (.inl ⟨rfl, rfl⟩) hy ha hp hstate hlines
  exact hin.arrayClose (.inl hx) hb [] hnil (fun e he => absurd he not_mem_nil) hmax

theorem reads_array {es : List (Json R)} (hes : (JsonPhrase.elements es).Reads t) (hb : JsonSpace b) :
    (JsonPhrase.value (.array es)).Reads ('['.toUInt8 :: (t ++ b ++ [']'.toUInt8])) := by
  intro hmax s a rest y ha hp hy hstate hlines _
  simp only [cons_append, append_assoc, nil_append] at hp
  obtain ⟨s₁, hin, hx, hnil, hstate₁⟩ := JsonParser.within_begin .arrayOpen (.inl ⟨rfl, rfl⟩) hy ha hp hstate hlines
  obtain ⟨s₂, ws, hread, rfl⟩ := hes hmax s₁ _ hin.text hx hstate₁ hin.counts
    (jsonFollow_append hb (.inr (.inl rfl)) rest)
  exact (hin.read hread).arrayClose (.inr (by rw [hread.current])) hb ws
    (by rw [hread.current, hnil]; rfl) hread.fromText hmax

theorem reads_emptyObject (hb : JsonSpace b) :
    (JsonPhrase.value (R := R) (.object [])).Reads ('{'.toUInt8 :: (b ++ ['}'.toUInt8])) := by
  intro hmax s a rest y ha hp hy hstate hlines _
  rw [cons_append, append_assoc] at hp
  obtain ⟨s₁, hin, hx, hnil, -⟩ := JsonParser.within_begin .objectOpen (.inr ⟨rfl, rfl⟩) hy ha hp hstate hlines
  exact hin.objectClose (.inl hx) hb [] hnil (fun e he => absurd he not_mem_nil) hmax

theorem reads_object {fs : List (Bytes × Json R)} (hfs : (JsonPhrase.members fs).Reads t)
    (hb : JsonSpace b) :
    (JsonPhrase.value (.object fs)).Reads ('{'.toUInt8 :: (t ++ b ++ ['}'.toUInt8])) := by
  intro hmax s a rest y ha hp hy hstate hlines _
  simp only [cons_append, append_assoc, nil_append] at hp
  obtain ⟨s₁, hin, hx, hnil, hstate₁⟩ := JsonParser.within_begin .objectOpen (.inr ⟨rfl, rfl⟩) hy ha hp hstate hlines
  obtain ⟨s₂, ws, hread, rfl⟩ := hfs hmax s₁ _ hin.text hx hstate₁ hin.counts
    (jsonFollow_append hb (.inr (.inr rfl)) rest)
  exact (hin.read hread).objectClose (.inr (by rw [hread.current])) hb ws
    (by rw [hread.current, hnil]; rfl) hread.fromText hmax

theorem reads_element (ha : JsonSpace a) (hv : (JsonPhrase.value v).Reads t) :
    (JsonPhrase.elements [v]).Reads (a ++ t) := by
  intro hmax s rest hp hx hstate hlines hrest
  rw [Json.depthElements, max_le_iff] at hmax
  rw [append_assoc] at hp
  obtain ⟨s', w, hread, rfl⟩ := hv (Nat.le_of_succ_le hmax.1) s a rest .arrayComma ha hp (by rw [hx]; rfl) hstate
    hlines hrest
  exact ⟨s', [w], hread, rfl⟩

theorem reads_elements {es : List (Json R)} {ts : Bytes} (hes : (JsonPhrase.elements es).Reads ts)
    (hb : JsonSpace b) (ha : JsonSpace a) (hv : (JsonPhrase.value v).Reads t) :
    (JsonPhrase.elements (es ++ [v])).Reads (ts ++ b ++ ','.toUInt8 :: (a ++ t)) := by
  intro hmax s rest hp hx hstate hlines hrest
  obtain ⟨hmax₁, hmax₂⟩ := Json.depthElements_append.mp hmax
  have hp' : s.tokenizer.p = ts ++ (b ++ ','.toUInt8 :: (a ++ (t ++ rest))) := by
    rw [hp]
    simp only [cons_append, append_assoc]
  obtain ⟨s₁, ws, hread, rfl⟩ := hes hmax₁ s _ hp' hx hstate hlines (jsonFollow_append hb (.inl rfl) _)
  have hx₁ : s₁.current.expect = .arrayComma := by rw [hread.current]
  obtain ⟨tk, htp, htstate, htline, hround⟩ :=
    JsonParser.round_comma (y := .arrayNextElement) (by rw [hx₁]; rfl) hb hread.text hread.state hread.counts
  obtain ⟨s₃, w, hread', rfl⟩ := hv (Nat.le_of_lt hmax₂)
    { s₁ with tokenizer := tk, current := { s₁.current with expect := .arrayNextElement } }
    a rest .arrayComma ha htp rfl (by rw [htstate]; decide) (fun _ => htline) hrest
  refine ⟨s₃, ws ++ [w], hread.trans (.single hround) rfl rfl rfl hread', ?_⟩
  rw [map_append]
  rfl

/-- A key with its value. -/
theorem reads_field (ha : JsonSpace a) (hk : JsonString k tk) (hb : JsonSpace b) (hc : JsonSpace c)
    (hv : (JsonPhrase.value v).Reads t) (hmax : v.depth ≤ depthMax) (s : JsonParser R) (rest : Bytes)
    (hp : s.tokenizer.p = a ++ tk ++ b ++ ':'.toUInt8 :: (c ++ (t ++ rest)))
    (hx : s.current.expect = .objectFirstKey ∨ s.current.expect = .objectNextKey)
    (hstate : s.tokenizer.state ≠ .valuePost) (hlines : s.tokenizer.Counts) (hrest : JsonFollow rest) :
    ∃ s' p w, s.HasRead s' rest .objectComma (JsonVariant.flatten [((p, k), w)]) ∧ w.value = v := by
  obtain ⟨us, hus, hvalid, rfl⟩ := hk
  have hp' : s.tokenizer.p = a ++ (tk ++ (b ++ ':'.toUInt8 :: (c ++ (t ++ rest)))) := by
    rw [hp]
    simp only [append_assoc]
  have hexpect : s.current.expect.afterString = some .objectColon := by
    obtain hx | hx := hx <;> rw [hx] <;> rfl
  obtain ⟨s₁, line, column, hread⟩ := JsonParser.hasRead_scalar (.string _) (.string hus)
    (newString_eq_ok s.free ((utf8IsValid_iff_of_jsonQuoted hus).mpr hvalid)) hexpect ha hp' hstate hlines
    trivial
  have hx₁ : s₁.current.expect = .objectColon := by rw [hread.current]
  obtain ⟨tk', htp, htstate, htline, hround⟩ := JsonParser.round_colon hx₁ hb hread.text hread.state hread.counts
  obtain ⟨s₃, w, hread', hw⟩ := hv hmax
    { s₁ with tokenizer := tk', current := { s₁.current with expect := .objectValue } }
    c rest .objectComma hc htp rfl (by rw [htstate]; decide) (fun _ => htline) hrest
  exact ⟨s₃, _, w, hread.trans (.single hround) rfl rfl rfl hread', hw⟩

theorem reads_member (ha : JsonSpace a) (hk : JsonString k tk) (hb : JsonSpace b) (hc : JsonSpace c)
    (hv : (JsonPhrase.value v).Reads t) :
    (JsonPhrase.members [(k, v)]).Reads (a ++ tk ++ b ++ ':'.toUInt8 :: (c ++ t)) := by
  intro hmax s rest hp hx hstate hlines hrest
  rw [Json.depthFields, max_le_iff] at hmax
  obtain ⟨s', p, w, hread, rfl⟩ := reads_field ha hk hb hc hv (Nat.le_of_succ_le hmax.1) s rest
    (by rw [hp]; simp only [cons_append, append_assoc]) (.inl hx) hstate hlines hrest
  exact ⟨s', [((p, k), w)], hread, rfl⟩

theorem reads_members {fs : List (Bytes × Json R)} {ts d : Bytes}
    (hfs : (JsonPhrase.members fs).Reads ts) (hd : JsonSpace d) (ha : JsonSpace a)
    (hk : JsonString k tk) (hb : JsonSpace b) (hc : JsonSpace c) (hv : (JsonPhrase.value v).Reads t) :
    (JsonPhrase.members (fs ++ [(k, v)])).Reads (ts ++ d ++ ','.toUInt8 :: (a ++ tk ++ b ++ ':'.toUInt8 :: (c ++ t))) := by
  intro hmax s rest hp hx hstate hlines hrest
  obtain ⟨hmax₁, hmax₂⟩ := Json.depthFields_append.mp hmax
  have hp' : s.tokenizer.p = ts ++ (d ++ ','.toUInt8 :: (a ++ tk ++ b ++ ':'.toUInt8 :: (c ++ (t ++ rest)))) := by
    rw [hp]
    simp only [cons_append, append_assoc]
  obtain ⟨s₁, ws, hread, rfl⟩ := hfs hmax₁ s _ hp' hx hstate hlines (jsonFollow_append hd (.inl rfl) _)
  have hx₁ : s₁.current.expect = .objectComma := by rw [hread.current]
  obtain ⟨tk', htp, htstate, htline, hround⟩ :=
    JsonParser.round_comma (y := .objectNextKey) (by rw [hx₁]; rfl) hd hread.text hread.state hread.counts
  obtain ⟨s₃, p, w, hread', rfl⟩ := reads_field ha hk hb hc hv (Nat.le_of_lt hmax₂)
    { s₁ with tokenizer := tk', current := { s₁.current with expect := .objectNextKey } }
    rest htp (.inr rfl) (by rw [htstate]; decide) (fun _ => htline) hrest
  refine ⟨s₃, ws ++ [((p, k), w)], ?_, ?_⟩
  · rw [JsonVariant.flatten_append]
    exact hread.trans (.single hround) rfl rfl rfl hread'
  · rw [map_append]
    rfl

/-- Every phrase is read. -/
theorem JsonText.reads {x : JsonPhrase R} (h : JsonText x t) : x.Reads t := by
  induction h with
  | null => exact reads_scalar .null
  | booleanTrue => exact reads_scalar .booleanTrue
  | booleanFalse => exact reads_scalar .booleanFalse
  | number h => exact reads_scalar (.number h)
  | string h => exact reads_scalar (.string h)
  | emptyArray ha => exact reads_emptyArray ha
  | array _ ha ih => exact reads_array ih ha
  | emptyObject ha => exact reads_emptyObject ha
  | object _ ha ih => exact reads_object ih ha
  | element ha _ ih => exact reads_element ha ih
  | elements _ hb ha _ ihs ih => exact reads_elements ihs hb ha ih
  | member ha hk hb hc _ ih => exact reads_member ha hk hb hc ih
  | members _ hd ha hk hb hc _ ihs ih => exact reads_members ihs hd ha hk hb hc ih

/-! ## Texts -/

namespace JsonParser

/-- A result is one from each state on the way. -/
theorem run_of_steps {s s' : JsonParser R} (h : s.Steps s') {n : Nat} {r : JsonRound R} (hr : s.run false n = some r) :
    ∃ m, s'.run false m = some r := by
  induction h with
  | refl => exact ⟨n, hr⟩
  | tail _ hround ih =>
    obtain ⟨m, hm⟩ := ih
    cases m with
    | zero => cases hm
    | succ m =>
      rw [run, hround] at hm
      exact ⟨m, hm⟩

/-- After a value at the top level, the end of the text is the end of the run. -/
theorem round_end {s s' : JsonParser R} {b : Bytes} {w : JsonVariant R} (h : s.HasRead s' b .end [w])
    (helements : s.current.elements = []) (houter : s.outer = []) (hb : JsonSpace b) :
    s'.round false = .done w [] := by
  obtain ⟨place, t, htokenize, hnil⟩ := jsonTokenize_end (R := R) (s := s'.tokenizer) (by rw [h.text]; exact hb)
  unfold round
  rw [if_neg (by simp), htokenize]
  simp only [JsonParser.token, done, h.current, h.outer, helements, houter, nil_append, if_true]
  rw [hnil]

end JsonParser

/-- A text of the grammar that is not too deep makes the variant that it denotes. -/
theorem jsonParseInternal_complete {input : Bytes} (h : JsonDocument v input)
    (hmax : v.depth ≤ depthMax) {free : Nat} {r : JsonRound R}
    (hr : jsonParseInternal false free input = some r) : ∃ w, r = .done w [] ∧ w.value = v := by
  obtain ⟨a, t, b, ha, ht, hb, rfl⟩ := h
  obtain ⟨s', w, hread, hw⟩ := ht.reads hmax (JsonParser.start (a ++ t ++ b) free) a b .end ha (append_assoc a t b)
    rfl (fun hstate => by cases hstate) (fun hstate => absurd rfl hstate) (jsonFollow_space hb)
  obtain ⟨m, hm⟩ := JsonParser.run_of_steps hread.steps hr
  have hround := JsonParser.round_end hread rfl rfl hb
  refine ⟨w, ?_, hw⟩
  cases m with
  | zero => cases hm
  | succ m =>
    rw [JsonParser.run, hround] at hm
    exact (Option.some.inj hm).symm

end

end Elogind
