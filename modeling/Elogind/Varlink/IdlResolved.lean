/-
  Elogind.Varlink.IdlResolved

  The named types of an interface description that was parsed.  They are looked up in the fields of the symbols only, not
  in those of anonymous types, so an interface is fully resolved if no field in there has a named type.
-/

import Elogind.Varlink.IdlDeclared
import Mathlib.Data.List.Forall2

namespace Elogind

open Byte Errno Lib Checked Ends List

/-! ## Resolved interfaces -/

/-- `g` is a field of the anonymous type of `f`, or of one in there. -/
inductive VarlinkField.Inside : VarlinkField → VarlinkField → Prop where
  | field {f g : VarlinkField} {s : VarlinkSymbol} (hs : f.symbol = .anonymous s) (hg : g ∈ s.fields) : Inside f g
  | deeper {f g h : VarlinkField} {s : VarlinkSymbol} (hs : f.symbol = .anonymous s) (hg : g ∈ s.fields)
      (hh : Inside g h) : Inside f h

/-- A property of a field and of all fields inside it. -/
def VarlinkField.Throughout (P : VarlinkField → Prop) (f : VarlinkField) : Prop := P f ∧ ∀ g, f.Inside g → P g

/-- What a field points to in an interface where the types are resolved. -/
structure VarlinkField.Resolved (i : VarlinkInterface) (f : VarlinkField) : Prop where
  determined : f.fieldType ≠ .invalid
  named : f.fieldType = .namedType → ∃ k s, f.symbol = .named k ∧ i.symbols[k]? = some s ∧ f.namedType ≠ none ∧
    s.name = f.namedType ∧ (s.symbolType = .structType ∨ s.symbolType = .enumType)
  owns : ∀ t, f.fieldType.anonymous = some t → ∃ s, f.symbol = .anonymous s ∧ s.symbolType = t
  none : f.fieldType ≠ .namedType → f.fieldType.anonymous = none → f.symbol = .null

/-- The fields at every depth of all symbols are resolved. -/
def VarlinkInterface.FullyResolved (i : VarlinkInterface) : Prop :=
  ∀ s ∈ i.symbols, ∀ f ∈ s.fields, f.Throughout (VarlinkField.Resolved i)

/-- No field of an anonymous type has a named type. -/
def VarlinkInterface.NamesOutside (i : VarlinkInterface) : Prop :=
  ∀ s ∈ i.symbols, ∀ f ∈ s.fields, ∀ g, f.Inside g → g.fieldType ≠ .namedType

namespace VarlinkIdl

/-- What a field points to when it has been read. -/
structure Declared (f : VarlinkField) : Prop where
  determined : f.fieldType ≠ .invalid
  named : f.fieldType = .namedType → f.symbol = .null ∧ f.namedType ≠ none
  owns : ∀ t, f.fieldType.anonymous = some t → ∃ s, f.symbol = .anonymous s ∧ s.symbolType = t
  none : f.fieldType ≠ .namedType → f.fieldType.anonymous = none → f.symbol = .null

variable {f g : VarlinkField} {i : VarlinkInterface}

theorem not_inside (hs : ∀ s, f.symbol ≠ .anonymous s) : ¬ f.Inside g := by
  intro h
  cases h with
  | field hf _ | deeper hf _ _ => exact hs _ hf

/-- A field without a symbol has been read once it has a type. -/
theorem throughout_of_null (hnull : f.symbol = .null) (htype : f.fieldType ≠ .invalid)
    (hanonymous : f.fieldType.anonymous = none) (hnamed : f.fieldType = .namedType → f.namedType ≠ none) :
    f.Throughout Declared := by
  refine ⟨⟨htype, fun h => ⟨hnull, hnamed h⟩, fun t ht => ?_, fun _ _ => hnull⟩, fun g hg => ?_⟩
  · rw [hanonymous] at ht
    cases ht
  · refine absurd hg (not_inside fun s hs => ?_)
    rw [hnull] at hs
    cases hs

theorem anonymous_of_elemental {t : Bytes × VarlinkFieldType} (h : t ∈ elementalTypes) :
    t.2 ≠ .invalid ∧ t.2.anonymous = none ∧ t.2 ≠ .namedType := by
  revert h t
  decide

theorem FieldDeclared.throughout {n : Nat} {t : VarlinkSymbolType} {d : VarlinkFieldDirection}
    (h : FieldDeclared n t d f) : f.Throughout Declared := by
  induction h with
  | comment _ | enumValue _ => exact throughout_of_null rfl nofun rfl nofun
  | elemental _ _ _ htype =>
    obtain ⟨hvalid, hnone, hnamed⟩ := anonymous_of_elemental htype
    exact throughout_of_null rfl hvalid hnone fun h => absurd h hnamed
  | named _ _ _ _ => exact throughout_of_null rfl nofun rfl fun _ => nofun
  | @anonymous n t d name flags type s _ _ _ htype _ _ ih =>
    refine ⟨⟨?_, ?_, fun t ht => ⟨s, rfl, ?_⟩, ?_⟩, fun g hg => ?_⟩
    · rintro rfl
      cases htype
    · rintro rfl
      cases htype
    · exact Option.some.inj (htype.symm.trans ht)
    · intro _ hnone
      rw [hnone] at htype
      cases htype
    · cases hg with
      | field hs hg =>
        cases hs
        exact (ih g hg).1
      | deeper hs hg hh =>
        cases hs
        exact (ih _ hg).2 g hh

theorem SymbolDeclared.throughout {s : VarlinkSymbol} (h : SymbolDeclared s) : ∀ f ∈ s.fields, f.Throughout Declared := by
  cases h with
  | comment _ _ => exact nofun
  | type _ _ hfields | error hfields => exact fun f hf => (hfields f hf).throughout
  | method hinput houtput =>
    intro f hf
    exact (mem_append.mp hf).elim (fun hf => (hinput f hf).throughout) fun hf => (houtput f hf).throughout

/-! ## Resolving types -/

/-- Two lists whose elements are related one by one, at a place. -/
theorem forall₂_getElem? {α β : Type} {R : α → β → Prop} {as : List α} {bs : List β} (h : List.Forall₂ R as bs) {k : Nat}
    {a : α} (ha : as[k]? = some a) : ∃ b, bs[k]? = some b ∧ R a b := by
  induction h generalizing k with
  | nil => cases ha
  | cons hab _ ih =>
    cases k with
    | zero =>
      cases ha
      exact ⟨_, rfl, hab⟩
    | succ k => exact ih ha

theorem forall₂_mem {α β : Type} {R : α → β → Prop} {as : List α} {bs : List β} (h : List.Forall₂ R as bs) {a : α}
    (ha : a ∈ as) : ∃ b ∈ bs, R a b := by
  obtain ⟨k, hk⟩ := mem_iff_getElem?.mp ha
  obtain ⟨b, hb, hab⟩ := forall₂_getElem? h hk
  exact ⟨b, mem_of_getElem? hb, hab⟩

/-- A named type field without a symbol points to the type of this name afterwards; other fields stay as they are. -/
def ResolvesTo (i : VarlinkInterface) (f g : VarlinkField) : Prop :=
  f.fieldType ≠ .namedType ∧ g = f ∨
  f.fieldType = .namedType ∧ ∃ k s, g = { f with symbol := .named k } ∧ i.symbols[k]? = some s ∧
    s.name = f.namedType ∧ (s.symbolType = .structType ∨ s.symbolType = .enumType)

theorem findSymbol_ends (i : VarlinkInterface) (name : Bytes) (c : VarlinkIdlPosition) :
    Ends (findSymbol i .invalid name) c fun found _ =>
      ∀ k, found = some k → ∃ s, i.symbols[k]? = some s ∧ s.name = some name := by
  refine assert_bind (by decide) (pure fun k hk => ?_)
  by_cases hname : name = []
  · rw [if_pos hname] at hk
    cases hk
  · rw [if_neg hname] at hk
    obtain ⟨hlt, hfound, -⟩ := findIdx?_eq_some_iff_getElem.mp hk
    refine ⟨_, getElem?_eq_getElem hlt, ?_⟩
    exact (of_decide_eq_true hfound).2

theorem resolveField_ends (h : Declared f) (c : VarlinkIdlPosition) :
    Ends (resolveField i f) c fun g _ => ResolvesTo i f g := by
  refine ite (fun hne => pure (.inl ⟨hne, rfl⟩)) fun hnamed => ?_
  have htype : f.fieldType = .namedType := Decidable.not_not.mp hnamed
  obtain ⟨hnull, hname⟩ := h.named htype
  obtain ⟨name, hname⟩ := Option.ne_none_iff_exists'.mp hname
  rw [hnull, hname]
  refine bind (findSymbol_ends i name c) fun found c' hfound => ?_
  cases found with
  | none => exact fail _
  | some k =>
    obtain ⟨s, hs, hsname⟩ := hfound k rfl
    refine ite (fun hkind => pure (.inr ⟨htype, k, s, by rw [← hname], hs, ?_, ?_⟩)) fun _ =>
      fail _
    · exact hsname.trans hname.symm
    · rw [hs] at hkind
      exact of_decide_eq_true hkind

theorem resolveFields_ends {fs : List VarlinkField} (h : ∀ f ∈ fs, Declared f) (c : VarlinkIdlPosition) :
    Ends (resolveFields i fs) c fun gs _ => List.Forall₂ (ResolvesTo i) fs gs := by
  induction fs generalizing c with
  | nil => exact pure .nil
  | cons f fs ih =>
    refine bind (resolveField_ends (h f (.head _)) c) fun g c' hg => ?_
    refine bind (ih (fun f hf => h f (.tail _ hf)) c') fun gs _ hgs => ?_
    exact pure (.cons hg hgs)

/-- A symbol keeps its name and its type. -/
structure ResolvesSymbol (i : VarlinkInterface) (s t : VarlinkSymbol) : Prop where
  name : t.name = s.name
  symbolType : t.symbolType = s.symbolType
  fields : List.Forall₂ (ResolvesTo i) s.fields t.fields

theorem resolveSymbols_ends {ss : List VarlinkSymbol} (h : ∀ s ∈ ss, SymbolDeclared s)
    (c : VarlinkIdlPosition) :
    Ends (resolveSymbols i ss) c fun ts _ => List.Forall₂ (ResolvesSymbol i) ss ts := by
  induction ss generalizing c with
  | nil => exact pure .nil
  | cons s ss ih =>
    refine bind (Q := fun t _ => ResolvesSymbol i s t) ?_ fun t c' ht => ?_
    · refine bind (resolveFields_ends (fun f hf => ((h s (.head _)).throughout f hf).1) c) fun fs _ hfs => ?_
      exact pure ⟨rfl, rfl, hfs⟩
    · refine bind (ih (fun s hs => h s (.tail _ hs)) c') fun ts _ hts => ?_
      exact pure (.cons ht hts)

/-! ## The parser -/

/-- The interface `i` is `d` with the types resolved. -/
structure ResolvesInterface (d i : VarlinkInterface) : Prop where
  declared : ∀ s ∈ d.symbols, SymbolDeclared s
  symbols : List.Forall₂ (ResolvesSymbol d) d.symbols i.symbols

theorem ResolvesInterface.resolved {d : VarlinkInterface} (h : ResolvesInterface d i) (hf : Declared f)
    (hg : ResolvesTo d f g) : g.Resolved i := by
  rcases hg with ⟨hne, rfl⟩ | ⟨htype, k, s, rfl, hs, hname, hkind⟩
  · exact ⟨hf.determined, fun htype => absurd htype hne, hf.owns, hf.none⟩
  · obtain ⟨t, ht, hst⟩ := forall₂_getElem? h.symbols hs
    refine ⟨hf.determined, fun _ => ⟨k, t, rfl, ht, (hf.named htype).2, hst.name.trans hname, ?_⟩, fun u hu => ?_, ?_⟩
    · rw [hst.symbolType]
      exact hkind
    · rw [htype] at hu
      cases hu
    · exact fun hne => absurd htype hne

/-- A field inside another one is resolved exactly if it has no named type. -/
theorem resolved_iff_of_declared (h : Declared f) : f.Resolved i ↔ f.fieldType ≠ .namedType := by
  refine ⟨fun hresolved htype => ?_, fun hne => ⟨h.determined, fun htype => absurd htype hne, h.owns, h.none⟩⟩
  obtain ⟨k, s, hk, -⟩ := hresolved.named htype
  rw [(h.named htype).1] at hk
  cases hk

/-- Fields in which there are others stay as they are. -/
theorem eq_of_inside {x : VarlinkField} (h : ResolvesTo i f g) (hx : g.Inside x) : g = f := by
  rcases h with ⟨-, rfl⟩ | ⟨-, k, s, rfl, -⟩
  · rfl
  · exact absurd hx (not_inside fun s hs => nomatch hs)

theorem ResolvesInterface.fullyResolved_iff {d : VarlinkInterface} (h : ResolvesInterface d i) :
    i.FullyResolved ↔ d.NamesOutside := by
  constructor
  · intro hi s hs f hf g hg
    obtain ⟨t, ht, hst⟩ := forall₂_mem h.symbols hs
    obtain ⟨f', hf', hresolves⟩ := forall₂_mem hst.fields hf
    have hdeclared := (h.declared s hs).throughout f hf
    refine (resolved_iff_of_declared (i := i) (hdeclared.2 g hg)).mp ?_
    rcases hresolves with ⟨-, rfl⟩ | ⟨htype, -⟩
    · exact (hi t ht f' hf').2 g hg
    · refine absurd hg (not_inside fun s hs => ?_)
      rw [(hdeclared.1.named htype).1] at hs
      cases hs
  · intro hd t ht f' hf'
    obtain ⟨s, hs, hst⟩ := forall₂_mem h.symbols.flip ht
    obtain ⟨f, hf, hresolves⟩ := forall₂_mem hst.fields.flip hf'
    have hdeclared := (h.declared s hs).throughout f hf
    refine ⟨h.resolved hdeclared.1 hresolves, fun g hg => ?_⟩
    rw [eq_of_inside hresolves hg] at hg
    exact (resolved_iff_of_declared (hdeclared.2 g hg)).mpr (hd s hs f hf g hg)

/-- What a parsed interface comes from. -/
theorem resolveTypes_ends {interface : Option VarlinkInterface} (h : DeclaredInterface interface)
    (c : VarlinkIdlPosition) :
    Ends (resolveTypes interface) c fun i _ => ∃ d, interface = some d ∧ ResolvesInterface d i := by
  obtain ⟨d, rfl, hd⟩ := h
  refine bind (resolveSymbols_ends hd c) fun ts c' hts => pure ?_
  exact ⟨d, rfl, hd, hts⟩

/-- The parser ends without a failed assertion for every text.  An interface that it returns is `FullyResolved`
    exactly if what `declarations` had read when it came to `resolveTypes` is `NamesOutside`: no field of an anonymous
    type had a named type. -/
theorem parse_fullyResolved_iff (text : Bytes) (line column : UInt32) :
    (∃ r, parse text line column = some r) ∧
      ∀ i line' column', parse text line column = some (.ok i, line', column') →
        (i.FullyResolved ↔
          ∀ d c, declarations text ⟨text, line, column⟩ = some (.ok (some d), c) → d.NamesOutside) := by
  obtain ⟨r, c, hrun, hr⟩ : Ends (declarations text >>= resolveTypes) ⟨text, line, column⟩ fun i _ =>
      ∃ d c, declarations text ⟨text, line, column⟩ = some (.ok (some d), c) ∧ ResolvesInterface d i := by
    refine bind (declarations_ends text line column).attach fun interface c h => ?_
    refine (resolveTypes_ends h.2 c).mono ?_
    rintro i - ⟨d, rfl, hd⟩
    exact ⟨d, c, h.1, hd⟩
  unfold parse
  rw [hrun]
  refine ⟨⟨_, rfl⟩, ?_⟩
  rintro i line' column' ⟨⟩
  obtain ⟨d, c', hd, hresolves⟩ := hr i rfl
  refine hresolves.fullyResolved_iff.trans ⟨fun h d' c'' hd' => ?_, fun h => h d c' hd⟩
  obtain rfl : d = d' := by
    rw [hd] at hd'
    cases hd'
    rfl
  exact h

/-- The fields of the anonymous type of a field. -/
def anonymousFields (f : VarlinkField) : List VarlinkField :=
  match f.symbol with
  | .anonymous s => s.fields
  | _ => []

/-- A field points to no symbol. -/
def isDangling (f : VarlinkField) : Bool :=
  match f.symbol with
  | .null => true
  | _ => false

theorem inside_of_anonymousFields (h : g ∈ anonymousFields f) : f.Inside g := by
  unfold anonymousFields at h
  cases hs : f.symbol with
  | anonymous s =>
    rw [hs] at h
    exact .field hs h
  | null | named k =>
    rw [hs] at h
    cases h

/-- Where a named type in an anonymous one is not resolved, the interface is not fully resolved. -/
theorem not_fullyResolved_of_dangling
    (h : (i.symbols.any fun s => s.fields.any fun f => (anonymousFields f).any fun g =>
      g.fieldType = .namedType && isDangling g) = true) : ¬ i.FullyResolved := by
  intro hresolved
  obtain ⟨s, hs, h⟩ := any_eq_true.mp h
  obtain ⟨f, hf, h⟩ := any_eq_true.mp h
  obtain ⟨g, hg, h⟩ := any_eq_true.mp h
  obtain ⟨htype, hnull⟩ := Bool.and_eq_true_iff.mp h
  obtain ⟨k, t, hk, -⟩ := ((hresolved s hs f hf).2 g (inside_of_anonymousFields hg)).named (of_decide_eq_true htype)
  unfold isDangling at hnull
  rw [hk] at hnull
  cases hnull

/-- A type with an anonymous type in it that has a named type. -/
def nestedNameText : Bytes := ascii "interface a.b\ntype T (a: (b: T))"

theorem parse_nestedName :
    ∃ i line column, parse nestedNameText 0 1 = some (.ok i, line, column) ∧
      (i.symbols.any fun s => s.fields.any fun f => (anonymousFields f).any fun g =>
        g.fieldType = .namedType && isDangling g) = true := by
  have h : (parse nestedNameText 0 1).any (fun r => r.1.toOption.any fun i =>
      i.symbols.any fun s => s.fields.any fun f => (anonymousFields f).any fun g =>
        g.fieldType = .namedType && isDangling g) = true := by
    decide +kernel
  obtain ⟨⟨r, line, column⟩, hr, h⟩ := (Option.any_eq_true _ _).mp h
  cases r with
  | error e => cases h
  | ok i => exact ⟨i, line, column, hr, h⟩

/-- The named type inside the anonymous one is not looked up. -/
theorem not_fullyResolved_nestedName :
    ∃ i line column, parse nestedNameText 0 1 = some (.ok i, line, column) ∧ ¬ i.FullyResolved := by
  obtain ⟨i, line, column, hparse, h⟩ := parse_nestedName
  exact ⟨i, line, column, hparse, not_fullyResolved_of_dangling h⟩

/-- So one of its declarations has a name inside an anonymous type. -/
theorem parse_fullyResolved_iff_nestedName :
    ∃ i line column, parse nestedNameText 0 1 = some (.ok i, line, column) ∧ ¬ i.FullyResolved ∧
      ∃ d c, declarations nestedNameText ⟨nestedNameText, 0, 1⟩ = some (.ok (some d), c) ∧ ¬ d.NamesOutside := by
  obtain ⟨i, line, column, hparse, hdangling⟩ := parse_nestedName
  have hnot := not_fullyResolved_of_dangling hdangling
  have houtside := mt ((parse_fullyResolved_iff nestedNameText 0 1).2 i line column hparse).mpr hnot
  push Not at houtside
  exact ⟨i, line, column, hparse, hnot, houtside⟩

end VarlinkIdl

end Elogind
