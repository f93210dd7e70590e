/-
  Elogind.Varlink.IdlDeclared

  What the parser of interface descriptions has read when it comes to the named types.  It ends without a failed
  assertion for every text, and each symbol that is declared has the fields that its type allows.
-/

import Elogind.Varlink.Idl
import Mathlib.Data.List.TakeWhile

namespace Elogind

open Byte Errno Lib Checked List Ends

/-! ## Fields -/

/-- A text without an end of a line in it. -/
def IsLine (s : Bytes) : Prop := utf8IsValid s = true ∧ ∀ c ∈ s, isNewline c = false

/-- The symbol that a field of this type owns has this type. -/
def VarlinkFieldType.anonymous : VarlinkFieldType → Option VarlinkSymbolType
  | .struct => some .structType
  | .enum => some .enumType
  | _ => none

namespace VarlinkIdl

/-- A token of the characters for identifiers. -/
def Identifier (s : Bytes) : Prop := s ≠ [] ∧ ∀ c ∈ s, validCharsIdentifier.contains c = true

/-- A symbol of this type has fields with types. -/
def StructLike (t : VarlinkSymbolType) : Prop := t ≠ .invalid ∧ t ≠ .enumType

/-- A field of a symbol of this type that has been read for this direction, with at most `n` anonymous types in one
    another. -/
inductive FieldDeclared : Nat → VarlinkSymbolType → VarlinkFieldDirection → VarlinkField → Prop where
  | comment {n : Nat} {t : VarlinkSymbolType} {d : VarlinkFieldDirection} {text : Bytes} (htext : IsLine text) :
      FieldDeclared n t d (.new text .comment .regular)
  | enumValue {n : Nat} {d : VarlinkFieldDirection} {name : Bytes} (hname : Identifier name) :
      FieldDeclared n .enumType d (.new name .enumValue .regular)
  | elemental {n : Nat} {t : VarlinkSymbolType} {d : VarlinkFieldDirection} {name : Bytes} {flags : VarlinkFieldFlags}
      {type : Bytes × VarlinkFieldType} (ht : StructLike t) (hname : Identifier name)
      (hflags : (flags.map && flags.array) = false) (htype : type ∈ elementalTypes) :
      FieldDeclared n t d ⟨name, type.2, flags, d, .null, none⟩
  | named {n : Nat} {t : VarlinkSymbolType} {d : VarlinkFieldDirection} {name type : Bytes} {flags : VarlinkFieldFlags}
      (ht : StructLike t) (hname : Identifier name) (hflags : (flags.map && flags.array) = false)
      (htype : Identifier type) : FieldDeclared n t d ⟨name, .namedType, flags, d, .null, some type⟩
  | anonymous {n : Nat} {t : VarlinkSymbolType} {d : VarlinkFieldDirection} {name : Bytes} {flags : VarlinkFieldFlags}
      {type : VarlinkFieldType} {s : VarlinkSymbol} (ht : StructLike t) (hname : Identifier name)
      (hflags : (flags.map && flags.array) = false) (htype : type.anonymous = some s.symbolType)
      (hreal : ∃ f ∈ s.fields, f.fieldType ≠ .comment)
      (hfields : ∀ f ∈ s.fields, FieldDeclared n s.symbolType .regular f) :
      FieldDeclared (n + 1) t d ⟨name, type, flags, d, .anonymous s, none⟩

variable {t : VarlinkSymbolType} {name : Bytes} {fuel : Nat}

/-- Before the type of a symbol is known there are comments only. -/
theorem FieldDeclared.of_invalid {n : Nat} {d : VarlinkFieldDirection} {f : VarlinkField}
    (h : FieldDeclared n .invalid d f) : FieldDeclared n t d f := by
  cases h with
  | comment htext => exact .comment htext
  | elemental ht _ _ _ | named ht _ _ _ | anonymous ht _ _ _ _ _ => exact absurd rfl ht.1

/-! ## Reading ends -/

/-- Nothing is read twice. -/
def NoMore (c c' : VarlinkIdlPosition) : Prop := c'.p.length ≤ c.p.length

theorem skip_ends (l : Nat) (c : VarlinkIdlPosition) : Ends (skip l) c fun _ c' => c'.p = c.p.drop l :=
  modify rfl

theorem skip_noMore (l : Nat) (c : VarlinkIdlPosition) : Ends (skip l) c fun _ c' => NoMore c c' := by
  refine (skip_ends l c).mono fun _ c' h => ?_
  unfold NoMore
  rw [h, length_drop]
  exact Nat.sub_le _ _

theorem subparseWhitespace_ends (c : VarlinkIdlPosition) : Ends subparseWhitespace c fun _ c' => NoMore c c' :=
  get_bind (skip_noMore _ _)

/-- A token is one of the delimiters, or consists of the characters that are allowed. -/
def IsToken (d a t : Bytes) : Prop :=
  (∃ c, t = [c] ∧ d.contains c = true) ∨ t ≠ [] ∧ ∀ c ∈ t, a.contains c = true

theorem isToken_take {d a p : Bytes} (h : tokenMatch p d a ≠ 0) : IsToken d a (p.take (tokenMatch p d a)) := by
  unfold tokenMatch at h ⊢
  by_cases hd : p.head?.any d.contains = true
  · rw [if_pos hd]
    obtain ⟨c, hc, hcd⟩ := (Option.any_eq_true _ _).mp hd
    obtain ⟨s, rfl⟩ := head?_eq_some_iff.mp hc
    exact .inl ⟨c, rfl, hcd⟩
  · rw [if_neg hd] at h ⊢
    have htake : p.take (strspn p a) = p.takeWhile a.contains :=
      prefix_iff_eq_take.mp (List.takeWhile_prefix _) |>.symm
    rw [htake]
    refine .inr ⟨fun hnil => h ?_, fun c hc => mem_takeWhile_imp hc⟩
    unfold strspn
    rw [hnil]
    rfl

/-- What is known of a token that was read from `c` on. -/
def TokenRead (d a : Bytes) (c : VarlinkIdlPosition) (t : Option Bytes) (c' : VarlinkIdlPosition) : Prop :=
  NoMore c c' ∧ ∀ token, t = some token → IsToken d a token ∧ c'.p.length < c.p.length

theorem takeToken_ends {d a : Bytes} {c : VarlinkIdlPosition} (hl : tokenMatch c.p d a ≠ 0) (hp : c.p ≠ []) :
    Ends (takeToken (tokenMatch c.p d a)) c (TokenRead d a c) := by
  refine get_bind (bind (skip_ends _ _) fun _ c' h => pure ?_)
  have hpos := length_pos_iff.mpr hp
  have hless : c'.p.length < c.p.length := by
    rw [h, length_drop]
    omega
  refine ⟨Nat.le_of_lt hless, ?_⟩
  rintro token ⟨⟩
  exact ⟨isToken_take hl, hless⟩

/-- A token has an octet at least, and the end of the text is told. -/
theorem subparseToken_ends (d a : Bytes) (c : VarlinkIdlPosition) : Ends (subparseToken d a) c (TokenRead d a c) := by
  refine get_bind ?_
  refine ite (fun _ => pure ⟨Nat.le_refl _, nofun⟩) fun hp => ?_
  refine ite (fun _ => ?_) fun hl => takeToken_ends hl hp
  refine bind (subparseWhitespace_ends _) fun _ c' hmore => get_bind ?_
  refine ite (fun _ => pure ⟨hmore, nofun⟩) fun hp' => ?_
  refine ite (fun _ => fail _) fun hl => (takeToken_ends hl hp').mono fun t c'' h => ?_
  exact ⟨Nat.le_trans h.1 hmore, fun token ht => ⟨(h.2 token ht).1, Nat.lt_of_lt_of_le (h.2 token ht).2 hmore⟩⟩

theorem utf8IsValid_tail {s : Bytes} (hs : utf8IsValid s = true) (hspace : s.head? = some space) :
    utf8IsValid s.tail = true := by
  obtain ⟨t, rfl⟩ := head?_eq_some_iff.mp hspace
  exact utf8IsValid_dropsAscii (.drop (by decide) (.refl t)) hs

theorem subparseComment_ends (c : VarlinkIdlPosition) :
    Ends subparseComment c fun text c' => NoMore c c' ∧ IsLine text := by
  refine get_bind (ite (fun hvalid => ?_) fun _ => fail _)
  refine bind (modify (Q := fun _ c' => NoMore c c') ?_) fun _ c' h => pure ⟨h, ?_⟩
  · unfold NoMore
    rw [length_drop]
    exact Nat.sub_le _ _
  · have hline : ∀ x ∈ c.p.takeWhile (fun x => !isNewline x), isNewline x = false := by
      intro x hx
      have hnot : (!isNewline x) = true := mem_takeWhile_imp (p := fun x => !isNewline x) hx
      exact Bool.not_eq_true' _ |>.mp hnot
    by_cases hspace : (c.p.takeWhile fun x => !isNewline x).head? = some space
    · rw [if_pos hspace]
      exact ⟨utf8IsValid_tail hvalid hspace, fun x hx => hline x (mem_of_mem_tail hx)⟩
    · rw [if_neg hspace]
      exact ⟨hvalid, hline⟩

/-- Marks change the flags only. -/
theorem subparseNullable_ends (field : VarlinkField) (c : VarlinkIdlPosition) :
    Ends (subparseNullable field) c fun f c' => NoMore c c' ∧ ∃ flags, f = { field with fieldFlags := flags } := by
  refine get_bind (ite (fun _ => ?_) fun _ => pure ⟨Nat.le_refl _, _, rfl⟩)
  exact bind (skip_noMore _ _) fun _ c' h => pure ⟨h, _, rfl⟩

/-- A field is not both an array and a map. -/
theorem subparseContainer_ends (field : VarlinkField) (c : VarlinkIdlPosition) :
    Ends (subparseContainer field) c fun f c' =>
      NoMore c c' ∧ ∃ flags, f = { field with fieldFlags := flags } ∧ (flags.map && flags.array) = false := by
  refine get_bind (ite (fun _ => ?_) fun _ => ite (fun _ => ?_) fun _ => ?_)
  · exact bind (skip_noMore _ _) fun _ c' h => pure ⟨h, _, rfl, rfl⟩
  · exact bind (skip_noMore _ _) fun _ c' h => pure ⟨h, _, rfl, rfl⟩
  · exact pure ⟨Nat.le_refl _, _, rfl, rfl⟩

/-! ## Reading types and fields -/

/-- What is known of an anonymous type that is read from `c` on, where a field with it has at most `n` anonymous types in
    one another. -/
def ReadsAnonymous (n : Nat) (anonymous : VarlinkIdl VarlinkSymbol) (c : VarlinkIdlPosition) : Prop :=
  Ends anonymous c fun s c' => NoMore c c' ∧ 0 < n ∧ (s.symbolType = .structType ∨ s.symbolType = .enumType) ∧
    (∃ f ∈ s.fields, f.fieldType ≠ .comment) ∧ ∀ f ∈ s.fields, FieldDeclared (n - 1) s.symbolType .regular f

theorem ne_comment_of_elemental {t : Bytes × VarlinkFieldType} (h : t ∈ elementalTypes) : t.2 ≠ .comment := by
  revert h t
  decide

theorem subparseFieldType_ends {n : Nat} {d : VarlinkFieldDirection}
    {anonymous : VarlinkIdl VarlinkSymbol} {c : VarlinkIdlPosition} (ht : StructLike t)
    (hname : Identifier name) (hanonymous : ∀ c', NoMore c c' → ReadsAnonymous n anonymous c') :
    Ends (subparseFieldType anonymous (.new name .invalid d)) c fun f c' =>
      NoMore c c' ∧ FieldDeclared n t d f ∧ f.fieldType ≠ .comment := by
  refine bind (subparseWhitespace_ends c) fun _ c₁ h₁ => ?_
  refine bind (subparseNullable_ends _ c₁) ?_
  rintro _ c₂ ⟨h₂, _, rfl⟩
  refine bind (subparseContainer_ends _ c₂) ?_
  rintro _ c₃ ⟨h₃, flags, rfl, hflags⟩
  have h : NoMore c c₃ := Nat.le_trans h₃ (Nat.le_trans h₂ h₁)
  refine get_bind ?_
  cases hfind : elementalTypes.find? fun t => (startswith c₃.p t.1).isSome with
  | some type =>
    have hmem := mem_of_find?_eq_some hfind
    refine bind (skip_noMore _ c₃) fun _ c₄ h₄ => pure ⟨Nat.le_trans h₄ h, ?_, ?_⟩
    · exact .elemental ht hname hflags hmem
    · exact ne_comment_of_elemental hmem
  | none =>
    refine ite (fun _ => ?_) fun _ => ?_
    · refine bind (hanonymous c₃ h) ?_
      rintro s c₄ ⟨h₄, hn, htype, hreal, hfields⟩
      obtain ⟨m, rfl⟩ : ∃ m, n = m + 1 := ⟨n - 1, (Nat.succ_pred_eq_of_pos hn).symm⟩
      refine ite (fun hstruct => pure ⟨Nat.le_trans h₄ h, ?_, nofun⟩) fun hstruct => ?_
      · exact .anonymous ht hname hflags (congrArg some hstruct.symm) hreal hfields
      · have henum : s.symbolType = .enumType := htype.resolve_left hstruct
        refine assert_bind henum (pure ⟨Nat.le_trans h₄ h, ?_, nofun⟩)
        exact .anonymous ht hname hflags (congrArg some henum.symm) hreal hfields
    · refine bind (subparseToken_ends _ _ c₃) ?_
      rintro token c₄ ⟨h₄, htoken⟩
      cases token with
      | none => exact fail _
      | some token =>
        refine pure ⟨Nat.le_trans h₄ h, .named ht hname hflags ?_, nofun⟩
        exact (htoken token rfl).1.resolve_left fun ⟨_, _, hc⟩ => nomatch hc

/-- The type of a symbol while it is read, where it was `t`. -/
def TypeFrom (t symbolType : VarlinkSymbolType) : Prop :=
  symbolType = t ∨ t = .invalid ∧ (symbolType = .structType ∨ symbolType = .enumType)

/-- A type that is not known is found out. -/
theorem TypeFrom.known {u w : VarlinkSymbolType} (h : TypeFrom t u)
    (hw : w = .structType ∨ w = .enumType) : TypeFrom t (if u = .invalid then w else u) := by
  by_cases hinvalid : u = .invalid
  · rw [if_pos hinvalid]
    rcases h with htype | ⟨htype, -⟩
    · exact .inr ⟨htype.symm.trans hinvalid, hw⟩
    · exact .inr ⟨htype, hw⟩
  · rw [if_neg hinvalid]
    exact h

/-- The fields that were read of a symbol, behind those that it had. -/
structure FieldsRead (n : Nat) (d : VarlinkFieldDirection) (s : VarlinkSymbol) (new : List VarlinkField)
    (s' : VarlinkSymbol) : Prop where
  symbol : s' = { s with symbolType := s'.symbolType, fields := s.fields ++ new }
  symbolType : TypeFrom s.symbolType s'.symbolType
  declared : ∀ f ∈ new, FieldDeclared n s'.symbolType d f
  real : s.symbolType = .invalid → s'.symbolType ≠ .invalid → ∃ f ∈ new, f.fieldType ≠ .comment

section Append

variable {n : Nat} {d : VarlinkFieldDirection} {s s' : VarlinkSymbol} {new : List VarlinkField} {f : VarlinkField}

theorem FieldsRead.nil (n : Nat) (d : VarlinkFieldDirection) (s : VarlinkSymbol) : FieldsRead n d s [] s where
  symbol := by rw [append_nil]
  symbolType := .inl rfl
  declared := nofun
  real hinvalid hne := absurd hinvalid hne

theorem FieldsRead.comment (h : FieldsRead n d s new s') {text : Bytes} (htext : IsLine text) :
    FieldsRead n d s (new ++ [.new text .comment .regular])
      { s' with fields := s'.fields ++ [.new text .comment .regular] } where
  symbol := by
    rw [h.symbol, append_assoc]
  symbolType := h.symbolType
  declared := forall_mem_append.mpr ⟨h.declared, forall_mem_singleton.mpr (.comment htext)⟩
  real hinvalid hne := by
    obtain ⟨f, hf, hfield⟩ := h.real hinvalid hne
    exact ⟨f, mem_append_left _ hf, hfield⟩

/-- A field that is not a comment makes the type known. -/
theorem FieldsRead.field (h : FieldsRead n d s new s') {w : VarlinkSymbolType} (hw : w = .structType ∨ w = .enumType)
    (hf : FieldDeclared n (if s'.symbolType = .invalid then w else s'.symbolType) d f) (hreal : f.fieldType ≠ .comment) :
    FieldsRead n d s (new ++ [f])
      { s' with symbolType := if s'.symbolType = .invalid then w else s'.symbolType, fields := s'.fields ++ [f] } where
  symbol := by
    rw [h.symbol, append_assoc]
  symbolType := h.symbolType.known hw
  declared := by
    refine forall_mem_append.mpr ⟨fun g hg => ?_, forall_mem_singleton.mpr hf⟩
    have hdeclared := h.declared g hg
    show FieldDeclared n (if s'.symbolType = .invalid then w else s'.symbolType) d g
    by_cases hinvalid : s'.symbolType = .invalid
    · rw [hinvalid] at hdeclared
      exact hdeclared.of_invalid
    · rw [if_neg hinvalid]
      exact hdeclared
  real _ _ := ⟨f, mem_append_right _ (.head _), hreal⟩

end Append

/-- The delimiters that are allowed where a name is expected, at first and behind a comma. -/
theorem nameDelimiters :
    (∀ c, (ascii ")#").contains c = true → [c] = ascii ")" ∨ [c] = ascii "#") ∧
      ∀ c, (ascii "#").contains c = true → [c] = ascii ")" ∨ [c] = ascii "#" := by
  have hfirst : ∀ c ∈ ascii ")#", [c] = ascii ")" ∨ [c] = ascii "#" := by decide +kernel
  have hlater : ∀ c ∈ ascii "#", [c] = ascii ")" ∨ [c] = ascii "#" := by decide +kernel
  exact ⟨fun c hc => hfirst c (List.contains_iff_mem.mp hc), fun c hc => hlater c (List.contains_iff_mem.mp hc)⟩

/-- The variables of `varlink_idl_subparse_struct_or_enum` while the fields of `s` are read for one direction. -/
structure FieldsParser.Sound (n : Nat) (d : VarlinkFieldDirection) (s : VarlinkSymbol) (v : FieldsParser) : Prop where
  noName : v.state ≠ .colon → v.fieldName = none
  someName : v.state = .colon → ∃ name, v.fieldName = some name ∧ Identifier name
  chars : v.state = .name → v.allowedChars = validCharsIdentifier ∧
    ∀ c, v.allowedDelimiters.contains c = true → [c] = ascii ")" ∨ [c] = ascii "#"
  read : ∃ new, FieldsRead n d s new v.symbol

section Steps

variable {n : Nat} {d : VarlinkFieldDirection} {s : VarlinkSymbol} {v : FieldsParser} {c c₀ : VarlinkIdlPosition}

/-- What a step makes of the variables. -/
def StepTo (n : Nat) (d : VarlinkFieldDirection) (s : VarlinkSymbol) (token : Option Bytes) (c : VarlinkIdlPosition)
    (v : FieldsParser) (c' : VarlinkIdlPosition) : Prop :=
  NoMore c c' ∧ v.Sound n d s ∧ token ≠ none

theorem FieldsParser.Sound.expectName {new : List VarlinkField} {s' : VarlinkSymbol}
    (hread : FieldsRead n d s new s') : FieldsParser.Sound n d s { v.expectName with fieldName := none, symbol := s' } where
  noName _ := rfl
  someName := nofun
  chars _ := ⟨rfl, nameDelimiters.2⟩
  read := ⟨new, hread⟩

/-- A state in which no name is expected, and none is there. -/
theorem FieldsParser.Sound.of_read {new : List VarlinkField} {v : FieldsParser} (hread : FieldsRead n d s new v.symbol)
    (hname : v.fieldName = none) (hstate : v.state ≠ .colon ∧ v.state ≠ .name) : v.Sound n d s :=
  ⟨fun _ => hname, fun h => absurd h hstate.1, fun h => absurd h hstate.2, new, hread⟩

variable {token : Option Bytes} {anonymous : VarlinkIdl VarlinkSymbol}

theorem nameStep_ends (h : v.Sound n d s) (hstate : v.state = .name)
    (htoken : ∀ x, token = some x → IsToken v.allowedDelimiters v.allowedChars x) :
    Ends (nameStep v token) c (StepTo n d s token c) := by
  have hname : v.fieldName = none := h.noName (by rw [hstate]; decide)
  obtain ⟨new, hread⟩ := h.read
  refine assert_bind hname ?_
  cases token with
  | none => exact fail _
  | some token =>
    refine ite (fun _ => ?_) fun hcomment => ite (fun _ => ?_) fun hclose => ?_
    · refine bind (subparseComment_ends c) ?_
      rintro comment c' ⟨hmore, hline⟩
      exact pure ⟨hmore, ⟨h.noName, h.someName, h.chars, _, hread.comment hline⟩, nofun⟩
    · exact pure ⟨Nat.le_refl _, .of_read hread hname ⟨nofun, nofun⟩, nofun⟩
    · refine pure ⟨Nat.le_refl _, ⟨fun hne => absurd rfl hne, fun _ => ⟨token, rfl, ?_⟩, nofun, new, hread⟩, nofun⟩
      obtain ⟨hchars, hdelimiters⟩ := h.chars hstate
      rcases htoken token rfl with ⟨x, rfl, hx⟩ | hidentifier
      · exact absurd (hdelimiters x hx) (not_or.mpr ⟨hclose, hcomment⟩)
      · rwa [hchars] at hidentifier

theorem structFieldStep_ends {name : Bytes} (h : v.Sound n d s) (hname : Identifier name)
    (hanonymous : ∀ c', NoMore c c' → ReadsAnonymous n anonymous c') :
    Ends (structFieldStep anonymous d v name) c fun v' c' => NoMore c c' ∧ v'.Sound n d s := by
  obtain ⟨new, hread⟩ := h.read
  refine ite (fun _ => fail _) fun henum => ?_
  have ht : StructLike (if v.symbol.symbolType = .invalid then .structType else v.symbol.symbolType) := by
    refine ⟨fun hinvalid => ?_, henum⟩
    by_cases htype : v.symbol.symbolType = .invalid
    · rw [if_pos htype] at hinvalid
      cases hinvalid
    · rw [if_neg htype] at hinvalid
      exact htype hinvalid
  refine bind (subparseFieldType_ends ht hname hanonymous) ?_
  rintro field c' ⟨hmore, hfield, hreal⟩
  exact pure ⟨hmore, .of_read (hread.field (.inl rfl) hfield hreal) rfl ⟨nofun, nofun⟩⟩

theorem enumValueStep_ends {name token : Bytes} (h : v.Sound n d s) (hname : Identifier name)
    (htoken : token = ascii "," ∨ token = ascii ")") :
    Ends (enumValueStep v name token) c fun v' c' => NoMore c c' ∧ v'.Sound n d s := by
  obtain ⟨new, hread⟩ := h.read
  refine Ends.ite (fun _ => Ends.fail _) fun henum => ?_
  have htype : (if v.symbol.symbolType = .invalid then .enumType else v.symbol.symbolType) = VarlinkSymbolType.enumType :=
    Decidable.not_not.mp henum
  have hvalue := hread.field (f := .new name .enumValue .regular) (.inr rfl) (by rw [htype]; exact .enumValue hname) nofun
  refine ite (fun _ => pure ⟨Nat.le_refl _, FieldsParser.Sound.expectName (v := v) hvalue⟩) fun hcomma => ?_
  refine assert_bind (htoken.resolve_left hcomma) (pure ⟨Nat.le_refl _, ?_⟩)
  exact .of_read hvalue rfl ⟨nofun, nofun⟩

theorem colonStep_ends (h : v.Sound n d s) (hstate : v.state = .colon)
    (hanonymous : token ≠ none → ∀ c', NoMore c c' → ReadsAnonymous n anonymous c') :
    Ends (colonStep anonymous d v token) c (StepTo n d s token c) := by
  obtain ⟨name, hfieldName, hname⟩ := h.someName hstate
  unfold colonStep
  rw [hfieldName]
  cases token with
  | none => exact fail _
  | some token =>
    refine ite (fun _ => ?_) fun _ => ite (fun htoken => ?_) fun _ => fail _
    · exact (structFieldStep_ends h hname (hanonymous nofun)).mono fun _ _ hv => ⟨hv.1, hv.2, nofun⟩
    · exact (enumValueStep_ends h hname htoken).mono fun _ _ hv => ⟨hv.1, hv.2, nofun⟩

theorem commaStep_ends (h : v.Sound n d s) (hstate : v.state = .comma) (token : Option Bytes) :
    Ends (commaStep v token) c (StepTo n d s token c) := by
  have hname : v.fieldName = none := h.noName (by rw [hstate]; decide)
  obtain ⟨new, hread⟩ := h.read
  refine assert_bind hname ?_
  cases token with
  | none => exact fail _
  | some token =>
    refine ite (fun _ => ?_) fun _ => ite (fun _ => ?_) fun _ => fail _
    · refine pure ⟨Nat.le_refl _, ?_, nofun⟩
      have hexpect : FieldsParser.Sound n d s { v.expectName with fieldName := none, symbol := v.symbol } := .expectName hread
      rwa [← hname] at hexpect
    · exact pure ⟨Nat.le_refl _, .of_read hread hname ⟨nofun, nofun⟩, nofun⟩

theorem fieldsStep_ends (h : v.Sound n d s) (hstate : v.state ≠ .done)
    (htoken : ∀ x, token = some x → IsToken v.allowedDelimiters v.allowedChars x)
    (hanonymous : token ≠ none → ∀ c', NoMore c c' → ReadsAnonymous n anonymous c') :
    Ends (fieldsStep anonymous d v token) c (StepTo n d s token c) := by
  unfold fieldsStep
  cases hv : v.state with
  | opening =>
    refine ite (fun htoken => pure ⟨Nat.le_refl _, ?_, by rw [htoken]; exact nofun⟩) fun _ => fail _
    have hname : v.fieldName = none := h.noName (by rw [hv]; decide)
    exact {
      noName := fun _ => hname
      someName := nofun
      chars := fun _ => ⟨rfl, nameDelimiters.1⟩
      read := h.read }
  | name => exact nameStep_ends h hv htoken
  | colon => exact colonStep_ends h hv hanonymous
  | comma => exact commaStep_ends h hv token
  | done => exact absurd hv hstate

end Steps

theorem FieldsParser.Sound.start (n : Nat) (d : VarlinkFieldDirection) (s : VarlinkSymbol) :
    (FieldsParser.start s).Sound n d s :=
  .of_read (.nil n d s) rfl ⟨nofun, nofun⟩

/-- What is known of a symbol whose fields are read from `c` on, behind those of `s`. -/
def ReadsSymbol (n : Nat) (d : VarlinkFieldDirection) (s : VarlinkSymbol) (m : VarlinkIdl VarlinkSymbol)
    (c : VarlinkIdlPosition) : Prop :=
  Ends m c fun s' c' => NoMore c c' ∧ s'.symbolType ≠ .invalid ∧ ∃ new, FieldsRead n d s new s'

/-- The bound for the rounds is large enough when it is larger than the text. -/
theorem fieldsLoop_ends {d : VarlinkFieldDirection} {depth : Nat} {s : VarlinkSymbol} {v : FieldsParser}
    {c : VarlinkIdlPosition} (hfuel : c.p.length < fuel) (h : v.Sound (depthMax - depth) d s) :
    ReadsSymbol (depthMax - depth) d s (fieldsLoop fuel d depth v) c := by
  induction fuel generalizing d depth s v c with
  | zero => exact absurd hfuel (Nat.not_lt_zero _)
  | succ fuel ih =>
    refine ite (fun _ => ?_) fun hstate => ?_
    · exact ite (fun _ => fail _) fun htype => pure ⟨Nat.le_refl _, htype, h.read⟩
    · refine bind (subparseToken_ends _ _ c) ?_
      rintro token c₁ ⟨hmore, htoken⟩
      have hless (hne : token ≠ none) : c₁.p.length < fuel := by
        obtain ⟨x, hx⟩ := Option.ne_none_iff_exists'.mp hne
        have hread := (htoken x hx).2
        omega
      refine bind (fieldsStep_ends h hstate (fun x hx => (htoken x hx).1) fun hne c' hc' => ?_) ?_
      · refine ite (fun _ => fail _) fun hdepth => ?_
        refine (ih (Nat.lt_of_le_of_lt hc' (hless hne)) (.start _ .regular (.new none .invalid))).mono ?_
        rintro s' c'' ⟨hmore', hvalid, new, hread⟩
        have hpos : 0 < depthMax - depth := by omega
        refine ⟨hmore', hpos, (hread.symbolType.resolve_left hvalid).2, ?_⟩
        rw [hread.symbol]
        exact ⟨hread.real rfl hvalid, hread.declared⟩
      · rintro v' c₂ ⟨hmore₂, hv', hne⟩
        refine (ih (Nat.lt_of_le_of_lt hmore₂ (hless hne)) hv').mono ?_
        rintro s' c₃ ⟨hmore₃, hs'⟩
        exact ⟨Nat.le_trans hmore₃ (Nat.le_trans hmore₂ hmore), hs'⟩

theorem subparseStructOrEnum_ends {s : VarlinkSymbol} {d : VarlinkFieldDirection}
    {c : VarlinkIdlPosition} (hfuel : c.p.length < fuel) :
    ReadsSymbol depthMax d s (subparseStructOrEnum fuel s d 0) c :=
  ite (fun _ => fail _) fun _ => fieldsLoop_ends hfuel (.start _ _ _)

/-! ## Reading interfaces -/

/-- A symbol with these fields. -/
def symbolWith (name : Bytes) (t : VarlinkSymbolType) (fields : List VarlinkField) : VarlinkSymbol :=
  { (VarlinkSymbolOf.new (some name) t : VarlinkSymbol) with fields }

/-- A symbol that has been read. -/
inductive SymbolDeclared : VarlinkSymbol → Prop where
  | comment {text : Bytes} {t : VarlinkSymbolType} (ht : t = .interfaceComment ∨ t = .symbolComment)
      (htext : IsLine text) : SymbolDeclared (symbolWith text t [])
  | type {name : Bytes} {t : VarlinkSymbolType} {fields : List VarlinkField} (ht : t = .structType ∨ t = .enumType)
      (hreal : ∃ f ∈ fields, f.fieldType ≠ .comment) (hfields : ∀ f ∈ fields, FieldDeclared depthMax t .regular f) :
      SymbolDeclared (symbolWith name t fields)
  | error {name : Bytes} {fields : List VarlinkField}
      (hfields : ∀ f ∈ fields, FieldDeclared depthMax .error .regular f) : SymbolDeclared (symbolWith name .error fields)
  | method {name : Bytes} {input output : List VarlinkField}
      (hinput : ∀ f ∈ input, FieldDeclared depthMax .method .input f)
      (houtput : ∀ f ∈ output, FieldDeclared depthMax .method .output f) :
      SymbolDeclared (symbolWith name .method (input ++ output))

/-- A method whose input has been read. -/
def InputDeclared (s : VarlinkSymbol) : Prop :=
  ∃ name input, s = symbolWith name .method input ∧ ∀ f ∈ input, FieldDeclared depthMax .method .input f

/-- The type of a symbol that is known at first stays as it is. -/
theorem FieldsRead.symbolWith_eq {n : Nat} {d : VarlinkFieldDirection} {fields new : List VarlinkField}
    {s : VarlinkSymbol} (h : FieldsRead n d (symbolWith name t fields) new s) (ht : t ≠ .invalid) :
    s = symbolWith name t (fields ++ new) ∧ ∀ f ∈ new, FieldDeclared n t d f := by
  have htype : s.symbolType = t := h.symbolType.resolve_right fun hinvalid => ht hinvalid.1
  refine ⟨h.symbol.trans ?_, htype ▸ h.declared⟩
  rw [htype]
  rfl

theorem FieldsRead.type_declared {new : List VarlinkField} {s : VarlinkSymbol}
    (h : FieldsRead depthMax .regular (symbolWith name .invalid []) new s)
    (hvalid : s.symbolType ≠ .invalid) : SymbolDeclared s := by
  have htype := (h.symbolType.resolve_left hvalid).2
  have heq : s = symbolWith name s.symbolType new := h.symbol
  rw [heq]
  exact .type htype (h.real rfl hvalid) h.declared

/-- The variables of `varlink_idl_parse`. -/
structure Parser.Sound (v : Parser) : Prop where
  symbol : v.symbol = none ↔ v.state ≠ .methodArrow
  input : ∀ s, v.symbol = some s → InputDeclared s
  name : v.state = .preInterface ∨ v.state = .interface → v.realloc.name = none
  interface : v.state ≠ .preInterface → v.state ≠ .interface → v.interface ≠ none
  symbols : ∀ s ∈ v.realloc.symbols, SymbolDeclared s

theorem declared_addSymbol {v : Parser} {s : VarlinkSymbol} (h : v.Sound) (hs : SymbolDeclared s) :
    ∀ t ∈ v.realloc.symbols ++ [s], SymbolDeclared t := by
  intro t ht
  rcases mem_append.mp ht with ht | ht
  · exact h.symbols t ht
  · rw [mem_singleton.mp ht]
    exact hs

theorem Parser.Sound.nextSymbol {v : Parser} {s : VarlinkSymbol} (h : v.Sound) (hs : SymbolDeclared s) :
    (v.nextSymbol s).Sound where
  symbol := iff_of_true rfl nofun
  input := nofun
  name := nofun
  interface _ _ := nofun
  symbols := declared_addSymbol h hs

section Steps

variable {v : Parser} {c : VarlinkIdlPosition}

theorem preInterfaceStep_ends (h : v.Sound) (hstate : v.state = .preInterface) (token : Option Bytes) :
    Ends (preInterfaceStep v token) c fun v' c' => NoMore c c' ∧ v'.Sound ∧ token ≠ none := by
  cases token with
  | none => exact fail _
  | some token =>
    refine ite (fun _ => ?_) fun _ => ite (fun _ => ?_) fun _ => fail _
    · refine bind (subparseComment_ends c) ?_
      rintro comment c' ⟨hmore, hline⟩
      refine pure ⟨hmore, ?_, nofun⟩
      exact {
        symbol := iff_of_true rfl (by show v.state ≠ _; rw [hstate]; decide)
        input := nofun
        name := fun _ => h.name (.inl hstate)
        interface := fun _ _ => nofun
        symbols := declared_addSymbol h (.comment (by simp) hline) }
    · refine pure ⟨Nat.le_refl _, ?_, nofun⟩
      exact {
        symbol := iff_of_true (h.symbol.mpr (by rw [hstate]; decide)) nofun
        input := h.input
        name := fun _ => h.name (.inl hstate)
        interface := fun _ hne => absurd rfl hne
        symbols := h.symbols }

theorem interfaceStep_ends (h : v.Sound) (hstate : v.state = .interface) (token : Option Bytes) :
    Ends (interfaceStep v token) c fun v' c' => NoMore c c' ∧ v'.Sound ∧ token ≠ none := by
  cases token with
  | none => exact fail _
  | some token =>
    refine assert_bind (h.name (.inr hstate)) (pure ⟨Nat.le_refl _, ?_, nofun⟩)
    exact {
      symbol := iff_of_true (h.symbol.mpr (by rw [hstate]; decide)) nofun
      input := h.input
      name := nofun
      interface := fun _ _ => nofun
      symbols := h.symbols }

/-- A keyword changes the state only. -/
theorem Parser.Sound.keyword {state : ParseState} {allowedChars : Bytes} (h : v.Sound) (hv : v.state = .preSymbol)
    (hstate : state ≠ .methodArrow ∧ state ≠ .preInterface ∧ state ≠ .interface) :
    Parser.Sound { v with state, allowedChars } where
  symbol := iff_of_true (h.symbol.mpr (by rw [hv]; decide)) hstate.1
  input := h.input
  name hor := (hor.elim hstate.2.1 hstate.2.2).elim
  interface _ _ := h.interface (by rw [hv]; decide) (by rw [hv]; decide)
  symbols := h.symbols

theorem preSymbolStep_ends (h : v.Sound) (hstate : v.state = .preSymbol) (token : Option Bytes) :
    Ends (preSymbolStep v token) c fun v' c' => NoMore c c' ∧ v'.Sound ∧ (token ≠ none ∨ v'.state = .done) := by
  cases token with
  | none => exact pure ⟨Nat.le_refl _, h.keyword hstate (by decide), .inr rfl⟩
  | some token =>
    refine ite (fun _ => ?_) fun _ => ite (fun _ => ?_) fun _ => ite (fun _ => ?_) fun _ =>
      ite (fun _ => ?_) fun _ => fail _
    · have hsymbol : v.symbol = none := h.symbol.mpr (by rw [hstate]; decide)
      refine bind (subparseComment_ends c) ?_
      rintro comment c' ⟨hmore, hline⟩
      refine assert_bind (by rw [hsymbol]; rfl) (pure ⟨hmore, ?_, .inl nofun⟩)
      exact {
        symbol := iff_of_true rfl (by show v.state ≠ _; rw [hstate]; decide)
        input := nofun
        name := fun hor => by
          change v.state = _ ∨ v.state = _ at hor
          rw [hstate] at hor
          exact absurd hor (by decide)
        interface := fun _ _ => nofun
        symbols := declared_addSymbol h (.comment (by simp) hline) }
    · exact pure ⟨Nat.le_refl _, h.keyword hstate (by decide), .inl nofun⟩
    · exact pure ⟨Nat.le_refl _, h.keyword hstate (by decide), .inl nofun⟩
    · exact pure ⟨Nat.le_refl _, h.keyword hstate (by decide), .inl nofun⟩

variable {fuel : Nat} {token : Option Bytes}

theorem methodStep_ends (h : v.Sound) (hstate : v.state = .method)
    (hfuel : token ≠ none → c.p.length < fuel) :
    Ends (methodStep fuel v token) c fun v' c' => NoMore c c' ∧ v'.Sound ∧ token ≠ none := by
  have hsymbol : v.symbol = none := h.symbol.mpr (by rw [hstate]; decide)
  refine assert_bind (by rw [hsymbol]; rfl) ?_
  cases token with
  | none => exact fail _
  | some token =>
    refine bind (subparseStructOrEnum_ends (hfuel nofun)) ?_
    rintro s c' ⟨hmore, -, new, hread⟩
    obtain ⟨rfl, hnew⟩ := hread.symbolWith_eq nofun
    refine pure ⟨hmore, ?_, nofun⟩
    exact {
      symbol := iff_of_false nofun fun hne => hne rfl
      input := fun t ht => ⟨token, new, (Option.some.inj ht).symm, hnew⟩
      name := nofun
      interface := fun _ _ => h.interface (by rw [hstate]; decide) (by rw [hstate]; decide)
      symbols := h.symbols }

theorem methodArrowStep_ends (h : v.Sound) (hstate : v.state = .methodArrow)
    (hfuel : token ≠ none → c.p.length < fuel) :
    Ends (methodArrowStep fuel v token) c fun v' c' => NoMore c c' ∧ v'.Sound ∧ token ≠ none := by
  unfold methodArrowStep
  cases hsymbol : v.symbol with
  | none => exact absurd hstate (h.symbol.mp hsymbol)
  | some symbol =>
    refine ite (fun htoken => ?_) fun _ => fail _
    have hne : token ≠ none := by
      rw [htoken]
      exact nofun
    obtain ⟨name, input, rfl, hinput⟩ := h.input symbol hsymbol
    refine bind (subparseStructOrEnum_ends (hfuel hne)) ?_
    rintro s c' ⟨hmore, -, new, hread⟩
    obtain ⟨rfl, hnew⟩ := hread.symbolWith_eq nofun
    exact pure ⟨hmore, h.nextSymbol (.method hinput hnew), hne⟩

theorem declarationStep_ends {symbolType : VarlinkSymbolType} (h : v.Sound)
    (hstate : v.state = .type ∧ symbolType = .invalid ∨ v.state = .error ∧ symbolType = .error)
    (hfuel : token ≠ none → c.p.length < fuel) :
    Ends (declarationStep fuel symbolType v token) c fun v' c' => NoMore c c' ∧ v'.Sound ∧ token ≠ none := by
  have hsymbol : v.symbol = none := by
    refine h.symbol.mpr fun harrow => ?_
    rw [harrow] at hstate
    exact absurd hstate nofun
  refine assert_bind (by rw [hsymbol]; rfl) ?_
  cases token with
  | none => exact fail _
  | some token =>
    refine bind (subparseStructOrEnum_ends (hfuel nofun)) ?_
    rintro s c' ⟨hmore, hvalid, new, hread⟩
    refine pure ⟨hmore, h.nextSymbol ?_, nofun⟩
    rcases hstate with ⟨-, rfl⟩ | ⟨-, rfl⟩
    · exact hread.type_declared hvalid
    · obtain ⟨rfl, hnew⟩ := hread.symbolWith_eq nofun
      exact .error hnew

theorem parseStep_ends (h : v.Sound) (hstate : v.state ≠ .done)
    (hfuel : token ≠ none → c.p.length < fuel) :
    Ends (parseStep fuel v token) c fun v' c' => NoMore c c' ∧ v'.Sound ∧ (token ≠ none ∨ v'.state = .done) := by
  have hread {m : VarlinkIdl Parser} (hm : Ends m c fun v' c' => NoMore c c' ∧ v'.Sound ∧ token ≠ none) :
      Ends m c fun v' c' => NoMore c c' ∧ v'.Sound ∧ (token ≠ none ∨ v'.state = .done) :=
    hm.mono fun _ _ hv => ⟨hv.1, hv.2.1, .inl hv.2.2⟩
  unfold parseStep
  cases hv : v.state with
  | preInterface => exact hread (preInterfaceStep_ends h hv token)
  | interface => exact hread (interfaceStep_ends h hv token)
  | preSymbol => exact preSymbolStep_ends h hv token
  | method => exact hread (methodStep_ends h hv hfuel)
  | methodArrow => exact hread (methodArrowStep_ends h hv hfuel)
  | type => exact hread (declarationStep_ends h (.inl ⟨hv, rfl⟩) hfuel)
  | error => exact hread (declarationStep_ends h (.inr ⟨hv, rfl⟩) hfuel)
  | done => exact absurd hv hstate

end Steps

/-- What is known of an interface that has been read, but for the named types. -/
def DeclaredInterface (interface : Option VarlinkInterface) : Prop :=
  ∃ i, interface = some i ∧ ∀ s ∈ i.symbols, SymbolDeclared s

/-- The bound for the rounds is large enough when there is a round for each octet, and one for the end. -/
theorem parseLoop_ends {v : Parser} {c : VarlinkIdlPosition} (h : v.Sound)
    (hfuel : v.state = .done ∧ 0 < fuel ∨ c.p.length + 1 < fuel) :
    Ends (parseLoop fuel v) c fun i _ => DeclaredInterface i := by
  induction fuel generalizing v c with
  | zero => omega
  | succ fuel ih =>
    refine ite (fun hstate => pure ?_) fun hstate => ?_
    · have hne := h.interface (by rw [hstate]; decide) (by rw [hstate]; decide)
      obtain ⟨i, hi⟩ := Option.ne_none_iff_exists'.mp hne
      refine ⟨i, hi, fun s hs => h.symbols s ?_⟩
      unfold Parser.realloc
      rwa [hi]
    · have hlarge : c.p.length < fuel := Nat.lt_of_succ_lt_succ (hfuel.resolve_left fun hdone => hstate hdone.1)
      refine bind (subparseToken_ends _ _ c) ?_
      rintro token c₁ ⟨hmore, hless⟩
      refine bind (parseStep_ends h hstate fun _ => Nat.lt_of_le_of_lt hmore hlarge) ?_
      rintro v' c₂ ⟨hmore₂, hv', htoken⟩
      refine ih hv' (htoken.elim (fun hne => .inr ?_) fun hdone => .inl ⟨hdone, Nat.lt_of_le_of_lt (Nat.zero_le _) hlarge⟩)
      obtain ⟨x, hx⟩ := Option.ne_none_iff_exists'.mp hne
      have hless₂ : c₂.p.length < c.p.length := Nat.lt_of_le_of_lt hmore₂ (hless x hx).2
      omega

theorem Parser.sound_start : Parser.start.Sound where
  symbol := iff_of_true rfl nofun
  input := nofun
  name _ := rfl
  interface hne _ := absurd rfl hne
  symbols := nofun

theorem declarations_ends (text : Bytes) (line column : UInt32) :
    Ends (declarations text) ⟨text, line, column⟩ fun i _ => DeclaredInterface i :=
  parseLoop_ends Parser.sound_start (.inr (Nat.lt_succ_self _))

end VarlinkIdl

end Elogind
