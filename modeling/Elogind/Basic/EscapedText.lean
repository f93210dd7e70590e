/-
  Elogind.Basic.EscapedText

  Which texts survive a state file when they are escaped by the writer and
  unescaped by the reader.

  The reader of environment files stands between the two, and takes the
  backslashes of the writer away before `cunescape` can see them.
-/

import Elogind.Basic.EnvText
import Elogind.Basic.Unescape

namespace Elogind

open List

-- for what is checked for each byte
set_option maxRecDepth 2000

open Byte EnvParser

/-- What `parse_env_file` and `cunescape` make of a file with the one line `k=w`. -/
def unescapedLine (k w : Bytes) : Option Bytes :=
  match parseEnvFile (envLine k w) with
  | .error _ => none
  | .ok as => (lookup k as).bind cunescape

/-- A key that `parse_env_file` reads as such. -/
structure EnvKey (k : Bytes) : Prop where
  ne_nil : k ≠ []
  chars : ∀ c ∈ k, isKeyChar c = true
  ascii : ∀ c ∈ k, c < 0x80

/-! ## cescape -/

variable {c : UInt8} {x v k : Bytes} {p : EnvParser}

theorem isPrintable_unescapedChar {d : UInt8} (h : d ∈ unescapedChar c) : isPrintable d = true := by
  have hall : ∀ c, (unescapedChar c).all isPrintable = true := by decide
  exact all_eq_true.mp (hall c) d h

theorem count_unescapedChar (c : UInt8) :
    (unescapedChar c).count backslash = [c].count backslash := by
  have hall : ∀ c, (unescapedChar c).count backslash = [c].count backslash := by decide
  exact hall c

theorem count_unescaped (v : Bytes) : (unescaped v).count backslash = v.count backslash := by
  unfold unescaped
  induction v with
  | nil => rfl
  | cons c v ih =>
    rw [flatMap_cons, count_append, ih, count_unescapedChar, ← count_append]
    rfl

/-- The value of an escaped text is, but for leading spaces and what is cut off, the
    text with its escapes lacking their backslashes. -/
theorem readBack_cescape_prefix (h : readBack (cescape x) = some v) :
    ∃ s t, x = s ++ t ∧ v <+: unescaped t := by
  obtain ⟨s, t, rfl, hs, ht⟩ := exists_spaces x
  refine ⟨s, t, rfl, ?_⟩
  rcases run_cescape s t hs [] with ⟨rfl, hrun⟩ | hhead | ⟨last, hrun, -⟩
  · rw [readBack_eq_assignment (staysOnLine_cescape _), hrun] at h
    cases h
  · exact absurd hhead ht
  · rw [(staysOnLine_of_run hrun).2] at h
    exact Option.some.inj h ▸ chomp_prefix last (unescaped t)

/-- Exactly the printable texts without a backslash survive `cescape`, the reader
    and `cunescape`. -/
theorem cunescape_readBack_cescape_iff (x : Bytes) :
    (readBack (cescape x)).bind cunescape = some x ↔ PrintableText x ∧ backslash ∉ x := by
  constructor
  · intro h
    obtain ⟨v, hv, hx⟩ := Option.bind_eq_some_iff.mp h
    obtain ⟨s, t, rfl, hstart⟩ := readBack_cescape_prefix hv
    -- no backslash can have been lost, and so the text is found in what was read
    obtain ⟨hle, heq⟩ := cunescape_backslashes hx
    have hcount := hstart.sublist.count_le backslash
    rw [count_unescaped] at hcount
    rw [count_append] at hle heq
    obtain ⟨hsub, hlt⟩ := heq (by omega)
    have hprint : ∀ c ∈ s ++ t, isPrintable c = true := by
      intro c hc
      obtain ⟨d, -, hd⟩ := mem_flatMap.mp (hstart.subset (hsub.subset hc))
      exact isPrintable_unescapedChar hd
    rw [unescaped_of_isPrintable fun c hc => hprint c (mem_append_right s hc)] at hstart
    have h₁ := hsub.length_le
    have h₂ := hstart.length_le
    rw [length_append] at h₁
    have hvt : v = t := hstart.eq_of_length (by omega)
    have hs : s = [] := length_eq_zero_iff.mp (by omega)
    subst hvt hs
    refine ⟨(readBack_cescape_iff v).mp hv, fun hmem => ?_⟩
    exact Nat.lt_irrefl _ (hlt hmem)
  · rintro ⟨hprint, hback⟩
    rw [(readBack_cescape_iff x).mpr hprint]
    exact cunescape_plain hback

/-! ## xescape -/

def isQuote (c : UInt8) : Bool := c == singleQuote || c == doubleQuote

/-- The byte is written as an escape by `serialize_item_escaped`. -/
def isSpecial (c : UInt8) : Bool := c < space || c ≥ 127 || c == backslash || c == space

theorem xescapeChar_of_special (h : isSpecial c = true) :
    xescapeChar [space] c = [backslash, 'x'.toUInt8, hexchar (c >>> 4), hexchar c] := by
  unfold xescapeChar
  rw [if_pos]
  simpa [isSpecial, or_assoc] using h

theorem xescapeChar_of_plain (h : isSpecial c = false) : xescapeChar [space] c = [c] := by
  unfold xescapeChar
  simpa [isSpecial, and_assoc] using h

/-- A byte that is no special one is printable, and white space is special. -/
theorem plain_spec (h : isSpecial c = false) :
    isPrintable c = true ∧ c ≠ backslash ∧ isWhitespace c = false ∧ isNewline c = false := by
  have hall : ∀ c, isSpecial c = false →
      isPrintable c = true ∧ c ≠ backslash ∧ isWhitespace c = false ∧ isNewline c = false := by
    decide
  exact hall c h

/-- The digits of an escape. -/
theorem hexchar_spec (c : UInt8) :
    isNewline (hexchar c) = false ∧ hexchar c ≠ backslash ∧ isQuote (hexchar c) = false ∧
      isWhitespace (hexchar c) = false ∧ hexchar c < 0x80 := by
  have hall : ∀ c, isNewline (hexchar c) = false ∧ hexchar c ≠ backslash ∧
      isQuote (hexchar c) = false ∧ isWhitespace (hexchar c) = false ∧ hexchar c < 0x80 := by
    decide
  exact hall c

/-- A text that starts with no quote is read without its backslashes. -/
def stripped (x : Bytes) : Bytes :=
  x.flatMap fun c => if isSpecial c then (xescapeChar [space] c).tail else [c]

theorem encodes_xescape (x : Bytes) : Encodes (xescape x [space]) (stripped x) := by
  unfold xescape stripped
  induction x with
  | nil => exact .nil
  | cons c x ih =>
    rw [flatMap_cons, flatMap_cons]
    refine Encodes.append ?_ ih
    cases hc : isSpecial c with
    | true =>
      rw [xescapeChar_of_special hc]
      obtain ⟨hn₁, hb₁, -⟩ := hexchar_spec (c >>> 4)
      obtain ⟨hn₂, hb₂, -⟩ := hexchar_spec c
      exact .escaped (by decide) (.plain hn₁ hb₁ (.plain hn₂ hb₂ .nil))
    | false =>
      rw [xescapeChar_of_plain hc]
      obtain ⟨-, hb, -, hn⟩ := plain_spec hc
      exact .plain hn hb .nil

theorem stripped_chars {d : UInt8} (h : d ∈ stripped x) : d ≠ backslash ∧ isWhitespace d = false := by
  obtain ⟨c, -, hd⟩ := mem_flatMap.mp h
  cases hc : isSpecial c with
  | false =>
    rw [hc] at hd
    obtain ⟨-, hb, hw, -⟩ := plain_spec hc
    rw [mem_singleton.mp hd]
    exact ⟨hb, hw⟩
  | true =>
    rw [hc, if_pos rfl, xescapeChar_of_special hc] at hd
    obtain ⟨-, hb₁, -, hw₁, -⟩ := hexchar_spec (c >>> 4)
    obtain ⟨-, hb₂, -, hw₂, -⟩ := hexchar_spec c
    have hcases : d = 'x'.toUInt8 ∨ d = hexchar (c >>> 4) ∨ d = hexchar c := by simpa using hd
    rcases hcases with rfl | rfl | rfl
    · decide
    · exact ⟨hb₁, hw₁⟩
    · exact ⟨hb₂, hw₂⟩

theorem stripped_eq_self_iff (x : Bytes) : stripped x = x ↔ ∀ c ∈ x, isSpecial c = false := by
  unfold stripped
  constructor
  · intro h
    induction x with
    | nil => simp
    | cons c x ih =>
      rw [flatMap_cons] at h
      cases hc : isSpecial c with
      | true =>
        -- an escape starts with the letter x, which needs no escape
        rw [hc, if_pos rfl, xescapeChar_of_special hc] at h
        have hx : 'x'.toUInt8 = c := (cons.inj h).1
        have hplain : isSpecial 'x'.toUInt8 = false := by decide
        rw [← hx, hplain] at hc
        cases hc
      | false =>
        rw [hc] at h
        have hrest := ih (cons.inj h).2
        intro d hd
        rcases mem_cons.mp hd with rfl | hd
        · exact hc
        · exact hrest d hd
  · intro h
    induction x with
    | nil => rfl
    | cons c x ih =>
      rw [flatMap_cons, h c mem_cons_self, ih fun d hd => h d (mem_cons_of_mem c hd)]
      rfl

/-- A text that neither is empty nor starts with a quote stays on its line. -/
theorem readBack_xescape (hc : isQuote c = false) :
    staysOnLine (xescape (c :: x) [space]) = true ∧
      readBack (xescape (c :: x) [space]) = some (stripped (c :: x)) := by
  have hhead : ∃ d r, xescape (c :: x) [space] = d :: r ∧ isWhitespace d = false ∧
      d ≠ singleQuote ∧ d ≠ doubleQuote := by
    unfold xescape
    rw [flatMap_cons]
    cases hs : isSpecial c with
    | true =>
      rw [xescapeChar_of_special hs]
      exact ⟨backslash, _, rfl, by decide⟩
    | false =>
      rw [xescapeChar_of_plain hs]
      have hq : c ≠ singleQuote ∧ c ≠ doubleQuote := by simpa [isQuote] using hc
      exact ⟨c, _, rfl, (plain_spec hs).2.2.1, hq.1, hq.2⟩
  obtain ⟨d, r, heq, hw, hsq, hdq⟩ := hhead
  refine readBack_of_encodes (encodes_xescape (c :: x)) (by simp [heq]) ?_ ?_
  · intro e he
    rw [heq] at he
    cases he
    exact ⟨hw, hsq, hdq⟩
  · intro e he
    exact (stripped_chars (mem_of_mem_getLast? he)).2

/-! ## Texts that start with a quote -/

/-- What the reader makes of the bytes of an escaped text when there are quotes: a
    quote can be dropped, and outside of quotes an escape loses its backslash. -/
inductive Pieces : Bytes → Bytes → Prop where
  | nil : Pieces [] []
  | keep {x v : Bytes} (c : UInt8) (h : Pieces x v) : Pieces (c :: x) (xescapeChar [space] c ++ v)
  | strip {c : UInt8} {x v : Bytes} (hc : isSpecial c = true) (h : Pieces x v) :
      Pieces (c :: x) ((xescapeChar [space] c).tail ++ v)
  | drop {c : UInt8} {x v : Bytes} (hc : isQuote c = true) (h : Pieces x v) : Pieces (c :: x) v

/-- The parser is inside a value, and not in the middle of an escape. -/
structure AtUnit (k v : Bytes) (p : EnvParser) : Prop where
  key : p.key = k
  value : p.value.getD [] = v
  state : p.state = .preValue ∨ p.state = .value ∨ p.state = .singleQuoteValue ∨
    p.state = .doubleQuoteValue
  lastKey : p.lastKeyWhitespace = none
  lastValue : p.lastValueWhitespace = none

/-- A byte that needs no escape is added, unless it is a quote that opens or ends a
    quotation. -/
theorem step_plain_unit (hp : AtUnit k v p) (hc : isSpecial c = false) :
    ∃ q, p.step c = (q, []) ∧ (AtUnit k (v ++ [c]) q ∨ isQuote c = true ∧ AtUnit k v q) := by
  obtain ⟨-, hb, hw, hn⟩ := plain_spec hc
  obtain ⟨state, key, value, lastKey, lastValue⟩ := p
  obtain ⟨rfl, rfl, hstate, rfl, rfl⟩ := hp
  have hadd : ∀ {s : EnvState}, s = .value ∨ s = .singleQuoteValue ∨ s = .doubleQuoteValue →
      AtUnit key (value.getD [] ++ [c])
        (({ state := s, key := key, value := value, lastKeyWhitespace := none,
            lastValueWhitespace := none } : EnvParser).appendValue c) := fun hs =>
    ⟨rfl, rfl, .inr hs, rfl, rfl⟩
  rcases hstate with rfl | rfl | rfl | rfl
  · by_cases hsq : c = singleQuote
    · subst hsq
      exact ⟨_, rfl, .inr ⟨rfl, rfl, rfl, .inr (.inr (.inl rfl)), rfl, rfl⟩⟩
    by_cases hdq : c = doubleQuote
    · subst hdq
      exact ⟨_, rfl, .inr ⟨rfl, rfl, rfl, .inr (.inr (.inr rfl)), rfl, rfl⟩⟩
    · refine ⟨_, ?_, .inl (hadd (.inl rfl))⟩
      simp only [step, hn, hsq, hdq, hb, hw, if_false, Bool.false_eq_true]
  · refine ⟨_, ?_, .inl (hadd (.inl rfl))⟩
    simp [step, hn, hb, hw]
  · by_cases hsq : c = singleQuote
    · subst hsq
      exact ⟨_, rfl, .inr ⟨rfl, rfl, rfl, .inl rfl, rfl, rfl⟩⟩
    · refine ⟨_, ?_, .inl (hadd (.inr (.inl rfl)))⟩
      simp only [step, hsq, if_false]
  · by_cases hdq : c = doubleQuote
    · subst hdq
      exact ⟨_, rfl, .inr ⟨rfl, rfl, rfl, .inl rfl, rfl, rfl⟩⟩
    · refine ⟨_, ?_, .inl (hadd (.inr (.inr rfl)))⟩
      simp only [step, hdq, hb, if_false]

/-- An escape loses its backslash outside of quotes, and stays as it is in them. -/
theorem run_special_unit (hp : AtUnit k v p) (hc : isSpecial c = true) :
    ∃ q, p.run (xescapeChar [space] c) = (q, []) ∧
      (AtUnit k (v ++ xescapeChar [space] c) q ∨
        AtUnit k (v ++ (xescapeChar [space] c).tail) q) := by
  rw [xescapeChar_of_special hc]
  have hall : ∀ c, isNewline (hexchar c) = false ∧ hexchar c ≠ backslash ∧
      hexchar c ≠ singleQuote ∧ hexchar c ≠ doubleQuote ∧ isWhitespace (hexchar c) = false := by
    decide
  obtain ⟨hn₁, hb₁, hsq₁, hdq₁, hw₁⟩ := hall (c >>> 4)
  obtain ⟨hn₂, hb₂, hsq₂, hdq₂, hw₂⟩ := hall c
  have hx : isNewline 'x'.toUInt8 = false ∧ 'x'.toUInt8 ≠ singleQuote ∧
      needsShellEscape 'x'.toUInt8 = false ∧ 'x'.toUInt8 ≠ newline := by decide
  have hbn : isNewline backslash = false := by decide
  have hbq : backslash ≠ singleQuote ∧ backslash ≠ doubleQuote := by decide
  obtain ⟨state, key, value, lastKey, lastValue⟩ := p
  obtain ⟨rfl, rfl, hstate, rfl, rfl⟩ := hp
  rcases hstate with rfl | rfl | rfl | rfl
  · refine ⟨⟨.value, key, some (value.getD [] ++ ['x'.toUInt8, hexchar (c >>> 4), hexchar c]),
      none, none⟩, ?_, .inr ⟨rfl, rfl, .inr (.inl rfl), rfl, rfl⟩⟩
    simp [run, step, appendValue, hbn, hbq, hx, hn₁, hb₁, hw₁, hn₂, hb₂, hw₂]
  · refine ⟨⟨.value, key, some (value.getD [] ++ ['x'.toUInt8, hexchar (c >>> 4), hexchar c]),
      none, none⟩, ?_, .inr ⟨rfl, rfl, .inr (.inl rfl), rfl, rfl⟩⟩
    simp [run, step, appendValue, hbn, hx, hn₁, hb₁, hw₁, hn₂, hb₂, hw₂]
  · refine ⟨⟨.singleQuoteValue, key, some (value.getD [] ++ [backslash, 'x'.toUInt8,
      hexchar (c >>> 4), hexchar c]), none, none⟩, ?_, .inl ⟨rfl, rfl, .inr (.inr (.inl rfl)),
        rfl, rfl⟩⟩
    simp [run, step, appendValue, hbq, hx, hsq₁, hsq₂]
  · refine ⟨⟨.doubleQuoteValue, key, some (value.getD [] ++ [backslash, 'x'.toUInt8,
      hexchar (c >>> 4), hexchar c]), none, none⟩, ?_, .inl ⟨rfl, rfl, .inr (.inr (.inr rfl)),
        rfl, rfl⟩⟩
    simp [run, step, appendValue, hbq, hx, hdq₁, hdq₂, hb₁, hb₂]

/-- An escaped text is read byte by byte of the text. -/
theorem run_xescape (hp : AtUnit k v p) (x : Bytes) :
    ∃ q w, p.run (xescape x [space]) = (q, []) ∧ Pieces x w ∧ AtUnit k (v ++ w) q := by
  unfold xescape
  induction x generalizing p v with
  | nil => exact ⟨p, [], rfl, .nil, by simpa using hp⟩
  | cons c x ih =>
    have hunit : ∃ q piece, p.run (xescapeChar [space] c) = (q, []) ∧
        AtUnit k (v ++ piece) q ∧ ∀ w, Pieces x w → Pieces (c :: x) (piece ++ w) := by
      cases hc : isSpecial c with
      | true =>
        obtain ⟨q, hrun, hq | hq⟩ := run_special_unit hp hc
        · exact ⟨q, _, hrun, hq, fun w hw => .keep c hw⟩
        · exact ⟨q, _, hrun, hq, fun w hw => .strip hc hw⟩
      | false =>
        obtain ⟨q, hstep, hq | ⟨hquote, hq⟩⟩ := step_plain_unit hp hc
        · refine ⟨q, [c], ?_, hq, fun w hw => ?_⟩
          · rw [xescapeChar_of_plain hc, run_singleton, hstep]
          · have hkeep := hw.keep c
            rwa [xescapeChar_of_plain hc] at hkeep
        · refine ⟨q, [], ?_, by simpa using hq, fun w hw => .drop hquote hw⟩
          rw [xescapeChar_of_plain hc, run_singleton, hstep]
    obtain ⟨q, piece, hrun, hq, hpieces⟩ := hunit
    obtain ⟨q', w, hrun', hw, hq'⟩ := ih hq
    refine ⟨q', piece ++ w, ?_, hpieces w hw, by simpa using hq'⟩
    rw [flatMap_cons, run_append, hrun, hrun']
    rfl

/-- The escape of a byte is undone, unless the byte is NUL. -/
theorem cunescape_xescapeChar (hc : isSpecial c = true) (s : Bytes) :
    cunescape (xescapeChar [space] c ++ s) = none ∨
      cunescape (xescapeChar [space] c ++ s) = (cunescape s).map (c :: ·) := by
  have hall : ∀ c : UInt8, unhexchars 2 [hexchar (c >>> 4), hexchar c] 0 = some c.toNat := by
    decide
  have hone : cunescapeOne ('x'.toUInt8 :: hexchar (c >>> 4) :: hexchar c :: s) =
      if c.toNat = 0 then none else some ([c], 3) := by
    have hdigits : unhexchars 2 (hexchar (c >>> 4) :: hexchar c :: s) 0 = some c.toNat := hall c
    simp [cunescapeOne, hdigits]
  have heq : cunescape (xescapeChar [space] c ++ s) =
      if c.toNat = 0 then none else (cunescape s).map (c :: ·) := by
    rw [xescapeChar_of_special hc]
    show cunescape (backslash :: 'x'.toUInt8 :: hexchar (c >>> 4) :: hexchar c :: s) = _
    rw [cunescape_backslash, hone]
    by_cases h0 : c.toNat = 0
    · rw [if_pos h0, if_pos h0]
    · rw [if_neg h0, if_neg h0]
      rfl
  rw [heq]
  by_cases h0 : c.toNat = 0
  · exact .inl (if_pos h0)
  · exact .inr (if_neg h0)

/-- No quotes are added to a text. -/
theorem countP_quotes_of_pieces (h : Pieces x v) {u : Bytes} (hu : backslash ∉ u) {r : Bytes}
    (hr : cunescape (v ++ u) = some r) : ∃ r', r = r' ++ u ∧ r'.countP isQuote ≤ x.countP isQuote := by
  induction h generalizing r with
  | nil =>
    rw [nil_append, cunescape_plain hu] at hr
    cases hr
    exact ⟨[], rfl, Nat.le_refl _⟩
  | @keep x v c h ih =>
    have hmap : cunescape (xescapeChar [space] c ++ v ++ u) = none ∨
        cunescape (xescapeChar [space] c ++ v ++ u) = (cunescape (v ++ u)).map (c :: ·) := by
      rw [append_assoc]
      cases hc : isSpecial c with
      | true => exact cunescape_xescapeChar hc (v ++ u)
      | false =>
        rw [xescapeChar_of_plain hc]
        exact .inr (cunescape_cons (plain_spec hc).2.1 _)
    rcases hmap with hmap | hmap
    · rw [hmap] at hr
      cases hr
    · rw [hmap] at hr
      obtain ⟨r₁, hr₁, rfl⟩ := Option.map_eq_some_iff.mp hr
      obtain ⟨r', rfl, hle⟩ := ih hr₁
      refine ⟨c :: r', rfl, ?_⟩
      rw [countP_cons, countP_cons]
      omega
  | @strip c x v hc h ih =>
    rw [xescapeChar_of_special hc] at hr
    obtain ⟨-, hb₁, hq₁, -⟩ := hexchar_spec (c >>> 4)
    obtain ⟨-, hb₂, hq₂, -⟩ := hexchar_spec c
    have hdigits : backslash ∉ ['x'.toUInt8, hexchar (c >>> 4), hexchar c] := by
      simp only [mem_cons, not_mem_nil, or_false, not_or]
      exact ⟨by decide, hb₁.symm, hb₂.symm⟩
    rw [append_assoc] at hr
    have hmap := cunescape_append hdigits (v ++ u)
    rw [tail_cons] at hr
    rw [hmap] at hr
    obtain ⟨r₁, hr₁, rfl⟩ := Option.map_eq_some_iff.mp hr
    obtain ⟨r', rfl, hle⟩ := ih hr₁
    refine ⟨['x'.toUInt8, hexchar (c >>> 4), hexchar c] ++ r', by simp, ?_⟩
    have hx : isQuote 'x'.toUInt8 = false := by decide
    rw [countP_append, countP_cons]
    simp only [countP_cons, countP_nil, hx, hq₁, hq₂, Bool.false_eq_true, if_false]
    omega
  | @drop c x v hc h ih =>
    obtain ⟨r', rfl, hle⟩ := ih hr
    refine ⟨r', rfl, ?_⟩
    rw [countP_cons]
    omega

/-- The assignments of the last line of a file. -/
def lastLine (p : EnvParser) (k w : Bytes) : List Assignment :=
  (p.run (envLine k w)).2 ++ (p.run (envLine k w)).1.finish

/-- At the end of the file a value is complete, with the newline if a quote is
    open. -/
theorem finish_atUnit {q : EnvParser} (hq : AtUnit k v q) :
    ∃ value, (q.step newline).2 ++ (q.step newline).1.finish = [{ key := k, value := value }] ∧
      (value = none ∨ value = some v ∨ value = some (v ++ [newline])) := by
  obtain ⟨state, key, value, lastKey, lastValue⟩ := q
  obtain ⟨rfl, rfl, hstate, rfl, rfl⟩ := hq
  rcases hstate with rfl | rfl | rfl | rfl
  · refine ⟨value, rfl, ?_⟩
    cases value with
    | none => exact .inl rfl
    | some v => exact .inr (.inl rfl)
  · refine ⟨value.map (chomp none), rfl, ?_⟩
    cases value with
    | none => exact .inl rfl
    | some v => exact .inr (.inl rfl)
  · exact ⟨_, rfl, .inr (.inr rfl)⟩
  · exact ⟨_, rfl, .inr (.inr rfl)⟩

/-- The quote at the start of a text is lost, and `cunescape` cannot bring it back. -/
theorem lastLine_quote (hp : p.Clean) (hk : EnvKey k) (hc : isQuote c = true) (x : Bytes) :
    ∃ value, lastLine p k (xescape (c :: x) [space]) = [{ key := k, value := value }] ∧
      value.bind cunescape ≠ some (c :: x) := by
  have hplain : isSpecial c = false := by
    have hall : ∀ c, isQuote c = true → isSpecial c = false := by decide
    exact hall c hc
  have hopen : ∃ q, (atValue k).step c = (q, []) ∧ AtUnit k [] q := by
    have hcases : c = singleQuote ∨ c = doubleQuote := by simpa [isQuote] using hc
    rcases hcases with rfl | rfl
    · exact ⟨_, rfl, rfl, rfl, .inr (.inr (.inl rfl)), rfl, rfl⟩
    · exact ⟨_, rfl, rfl, rfl, .inr (.inr (.inr rfl)), rfl, rfl⟩
  obtain ⟨q₀, hq₀, hat₀⟩ := hopen
  obtain ⟨q, v, hrun, hpieces, hat⟩ := run_xescape hat₀ x
  obtain ⟨value, hvalue, hcases⟩ := finish_atUnit hat
  have hline : p.run (envLine k (xescape (c :: x) [space])) = q.step newline := by
    have hsplit : envLine k (xescape (c :: x) [space]) =
        (k ++ [equals]) ++ (c :: (xescape x [space] ++ [newline])) := by
      simp [envLine, xescape, xescapeChar_of_plain hplain]
    rw [hsplit, run_append, run_key hp hk.ne_nil hk.chars]
    simp only [run, hq₀, run_append, hrun, nil_append, append_nil]
  refine ⟨value, ?_, ?_⟩
  · unfold lastLine
    rw [hline]
    exact hvalue
  · intro heq
    obtain ⟨w, hw, hr⟩ := Option.bind_eq_some_iff.mp heq
    have hdropped : ∀ u, backslash ∉ u → u.countP isQuote = 0 → w ≠ v ++ u := by
      rintro u hu hzero rfl
      obtain ⟨r', hr', hle⟩ := countP_quotes_of_pieces hpieces hu hr
      have hcount := congrArg (countP isQuote) hr'
      rw [countP_append, countP_cons, if_pos hc] at hcount
      omega
    rcases hcases with h | h | h
    · rw [h] at hw
      cases hw
    · rw [h] at hw
      exact hdropped [] (by simp) rfl (by simpa using hw.symm)
    · rw [h] at hw
      exact hdropped [newline] (by decide) (by decide) (Option.some.inj hw).symm

/-! ## Files of one line -/

/-- A text that survives `serialize_item_escaped`: it is not empty, no byte of it is
    escaped, and it does not start with a quote. -/
structure UnquotedText (x : Bytes) : Prop where
  ne_nil : x ≠ []
  chars : ∀ c ∈ x, isSpecial c = false
  first : ∀ c, x.head? = some c → isQuote c = false

/-- The reader and `cunescape` on a text that stays on its line. -/
theorem cunescape_readBack_xescape_iff (hc : isQuote c = false) :
    (readBack (xescape (c :: x) [space])).bind cunescape = some (c :: x) ↔ UnquotedText (c :: x) := by
  rw [(readBack_xescape hc).2]
  show cunescape (stripped (c :: x)) = some (c :: x) ↔ _
  rw [cunescape_plain fun h => (stripped_chars h).1 rfl, Option.some.injEq, stripped_eq_self_iff]
  constructor
  · intro h
    refine ⟨by simp, h, ?_⟩
    intro d hd
    cases hd
    exact hc
  · exact fun h => h.chars

theorem parseEnvFileInternal_line {w : Bytes} (hk : EnvKey k) (hw : staysOnLine w = true) :
    parseEnvFileInternal (envLine k w) = [{ key := k, value := readBack w }] := by
  have hgood : FileEntry.Good ⟨k, some w⟩ := ⟨hk.ne_nil, hk.chars, fun v hv => by
    cases hv
    exact hw⟩
  obtain ⟨q, hrun, hclean⟩ := run_line init_clean hgood
  have hrun' : init.run (envLine k w) = (q, [{ key := k, value := readBack w }]) := hrun
  unfold parseEnvFileInternal
  rw [hrun']
  simp [finish, hclean.1]

theorem unescapedLine_of_staysOnLine {w : Bytes} (hk : EnvKey k) (hw : staysOnLine w = true)
    (hascii : ∀ c ∈ w, c < 0x80) : unescapedLine k w = (readBack w).bind cunescape := by
  have hvalid : Assignment.utf8IsValid { key := k, value := readBack w } = true := by
    rw [Assignment.utf8IsValid, Bool.and_eq_true]
    exact ⟨utf8IsValid_of_ascii hk.ascii, readBack_utf8IsValid hw (utf8IsValid_of_ascii hascii)⟩
  unfold unescapedLine parseEnvFile
  rw [parseEnvFileInternal_line hk hw]
  simp [hvalid, lookup]

theorem ascii_of_isPrintable (h : isPrintable c = true) : c < 0x80 := by
  have hall : ∀ c, isPrintable c = true → c < 0x80 := by decide
  exact hall c h

theorem isPrintable_cescape (h : c ∈ cescape x) : isPrintable c = true := by
  obtain ⟨d, -, hd⟩ := mem_flatMap.mp h
  exact isPrintable_of_mem_cescapeChar hd

theorem ascii_xescape (h : c ∈ xescape x [space]) : c < 0x80 := by
  obtain ⟨d, -, hd⟩ := mem_flatMap.mp h
  cases hs : isSpecial d with
  | false =>
    rw [xescapeChar_of_plain hs] at hd
    rw [mem_singleton.mp hd]
    exact ascii_of_isPrintable (plain_spec hs).1
  | true =>
    rw [xescapeChar_of_special hs] at hd
    have hcases : c = backslash ∨ c = 'x'.toUInt8 ∨ c = hexchar (d >>> 4) ∨ c = hexchar d := by
      simpa using hd
    rcases hcases with rfl | rfl | rfl | rfl
    · decide
    · decide
    · exact (hexchar_spec _).2.2.2.2
    · exact (hexchar_spec _).2.2.2.2

/-- A line with an escaped text gives the text back exactly when it is printable and
    has no backslash. -/
theorem unescapedLine_cescape_iff (hk : EnvKey k) (x : Bytes) :
    unescapedLine k (cescape x) = some x ↔ PrintableText x ∧ backslash ∉ x := by
  rw [unescapedLine_of_staysOnLine hk (staysOnLine_cescape x) fun c hc =>
    ascii_of_isPrintable (isPrintable_cescape hc)]
  exact cunescape_readBack_cescape_iff x

/-- A line that `serialize_item_escaped` has written. -/
theorem unescapedLine_xescape_iff (hk : EnvKey k) (x : Bytes) :
    unescapedLine k (xescape x [space]) = some x ↔ UnquotedText x := by
  cases x with
  | nil =>
    constructor
    · intro h
      rw [unescapedLine_of_staysOnLine hk rfl fun c hc => ascii_xescape hc] at h
      cases h
    · exact fun h => absurd rfl h.ne_nil
  | cons c x =>
    cases hc : isQuote c with
    | false =>
      rw [unescapedLine_of_staysOnLine hk (readBack_xescape hc).1 fun c hc => ascii_xescape hc]
      exact cunescape_readBack_xescape_iff hc
    | true =>
      constructor
      · intro h
        obtain ⟨value, hline, hne⟩ := lastLine_quote init_clean hk hc x
        have hparse : parseEnvFileInternal (envLine k (xescape (c :: x) [space])) =
            [{ key := k, value := value }] := hline
        unfold unescapedLine parseEnvFile at h
        rw [hparse] at h
        split at h
        · cases h
        · next as has =>
          dsimp only at has
          split at has
          · cases has
            simp [lookup] at h
            exact absurd h hne
          · cases has
      · intro h
        have hno := h.first c rfl
        rw [hc] at hno
        cases hno

end Elogind
