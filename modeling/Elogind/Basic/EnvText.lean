/-
  Elogind.Basic.EnvText

  Texts that are read back from an environment file.  There are two ways to
  write a value: a plain text as it is, and any text with C escapes.  The
  reader takes the backslashes away but does not know the escapes, so that the
  second way gives the value back exactly when the value is printable.
-/

import Elogind.Basic.EnvLine
import Elogind.Basic.Escape

namespace Elogind

open List

-- for what is checked for each byte
set_option maxRecDepth 2000

open Byte EnvParser

/-! ## Unquoted values -/

namespace EnvParser

/-- The parser has read `k=` and an unquoted value so far. -/
def inValue (k acc : Bytes) (last : Option Nat) : EnvParser where
  state := .value
  key := k
  value := some acc
  lastKeyWhitespace := none
  lastValueWhitespace := last

/-- Inside an unquoted value the text `w` stands for `v`. -/
inductive Encodes : Bytes → Bytes → Prop where
  | nil : Encodes [] []
  | plain {c : UInt8} {w v : Bytes} (hn : isNewline c = false) (hb : c ≠ backslash)
      (h : Encodes w v) : Encodes (c :: w) (c :: v)
  | escaped {c : UInt8} {w v : Bytes} (hn : isNewline c = false) (h : Encodes w v) :
      Encodes (backslash :: c :: w) (c :: v)

variable {w v acc : Bytes} {last : Option Nat}

theorem Encodes.append {w' v' : Bytes} (h : Encodes w v) (h' : Encodes w' v') :
    Encodes (w ++ w') (v ++ v') := by
  induction h with
  | nil => exact h'
  | plain hn hb _ ih => exact .plain hn hb ih
  | escaped hn _ ih => exact .escaped hn ih

theorem Encodes.self (h : ∀ c ∈ w, isNewline c = false ∧ c ≠ backslash) : Encodes w w := by
  induction w with
  | nil => exact .nil
  | cons c w ih =>
      obtain ⟨hn, hb⟩ := h c mem_cons_self
      exact .plain hn hb (ih fun d hd => h d (mem_cons_of_mem c hd))

/-- Where the white space at the end of a value starts. -/
structure Trailing (v : Bytes) (last : Option Nat) : Prop where
  bound : ∀ n, last = some n → n ≤ v.length
  none_of_text : ∀ c, v.getLast? = some c → isWhitespace c = false → last = none

theorem trailing_single (c : UInt8) : Trailing [c] none := ⟨by simp, fun _ _ _ => rfl⟩

/-- A byte of an unquoted value. -/
theorem step_plain {k : Bytes} {c : UInt8} (hn : isNewline c = false) (hb : c ≠ backslash)
    (hlast : Trailing acc last) :
    ∃ last', (inValue k acc last).step c = (inValue k (acc ++ [c]) last', []) ∧
      Trailing (acc ++ [c]) last' ∧ (isWhitespace c = true → ∃ n, last' = some n ∧ n ≤ acc.length) := by
  refine ⟨if !isWhitespace c then none else if last.isNone then some acc.length else last,
    ?_, ⟨?_, ?_⟩, ?_⟩
  · simp [step, inValue, hn, hb, appendValue]
  · intro n hl
    have hbound := hlast.bound n
    rw [length_append]
    split at hl
    · cases hl
    split at hl
    · cases hl
      omega
    · have := hbound hl
      omega
  · intro d hd hws
    have hd' : c = d := by simpa using hd
    subst hd'
    simp [hws]
  · intro hws
    simp only [hws, Bool.not_true, Bool.false_eq_true, if_false]
    cases last with
    | none => exact ⟨acc.length, rfl, Nat.le_refl _⟩
    | some n => exact ⟨n, rfl, hlast.bound n rfl⟩

/-- An escaped byte of an unquoted value. -/
theorem run_escaped {k : Bytes} {c : UInt8} (hn : isNewline c = false) :
    (inValue k acc last).run [backslash, c] = (inValue k (acc ++ [c]) none, []) := by
  have hnb : isNewline backslash = false := by decide
  simp [run, step, inValue, hn, hnb, appendValue]

/-- An unquoted value is read to its end. -/
theorem run_encodes (h : Encodes w v) (k : Bytes) (hlast : Trailing acc last) :
    ∃ last', (inValue k acc last).run w = (inValue k (acc ++ v) last', []) ∧
      Trailing (acc ++ v) last' := by
  induction h generalizing acc last with
  | nil => exact ⟨last, by simp [run], by simpa using hlast⟩
  | @plain c w v hn hb _ ih =>
      obtain ⟨last₁, hstep, hlast₁, _⟩ := step_plain (k := k) hn hb hlast
      obtain ⟨last₂, hrun, hlast₂⟩ := ih hlast₁
      refine ⟨last₂, ?_, by simpa using hlast₂⟩
      simp only [run, hstep, hrun, append_assoc, singleton_append, append_nil]
  | @escaped c w v hn _ ih =>
      have htrail : Trailing (acc ++ [c]) none := ⟨by simp, fun _ _ _ => rfl⟩
      obtain ⟨last₂, hrun, hlast₂⟩ := ih htrail
      refine ⟨last₂, ?_, by simpa using hlast₂⟩
      have hsplit : backslash :: c :: w = [backslash, c] ++ w := rfl
      rw [hsplit, run_append, run_escaped hn]
      simp only [hrun, append_assoc, singleton_append, append_nil]

/-- A text that starts with neither white space nor a quote is read as an
    unquoted value. -/
theorem run_atValue_encodes (h : Encodes w v) (hne : w ≠ []) (k : Bytes)
    (hfirst : ∀ c, w.head? = some c → isWhitespace c = false ∧ c ≠ singleQuote ∧ c ≠ doubleQuote) :
    ∃ last, (atValue k).run w = (inValue k v last, []) ∧ Trailing v last := by
  -- the first byte decides how the value is entered
  cases h with
  | nil => exact absurd rfl hne
  | @plain c w v hn hb h =>
      obtain ⟨hws, hsq, hdq⟩ := hfirst c rfl
      obtain ⟨last, hrun, hlast⟩ := run_encodes h k (trailing_single c)
      have hstep : (atValue k).step c = (inValue k [c] none, []) := by
        simp [step, atValue, inValue, hn, hsq, hdq, hb, hws, appendValue]
      refine ⟨last, ?_, hlast⟩
      simp only [run, hstep, hrun, singleton_append, append_nil]
  | @escaped c w v hn h =>
      obtain ⟨last, hrun, hlast⟩ := run_encodes h k (trailing_single c)
      have hstart : (atValue k).run [backslash, c] = (inValue k [c] none, []) := by
        have hnb : isNewline backslash = false := by decide
        have hsq : backslash ≠ singleQuote := by decide
        have hdq : backslash ≠ doubleQuote := by decide
        simp [run, step, atValue, inValue, hn, hnb, hsq, hdq, appendValue]
      refine ⟨last, ?_, hlast⟩
      have hsplit : backslash :: c :: w = [backslash, c] ++ w := rfl
      rw [hsplit, run_append, hstart]
      simp only [hrun, singleton_append, append_nil]

/-- White space before a value is skipped. -/
theorem run_atValue_spaces {s : Bytes} (h : ∀ c ∈ s, c = space) (k : Bytes) :
    (atValue k).run s = (atValue k, []) := by
  induction s with
  | nil => rfl
  | cons c s ih =>
      have hc : c = space := h c mem_cons_self
      have hstep : (atValue k).step c = (atValue k, []) := by
        rw [hc]
        rfl
      simp [run, hstep, ih fun d hd => h d (mem_cons_of_mem c hd)]

end EnvParser

variable {w v : Bytes} {c : UInt8}

theorem staysOnLine_of_run {last : Option Nat} (h : (atValue []).run w = (inValue [] v last, [])) :
    staysOnLine w = true ∧ readBack w = some (chomp last v) := by
  have hstays : staysOnLine w = true := by simp [staysOnLine, h, inValue]
  refine ⟨hstays, ?_⟩
  simp [readBack_eq_assignment hstays, h, assignment, inValue]

/-- A value that does not end in white space and whose text starts with neither
    white space nor a quote is read back. -/
theorem readBack_of_encodes (h : Encodes w v) (hne : w ≠ [])
    (hfirst : ∀ c, w.head? = some c → isWhitespace c = false ∧ c ≠ singleQuote ∧ c ≠ doubleQuote)
    (hlast : ∀ c, v.getLast? = some c → isWhitespace c = false) :
    staysOnLine w = true ∧ readBack w = some v := by
  obtain ⟨last, hrun, htrail⟩ := run_atValue_encodes h hne [] hfirst
  obtain ⟨hstays, hread⟩ := staysOnLine_of_run hrun
  refine ⟨hstays, ?_⟩
  cases hv : v.getLast? with
  | none =>
      have : v = [] := by simpa using hv
      subst this
      rw [hread]
      cases last <;> simp [chomp]
  | some c => rw [hread, htrail.none_of_text c hv (hlast c hv), chomp]

theorem eq_append_of_getLast? (h : v.getLast? = some c) : ∃ u, v = u ++ [c] := by
  have hne : v ≠ [] := by
    rintro rfl
    cases h
  rw [getLast?_eq_some_getLast hne, Option.some.injEq] at h
  exact ⟨v.dropLast, by rw [← h, dropLast_concat_getLast hne]⟩

/-- White space at the end of a value is lost. -/
theorem readBack_trailing {last : Option Nat} (hrun : (atValue []).run w = (inValue [] v last, []))
    (htrail : Trailing v last) (hn : isNewline c = false) (hws : isWhitespace c = true) :
    readBack (w ++ [c]) ≠ some (v ++ [c]) := by
  have hb : c ≠ backslash := by
    rintro rfl
    exact absurd hws (by decide)
  obtain ⟨last', hstep, _, hlast⟩ := step_plain (k := []) hn hb htrail
  obtain ⟨n, rfl, hle⟩ := hlast hws
  have hrun' : (atValue []).run (w ++ [c]) = (inValue [] (v ++ [c]) (some n), []) := by
    rw [run_append, hrun, run_singleton, hstep]
    rfl
  rw [(staysOnLine_of_run hrun').2]
  intro heq
  have hlen := congrArg length (Option.some.inj heq)
  simp only [chomp, length_take, length_append, length_singleton] at hlen
  omega

/-! ## Plain texts -/

/-- A text that can be written as it is: it is not empty, has no newline and no
    backslash, starts with neither white space nor a quote, and does not end in
    white space. -/
structure PlainText (v : Bytes) : Prop where
  ne_nil : v ≠ []
  chars : ∀ c ∈ v, isNewline c = false ∧ c ≠ backslash
  first : ∀ c, v.head? = some c → isWhitespace c = false ∧ c ≠ singleQuote ∧ c ≠ doubleQuote
  last : ∀ c, v.getLast? = some c → isWhitespace c = false

theorem PlainText.staysOnLine (h : PlainText v) : staysOnLine v = true :=
  (readBack_of_encodes (.self h.chars) h.ne_nil h.first h.last).1

theorem PlainText.readBack_eq (h : PlainText v) : readBack v = some v :=
  (readBack_of_encodes (.self h.chars) h.ne_nil h.first h.last).2

namespace EnvParser

/-- No byte adds more than itself to a value. -/
theorem run_pending_length {p : EnvParser} (hp : p.HasKey) {w : Bytes} (h : (p.run w).2 = []) :
    (p.run w).1.pending.length ≤ p.pending.length + w.length := by
  induction w generalizing p with
  | nil => exact Nat.le_refl _
  | cons c w ih =>
      simp only [run, append_eq_nil_iff] at h
      have hrest := ih (step_hasKey hp h.1 p.key).2.2 h.2
      have hstep : (p.step c).1.pending.length ≤ p.pending.length + 1 := by
        rcases step_pending hp h.1 with heq | ⟨_, heq⟩ | ⟨v, hv, heq | ⟨_, heq⟩⟩
        · simp [heq]
        · simp [heq]
        · simp [heq, hv]
        · simp only [heq, hv, length_append, length_singleton]
          omega
      simp only [run, length_cons]
      omega

end EnvParser

/-- A text from whose start a byte is dropped is longer than its value. -/
theorem readBack_length_lt {w₀ : Bytes} (h : staysOnLine (w₀ ++ w) = true)
    (hdrop : ((atValue []).run w₀).1.pending.length < w₀.length) (hv : readBack (w₀ ++ w) = some v) :
    v.length < (w₀ ++ w).length := by
  have hassignment := readBack_eq_assignment h
  simp only [staysOnLine, Bool.and_eq_true, Bool.or_eq_true, beq_iff_eq, List.isEmpty_iff] at h
  obtain ⟨hnone, _⟩ := h
  have hkey : (atValue []).HasKey := by simp [HasKey, atValue]
  have hsplit := run_append (atValue []) w₀ w
  have hnone₀ : ((atValue []).run w₀).2 = [] ∧ (((atValue []).run w₀).1.run w).2 = [] := by
    rw [hsplit] at hnone
    simpa using hnone
  have hkey₀ : ((atValue []).run w₀).1.HasKey := (run_reading
    ⟨hkey, .nil, fun _ => rfl, by simp [atValue]⟩ hnone₀.1).hasKey
  have hlen := run_pending_length hkey₀ hnone₀.2
  have hpending : v.length ≤ ((atValue []).run (w₀ ++ w)).1.pending.length := by
    rw [hassignment] at hv
    generalize ((atValue []).run (w₀ ++ w)).1 = q at hv
    unfold assignment at hv
    unfold pending
    split at hv
    · obtain ⟨u, hu, rfl⟩ := Option.map_eq_some_iff.mp hv
      have hchomp : (chomp q.lastValueWhitespace u).length ≤ u.length := by
        cases q.lastValueWhitespace with
        | none => exact Nat.le_refl _
        | some n => exact (take_sublist n u).length_le
      simp only [hu, Option.getD_some, length_append]
      omega
    · have hv' : q.value = some v := hv
      simp [hv']
  rw [hsplit] at hpending
  rw [length_append]
  simp only at hpending
  omega

/-- The text up to its first newline or backslash. -/
theorem exists_plain_prefix (w : Bytes) :
    (∀ c ∈ w, isNewline c = false ∧ c ≠ backslash) ∨
      ∃ u c t, w = u ++ c :: t ∧ (∀ d ∈ u, isNewline d = false ∧ d ≠ backslash) ∧
        (isNewline c = true ∨ c = backslash) := by
  induction w with
  | nil => exact .inl (by simp)
  | cons c w ih =>
      by_cases hc : isNewline c = true ∨ c = backslash
      · exact .inr ⟨[], c, w, rfl, by simp, hc⟩
      · have hc' : isNewline c = false ∧ c ≠ backslash := by
          rw [not_or] at hc
          exact ⟨by simpa using hc.1, hc.2⟩
        rcases ih with ih | ⟨u, d, t, rfl, hu, hd⟩
        · exact .inl (forall_mem_cons.mpr ⟨hc', ih⟩)
        · exact .inr ⟨c :: u, d, t, rfl, forall_mem_cons.mpr ⟨hc', hu⟩, hd⟩

/-- A text that is written as it is and stays on its line is read back exactly
    when it is plain. -/
theorem readBack_eq_self_iff (h : staysOnLine w = true) : readBack w = some w ↔ PlainText w := by
  refine ⟨fun hread => ?_, fun hplain => hplain.readBack_eq⟩
  -- nothing may be dropped
  have hkept : ∀ w₀ t, w = w₀ ++ t → w₀.length ≤ ((atValue []).run w₀).1.pending.length := by
    rintro w₀ t rfl
    refine Nat.le_of_not_lt fun hdrop => ?_
    exact absurd (readBack_length_lt h hdrop hread) (Nat.lt_irrefl _)
  have hne : w ≠ [] := by
    rintro rfl
    cases hread
  have hfirst : ∀ c, w.head? = some c → isWhitespace c = false ∧ c ≠ singleQuote ∧
      c ≠ doubleQuote ∧ c ≠ backslash := by
    intro c hc
    obtain ⟨t, rfl⟩ : ∃ t, w = c :: t := by
      cases w with
      | nil => cases hc
      | cons d t => exact ⟨t, by simpa using hc⟩
    have hlen := hkept [c] t rfl
    have hall : ∀ c, [c].length ≤ ((atValue []).run [c]).1.pending.length →
        isWhitespace c = false ∧ c ≠ singleQuote ∧ c ≠ doubleQuote ∧ c ≠ backslash := by
      decide
    exact hall c hlen
  have hchars : ∀ c ∈ w, isNewline c = false ∧ c ≠ backslash := by
    rcases exists_plain_prefix w with hw | ⟨u, c, t, rfl, hu, hc⟩
    · exact hw
    exfalso
    have hune : u ≠ [] := by
      rintro rfl
      obtain ⟨hws, _, _, hb⟩ := hfirst c rfl
      rcases hc with hc | hc
      · simp [isWhitespace_of_isNewline hc] at hws
      · exact hb hc
    obtain ⟨last, hrun, _⟩ := run_atValue_encodes (.self hu) hune [] fun d hd => by
      have hf := hfirst d (by rw [head?_append, hd]; rfl)
      exact ⟨hf.1, hf.2.1, hf.2.2.1⟩
    rcases hc with hc | rfl
    · -- the line would end here
      simp only [staysOnLine, Bool.and_eq_true, List.isEmpty_iff] at h
      rw [run_append, hrun] at h
      simp [run, step, inValue, hc] at h
    · have hlen := hkept (u ++ [backslash]) t (by simp)
      have hnb : isNewline backslash = false := by decide
      rw [run_append, hrun, run_singleton] at hlen
      simp [step, inValue, hnb, pending] at hlen
  refine ⟨hne, hchars, fun c hc => ⟨(hfirst c hc).1, (hfirst c hc).2.1, (hfirst c hc).2.2.1⟩, ?_⟩
  intro c hc
  cases hws : isWhitespace c with
  | false => rfl
  | true =>
      exfalso
      obtain ⟨u, rfl⟩ := eq_append_of_getLast? hc
      have hu : ∀ d ∈ u, isNewline d = false ∧ d ≠ backslash := fun d hd =>
        hchars d (mem_append_left _ hd)
      have hune : u ≠ [] := by
        rintro rfl
        simp [(hfirst c rfl).1] at hws
      obtain ⟨last, hrun, htrail⟩ := run_atValue_encodes (.self hu) hune [] fun d hd => by
        have hf := hfirst d (by rw [head?_append, hd]; rfl)
        exact ⟨hf.1, hf.2.1, hf.2.2.1⟩
      have hn := (hchars c (by simp)).1
      exact readBack_trailing hrun htrail hn hws hread

/-- A byte of a word: neither white space nor a quote nor a backslash. -/
def isWordChar (c : UInt8) : Bool :=
  !isWhitespace c && c != singleQuote && c != doubleQuote && c != backslash

theorem isWordChar_iff (h : isWordChar c = true) :
    isWhitespace c = false ∧ isNewline c = false ∧ c ≠ singleQuote ∧ c ≠ doubleQuote ∧
      c ≠ backslash := by
  simp only [isWordChar, Bool.and_eq_true, Bool.not_eq_true', bne_iff_ne, ne_eq] at h
  obtain ⟨⟨⟨hws, hsq⟩, hdq⟩, hb⟩ := h
  refine ⟨hws, ?_, hsq, hdq, hb⟩
  cases hn : isNewline c with
  | false => rfl
  | true => simp [isWhitespace_of_isNewline hn] at hws

theorem PlainText.of_word (hne : v ≠ []) (h : ∀ c ∈ v, isWordChar c = true) : PlainText v where
  ne_nil := hne
  chars c hc := ⟨(isWordChar_iff (h c hc)).2.1, (isWordChar_iff (h c hc)).2.2.2.2⟩
  first c hc :=
    have hw := isWordChar_iff (h c (mem_of_mem_head? hc))
    ⟨hw.1, hw.2.2.1, hw.2.2.2.1⟩
  last c hc := (isWordChar_iff (h c (mem_of_mem_getLast? hc))).1

/-! ## Escaped texts -/

/-- A text that survives escaping: it is not empty, all of it is printable
    ASCII, and it neither starts nor ends with a space. -/
structure PrintableText (v : Bytes) : Prop where
  ne_nil : v ≠ []
  chars : ∀ c ∈ v, isPrintable c = true
  first : v.head? ≠ some space
  last : v.getLast? ≠ some space

/-- What the reader makes of an escaped byte: the escape without its
    backslash. -/
def unescapedChar (c : UInt8) : Bytes :=
  if cescapeChar c = [c] then [c] else (cescapeChar c).tail

def unescaped (v : Bytes) : Bytes := v.flatMap unescapedChar

/-- The shape of an escaped byte: the byte itself, or a backslash and some
    bytes. -/
def escapeShape (c : UInt8) : Bytes → Bool
  | [] => false
  | [d] =>
    d == c && !isNewline c && c != backslash && c != singleQuote && c != doubleQuote
  | b :: d :: r => b == backslash && !isNewline d && r.all fun e => !isNewline e && e != backslash

theorem escapeShape_cescapeChar : ∀ c, escapeShape c (cescapeChar c) = true := by
  decide

theorem cescapeChar_cases (c : UInt8) :
    (cescapeChar c = [c] ∧ isNewline c = false ∧ c ≠ backslash ∧ c ≠ singleQuote ∧
        c ≠ doubleQuote) ∨
      ∃ d r, cescapeChar c = backslash :: d :: r ∧ isNewline d = false ∧
        ∀ e ∈ r, isNewline e = false ∧ e ≠ backslash := by
  have h := escapeShape_cescapeChar c
  match hc : cescapeChar c with
  | [] => simp [hc, escapeShape] at h
  | [d] =>
      simp only [hc, escapeShape, Bool.and_eq_true, beq_iff_eq, Bool.not_eq_true', bne_iff_ne] at h
      obtain ⟨⟨⟨⟨rfl, hn⟩, hb⟩, hsq⟩, hdq⟩ := h
      exact .inl ⟨rfl, hn, hb, hsq, hdq⟩
  | b :: d :: r =>
      simp only [hc, escapeShape, Bool.and_eq_true, beq_iff_eq, Bool.not_eq_true',
        all_eq_true, bne_iff_ne] at h
      obtain ⟨⟨rfl, hn⟩, hr⟩ := h
      exact .inr ⟨d, r, rfl, hn, hr⟩

theorem encodes_cescapeChar (c : UInt8) : Encodes (cescapeChar c) (unescapedChar c) := by
  rcases cescapeChar_cases c with ⟨hc, hn, hb, _⟩ | ⟨d, r, hc, hn, hr⟩
  · rw [unescapedChar, if_pos hc, hc]
    exact .plain hn hb .nil
  · have hne : cescapeChar c ≠ [c] := by simp [hc]
    rw [unescapedChar, if_neg hne, hc]
    exact .escaped hn (.self hr)

theorem encodes_cescape (v : Bytes) : Encodes (cescape v) (unescaped v) := by
  induction v with
  | nil => exact .nil
  | cons c v ih => exact (encodes_cescapeChar c).append ih

theorem unescapedChar_of_isPrintable (h : isPrintable c = true) : unescapedChar c = [c] := by
  have hall : ∀ c, isPrintable c = true → unescapedChar c = [c] := by decide
  exact hall c h

theorem unescapedChar_head (c : UInt8) :
    ∃ d r, unescapedChar c = d :: r ∧ isPrintable d = true ∧ (c ≠ space → d ≠ space) := by
  have hall : ∀ c, (unescapedChar c).head?.any
      (fun d => isPrintable d && (c == space || d != space)) = true := by decide
  have hc := hall c
  cases hu : unescapedChar c with
  | nil => simp [hu] at hc
  | cons d r =>
      rw [hu] at hc
      refine ⟨d, r, rfl, ?_⟩
      simp only [head?_cons, Option.any_some, Bool.and_eq_true, Bool.or_eq_true, beq_iff_eq,
        bne_iff_ne] at hc
      exact ⟨hc.1, fun hne => hc.2.resolve_left hne⟩

theorem unescaped_of_isPrintable (h : ∀ c ∈ v, isPrintable c = true) : unescaped v = v := by
  unfold unescaped
  induction v with
  | nil => rfl
  | cons c v ih =>
      rw [flatMap_cons, unescapedChar_of_isPrintable (h c mem_cons_self),
        ih fun d hd => h d (mem_cons_of_mem c hd)]
      rfl

/-- Only a printable text starts what the reader makes of it. -/
theorem isPrintable_of_prefix (h : v <+: unescaped v) : ∀ c ∈ v, isPrintable c = true := by
  unfold unescaped at h
  induction v with
  | nil => simp
  | cons c v ih =>
      obtain ⟨d, r, hd, hprint, _⟩ := unescapedChar_head c
      have hcd : c = d := by
        rw [flatMap_cons, hd, cons_append] at h
        exact (cons_prefix_cons.mp h).1
      have hc : isPrintable c = true := by rwa [hcd]
      rw [flatMap_cons, unescapedChar_of_isPrintable hc, singleton_append] at h
      have htail := ih (cons_prefix_cons.mp h).2
      intro e he
      rcases mem_cons.mp he with rfl | he
      · exact hc
      · exact htail e he

theorem cescapeChar_space : cescapeChar space = [space] := by decide

/-- The text of an escaped value that does not start with a space starts with
    neither white space nor a quote. -/
theorem cescape_head (hc : c ≠ space) :
    cescape (c :: v) ≠ [] ∧ ∀ d, (cescape (c :: v)).head? = some d →
      isWhitespace d = false ∧ d ≠ singleQuote ∧ d ≠ doubleQuote := by
  rw [cescape, flatMap_cons]
  rcases cescapeChar_cases c with ⟨heq, hn, _, hsq, hdq⟩ | ⟨d, r, heq, _⟩
  · rw [heq]
    refine ⟨by simp, ?_⟩
    intro d hd
    have hd' : c = d := by simpa using hd
    subst hd'
    have hprint : isPrintable c = true := isPrintable_of_mem_cescapeChar (heq ▸ mem_singleton_self c)
    have hall : ∀ c, isPrintable c = true → c ≠ space → isWhitespace c = false := by decide
    exact ⟨hall c hprint hc, hsq, hdq⟩
  · rw [heq]
    refine ⟨by simp, ?_⟩
    intro e he
    have he' : backslash = e := by simpa using he
    subst he'
    decide

/-- The spaces at the start of a value are lost; the rest is read without its
    backslashes. -/
theorem run_cescape (s v : Bytes) (hs : ∀ c ∈ s, c = space) (k : Bytes) :
    (v = [] ∧ (atValue k).run (cescape (s ++ v)) = (atValue k, [])) ∨
      v.head? = some space ∨
      ∃ last, (atValue k).run (cescape (s ++ v)) = (inValue k (unescaped v) last, []) ∧
        Trailing (unescaped v) last := by
  have hspaces : cescape s = s := by
    unfold cescape
    induction s with
    | nil => rfl
    | cons c s ih =>
        rw [flatMap_cons, hs c mem_cons_self, cescapeChar_space,
          ih fun d hd => hs d (mem_cons_of_mem c hd)]
        rfl
  have hsplit : (atValue k).run (cescape (s ++ v)) = (atValue k).run (cescape v) := by
    have hcat : cescape (s ++ v) = s ++ cescape v := by
      conv => rhs; rw [← hspaces]
      exact flatMap_append
    rw [hcat, run_append, run_atValue_spaces hs]
    rfl
  rw [hsplit]
  cases v with
  | nil => exact .inl ⟨rfl, rfl⟩
  | cons c v =>
      by_cases hc : c = space
      · exact .inr (.inl (by rw [hc]; rfl))
      · obtain ⟨hne, hfirst⟩ := cescape_head (v := v) hc
        exact .inr (.inr (run_atValue_encodes (encodes_cescape (c :: v)) hne k hfirst))

/-- A text is its leading spaces and a rest that does not start with one. -/
theorem exists_spaces (v : Bytes) :
    ∃ s t, v = s ++ t ∧ (∀ c ∈ s, c = space) ∧ t.head? ≠ some space := by
  induction v with
  | nil => exact ⟨[], [], rfl, by simp, by simp⟩
  | cons c v ih =>
      by_cases hc : c = space
      · obtain ⟨s, t, rfl, hs, ht⟩ := ih
        refine ⟨c :: s, t, rfl, ?_, ht⟩
        intro d hd
        rcases mem_cons.mp hd with rfl | hd
        · exact hc
        · exact hs d hd
      · exact ⟨[], c :: v, rfl, by simp, by simpa using hc⟩

/-- An escaped text stays on its line. -/
theorem staysOnLine_cescape (v : Bytes) : staysOnLine (cescape v) = true := by
  obtain ⟨s, t, rfl, hs, ht⟩ := exists_spaces v
  rcases run_cescape s t hs [] with ⟨_, hrun⟩ | hhead | ⟨last, hrun, _⟩
  · rw [staysOnLine, hrun]
    rfl
  · exact absurd hhead ht
  · exact (staysOnLine_of_run hrun).1

theorem chomp_prefix (last : Option Nat) (v : Bytes) : chomp last v <+: v := by
  cases last with
  | none => exact prefix_refl v
  | some n => exact take_prefix n v

/-- A trailing space is lost. -/
theorem readBack_cescape_space (hfirst : v.head? ≠ some space) (hprint : ∀ c ∈ v, isPrintable c = true)
    (hlast : v.getLast? = some space) : readBack (cescape v) ≠ some v := by
  obtain ⟨v₀, rfl⟩ := eq_append_of_getLast? hlast
  have hprint₀ : ∀ c ∈ v₀, isPrintable c = true := fun c hc =>
    hprint c (mem_append_left _ hc)
  rcases run_cescape [] v₀ (by simp) [] with ⟨rfl, _⟩ | hhead | ⟨last, hrun, htrail⟩
  · simp at hfirst
  · refine absurd ?_ hfirst
    cases v₀ with
    | nil => cases hhead
    | cons c v₀ => simpa using hhead
  · rw [nil_append, unescaped_of_isPrintable hprint₀] at hrun
    rw [unescaped_of_isPrintable hprint₀] at htrail
    have hcat : cescape (v₀ ++ [space]) = cescape v₀ ++ [space] := by
      simp [cescape, cescapeChar_space]
    rw [hcat]
    exact readBack_trailing hrun htrail (by decide) (by decide)

/-- An escaped text is read back exactly when it is printable. -/
theorem readBack_cescape_iff (v : Bytes) : readBack (cescape v) = some v ↔ PrintableText v := by
  obtain ⟨s, t, rfl, hs, ht⟩ := exists_spaces v
  rcases run_cescape s t hs [] with ⟨rfl, hrun⟩ | hhead | ⟨last, hrun, htrail⟩
  · -- nothing but spaces
    have hnone : readBack (cescape (s ++ [])) = none := by
      rw [readBack_eq_assignment (staysOnLine_cescape _), hrun]
      rfl
    rw [hnone]
    refine ⟨fun h => (nomatch h), fun h => absurd ?_ h.first⟩
    cases s with
    | nil => exact absurd rfl h.ne_nil
    | cons c s => rw [hs c mem_cons_self]; rfl
  · exact absurd hhead ht
  · have hread := (staysOnLine_of_run hrun).2
    constructor
    · intro h
      rw [hread] at h
      have hstart : s ++ t <+: unescaped t := Option.some.inj h ▸ chomp_prefix last (unescaped t)
      -- the value read does not start with a space
      have hs_nil : s = [] := by
        cases s with
        | nil => rfl
        | cons c s =>
            have hc := hs c mem_cons_self
            cases t with
            | nil => simp [unescaped] at hstart
            | cons e t =>
                obtain ⟨d, r, hd, _, hne⟩ := unescapedChar_head e
                rw [unescaped, flatMap_cons, hd] at hstart
                have hcd : c = d := (cons_prefix_cons.mp hstart).1
                exact absurd (hcd ▸ hc) (hne (by simpa using ht))
      subst hs_nil
      rw [nil_append] at hstart h hread
      have hprint := isPrintable_of_prefix hstart
      refine ⟨?_, hprint, ht, fun hlast => readBack_cescape_space ht hprint hlast ?_⟩
      · intro hnil
        subst hnil
        cases hrun
      · rw [hread, h]
    · intro h
      have hs_nil : s = [] := by
        cases s with
        | nil => rfl
        | cons c s => exact absurd (by rw [hs c mem_cons_self]; rfl) h.first
      subst hs_nil
      rw [nil_append] at h hread ⊢
      rw [unescaped_of_isPrintable h.chars] at hread htrail
      obtain ⟨c, hc⟩ : ∃ c, t.getLast? = some c :=
        ⟨_, getLast?_eq_some_getLast h.ne_nil⟩
      have hall : ∀ c, isPrintable c = true → c ≠ space → isWhitespace c = false := by
        decide
      have hws := hall c (h.chars c (mem_of_mem_getLast? hc)) fun hsp => h.last (hsp ▸ hc)
      rw [hread, htrail.none_of_text c hc hws, chomp]

end Elogind
