/-
  Elogind.Basic.EscapeRoundTrip

  `cunescape_length_with_prefix` with its flags, `xescape_full` with the width of
  the console (escape.c), and that unescaping undoes both ways of escaping.
-/

import Elogind.Basic.Errno
import Elogind.Basic.Unescape

namespace Elogind

open List

-- for what is checked for each byte
set_option maxRecDepth 2000

open Byte

/-! ## Unescaping with flags -/

/-- `UnescapeFlags` -/
structure UnescapeFlags where
  relax : Bool := false
  acceptNul : Bool := false
  deriving DecidableEq, Repr

/-- What `cunescape_one` returns: the character, whether it is a byte that is to be
    copied directly, and the length of the escape. -/
structure UnescapedChar where
  ret : Nat
  eightBit : Bool
  length : Nat
  deriving DecidableEq, Repr

/-- The octal escapes of `cunescape_one` -/
def cunescapeOctal (acceptNul : Bool) : Bytes → Result UnescapedChar
  | c₁ :: c₂ :: c₃ :: _ =>
    match unoctchar c₁, unoctchar c₂, unoctchar c₃ with
    | some a, some b, some c =>
      if (a = 0 ∧ b = 0 ∧ c = 0) ∧ !acceptNul then .error .EINVAL
      else if 64 * a + 8 * b + c > 255 then .error .EINVAL
      else .ok ⟨64 * a + 8 * b + c, true, 3⟩
    | _, _, _ => .error .EINVAL
  | _ => .error .EINVAL

/-- `cunescape_one`, after the backslash -/
def cunescapeOneFull (acceptNul : Bool) : Bytes → Result UnescapedChar
  | [] => .error .EINVAL
  | c :: p =>
    if c = 'x'.toUInt8 then
      match unhexchars 2 p 0 with
      | none => .error .EINVAL
      | some u => if u = 0 ∧ !acceptNul then .error .EINVAL else .ok ⟨u, true, 3⟩
    else if c = 'u'.toUInt8 then
      match unhexchars 4 p 0 with
      | none => .error .EINVAL
      | some u => if u = 0 ∧ !acceptNul then .error .EINVAL else .ok ⟨u, false, 5⟩
    else if c = 'U'.toUInt8 then
      match unhexchars 8 p 0 with
      | none => .error .EINVAL
      | some u =>
        if u = 0 ∧ !acceptNul then .error .EINVAL
        else if !unicharIsValid u then .error .EINVAL
        else .ok ⟨u, false, 9⟩
    else
      match letterEscape c with
      | some d => .ok ⟨d.toNat, false, 1⟩
      | none => cunescapeOctal acceptNul (c :: p)

/-- The bytes that are written for a character. -/
def UnescapedChar.bytes (u : UnescapedChar) : Bytes :=
  if u.eightBit then [UInt8.ofNat u.ret] else utf8EncodeUnichar u.ret

/-- The loop of `cunescape_length_with_prefix` -/
def cunescapeLoop (flags : UnescapeFlags) : Bytes → Result Bytes
  | [] => .ok []
  | c :: s =>
    if c ≠ backslash then (cunescapeLoop flags s).map (c :: ·)
    else
      -- a backslash at the end has nothing after it, and is no escape either
      match cunescapeOneFull flags.acceptNul s with
      | .error e =>
        if flags.relax then (cunescapeLoop flags s).map (backslash :: ·) else .error e
      | .ok u => (cunescapeLoop flags (s.drop u.length)).map (u.bytes ++ ·)
  termination_by s => s.length
  decreasing_by
    · exact Nat.lt_succ_self _
    · exact Nat.lt_succ_self _
    · rw [List.length_drop, List.length_cons]
      omega

/-- `cunescape_length_with_prefix`; a prefix that is NULL is the empty one. -/
def cunescapeLengthWithPrefix (s pre : Bytes) (flags : UnescapeFlags) : Result Bytes :=
  (cunescapeLoop flags s).map (pre ++ ·)

/-- `cunescape_length` -/
def cunescapeLength (s : Bytes) (flags : UnescapeFlags) : Result Bytes :=
  cunescapeLengthWithPrefix s [] flags

/-! ## Escaping for a console -/

/-- `XEscapeFlags` -/
structure XEscapeFlags where
  eightBit : Bool := false
  forceEllipsis : Bool := false
  deriving DecidableEq, Repr

/-- The byte is written as an escape. -/
def needsXescape (bad : Bytes) (flags : XEscapeFlags) (c : UInt8) : Bool :=
  c < space || (!flags.eightBit && c ≥ 127) || c == backslash || bad.contains c

/-- What is written for a byte. -/
def xescapeFullChar (bad : Bytes) (flags : XEscapeFlags) (c : UInt8) : Bytes :=
  if needsXescape bad flags c then [backslash, 'x'.toUInt8, hexchar (c >>> 4), hexchar c] else [c]

/-- Where the loop of `xescape_full` has stopped: what is written, whether the text
    was complete by then, and the two positions to which it can go back. -/
structure XEscaped where
  text : Bytes
  complete : Bool
  prev : Nat
  prev2 : Nat
  deriving DecidableEq, Repr

/-- The loop of `xescape_full` -/
def xescapeLoop (bad : Bytes) (consoleWidth : Nat) (flags : XEscapeFlags) :
    Bytes → Bytes → Nat → Nat → XEscaped
  | [], t, prev, prev2 => ⟨t, !flags.forceEllipsis, prev, prev2⟩
  | c :: s, t, prev, prev2 =>
    let e := xescapeFullChar bad flags c
    if t.length + e.length + (if flags.forceEllipsis then 3 else 0) > consoleWidth then
      ⟨t, false, prev, prev2⟩
    else xescapeLoop bad consoleWidth flags s (t ++ e) t.length prev

/-- Where the dots go when a text is cut. -/
def XEscaped.off (x : XEscaped) (consoleWidth : Nat) : Nat :=
  let room := consoleWidth - min consoleWidth 3
  if room ≥ x.text.length then x.text.length
  else if room ≥ x.prev then x.prev
  else if room ≥ x.prev2 then x.prev2
  else room

/-- `xescape_full` -/
def xescapeFull (s bad : Bytes) (consoleWidth : Nat) (flags : XEscapeFlags) : Bytes :=
  if consoleWidth = 0 then []
  else
    let x := xescapeLoop bad consoleWidth flags s [] 0 0
    if x.complete then x.text
    else x.text.take (x.off consoleWidth) ++ (ascii "...").take (min consoleWidth 3)

/-! ## The functions without flags -/

theorem utf8EncodeUnichar_letter {c d : UInt8} (h : letterEscape c = some d) :
    utf8EncodeUnichar d.toNat = [d] := by
  have hall : ∀ c, ((letterEscape c).map fun d => utf8EncodeUnichar d.toNat) =
      (letterEscape c).map fun d => [d] := by decide
  have hc := hall c
  rw [h] at hc
  exact Option.some.inj hc

/-- A text that fits on the console is written as `xescape` writes it. -/
theorem xescapeLoop_complete (bad : Bytes) (consoleWidth : Nat) (s t : Bytes) (prev prev2 : Nat)
    (h : t.length + (xescape s bad).length ≤ consoleWidth) :
    (xescapeLoop bad consoleWidth {} s t prev prev2).complete = true ∧
      (xescapeLoop bad consoleWidth {} s t prev prev2).text = t ++ xescape s bad := by
  have hchar : ∀ c, xescapeFullChar bad {} c = xescapeChar bad c := by
    intro c
    simp [xescapeFullChar, xescapeChar, needsXescape, or_assoc]
  induction s generalizing t prev prev2 with
  | nil => exact ⟨rfl, (append_nil t).symm⟩
  | cons c s ih =>
    have hsplit : xescape (c :: s) bad = xescapeChar bad c ++ xescape s bad := flatMap_cons
    rw [hsplit, length_append] at h
    rw [xescapeLoop, hchar, hsplit, ← append_assoc]
    show ((if _ then _ else _ : XEscaped).complete = true) ∧ _
    rw [if_neg (by simp; omega)]
    exact ih (t ++ xescapeChar bad c) t.length prev (by rw [length_append]; omega)

theorem xescapeFull_eq {s bad : Bytes} {consoleWidth : Nat}
    (h : (xescape s bad).length ≤ consoleWidth) : xescapeFull s bad consoleWidth {} = xescape s bad := by
  unfold xescapeFull
  split
  · next h0 =>
    rw [h0] at h
    exact (length_eq_zero_iff.mp (Nat.le_zero.mp h)).symm
  · obtain ⟨hcomplete, htext⟩ :=
      xescapeLoop_complete bad consoleWidth s [] 0 0 (by simpa using h)
    simp only [hcomplete, htext, if_true, nil_append]

/-! ## Escaped bytes -/

/-- The loop reads the escaped form of a byte as the byte, whatever comes after it. -/
def Undone (flags : UnescapeFlags) (c : UInt8) (e : Bytes) : Prop :=
  ∀ s, cunescapeLoop flags (e ++ s) = (cunescapeLoop flags s).map (c :: ·)

theorem undone_plain {c : UInt8} (hc : c ≠ backslash) (flags : UnescapeFlags) :
    Undone flags c [c] := by
  intro s
  rw [singleton_append, cunescapeLoop, if_pos hc]

/-- An escape is undone if `cunescape_one` reads just its own bytes. -/
theorem undone_escape {flags : UnescapeFlags} {c : UInt8} {e : Bytes} {u : UnescapedChar}
    (hone : ∀ s, cunescapeOneFull flags.acceptNul (e ++ s) = .ok u) (hlen : u.length = e.length)
    (hbytes : u.bytes = [c]) : Undone flags c (backslash :: e) := by
  intro s
  rw [cons_append, cunescapeLoop, if_neg (by simp), hone s]
  show (cunescapeLoop flags ((e ++ s).drop u.length)).map (u.bytes ++ ·) = _
  rw [hlen, drop_left, hbytes]
  rfl

theorem undone_letter {c d : UInt8} (h : letterEscape d = some c) (flags : UnescapeFlags) :
    Undone flags c [backslash, d] := by
  have hx : d ≠ 'x'.toUInt8 := by
    rintro rfl
    cases h
  have hu : d ≠ 'u'.toUInt8 := by
    rintro rfl
    cases h
  have hU : d ≠ 'U'.toUInt8 := by
    rintro rfl
    cases h
  refine undone_escape (u := ⟨c.toNat, false, 1⟩) (fun s => ?_) rfl (utf8EncodeUnichar_letter h)
  show cunescapeOneFull flags.acceptNul (d :: s) = _
  rw [cunescapeOneFull, if_neg hx, if_neg hu, if_neg hU, h]

/-- Three octal digits stand for the byte, unless it is NUL and NUL is not accepted. -/
theorem undone_octal {c : UInt8} {flags : UnescapeFlags} (h : c = 0 → flags.acceptNul = true) :
    Undone flags c [backslash, octchar (c >>> 6), octchar (c >>> 3), octchar c] := by
  have hdigits : ∀ c, letterEscape (octchar c) = none ∧ octchar c ≠ 'x'.toUInt8 ∧
      octchar c ≠ 'u'.toUInt8 ∧ octchar c ≠ 'U'.toUInt8 := by decide
  have hvalue : ∀ c : UInt8, unoctchar (octchar (c >>> 6)) = some (c >>> 6).toNat ∧
      unoctchar (octchar (c >>> 3)) = some ((c >>> 3) &&& 7).toNat ∧
      unoctchar (octchar c) = some (c &&& 7).toNat ∧
      64 * (c >>> 6).toNat + 8 * ((c >>> 3) &&& 7).toNat + (c &&& 7).toNat = c.toNat := by
    decide
  obtain ⟨hletter, hx, hu, hU⟩ := hdigits (c >>> 6)
  obtain ⟨h₁, h₂, h₃, hsum⟩ := hvalue c
  refine undone_escape (u := ⟨c.toNat, true, 3⟩) (fun s => ?_) rfl (by simp [UnescapedChar.bytes])
  show cunescapeOneFull flags.acceptNul
    (octchar (c >>> 6) :: octchar (c >>> 3) :: octchar c :: s) = _
  rw [cunescapeOneFull, if_neg hx, if_neg hu, if_neg hU, hletter]
  show cunescapeOctal flags.acceptNul _ = _
  rw [cunescapeOctal, h₁, h₂, h₃]
  have hlt : c.toNat < 256 := c.toNat_lt
  have hnul : ¬(((c >>> 6).toNat = 0 ∧ ((c >>> 3) &&& 7).toNat = 0 ∧ (c &&& 7).toNat = 0) ∧
      (!flags.acceptNul) = true) := by
    rintro ⟨⟨h₁, h₂, h₃⟩, hno⟩
    have hc : c = 0 := UInt8.toNat_inj.mp (by rw [← hsum, h₁, h₂, h₃]; rfl)
    rw [h hc] at hno
    cases hno
  show (if _ then _ else _ : Result UnescapedChar) = _
  rw [if_neg hnul, if_neg (by omega), hsum]

theorem undone_hex {c : UInt8} (hc : c ≠ 0) (flags : UnescapeFlags) :
    Undone flags c [backslash, 'x'.toUInt8, hexchar (c >>> 4), hexchar c] := by
  have hvalue : ∀ c : UInt8, unhexchars 2 [hexchar (c >>> 4), hexchar c] 0 = some c.toNat := by
    decide
  refine undone_escape (u := ⟨c.toNat, true, 3⟩) (fun s => ?_) rfl (by simp [UnescapedChar.bytes])
  have hdigits : unhexchars 2 (hexchar (c >>> 4) :: hexchar c :: s) 0 = some c.toNat := hvalue c
  have h0 : c.toNat ≠ 0 := fun h => hc (UInt8.toNat_inj.mp h)
  show cunescapeOneFull flags.acceptNul ('x'.toUInt8 :: hexchar (c >>> 4) :: hexchar c :: s) = _
  rw [cunescapeOneFull, if_pos rfl, hdigits]
  show (if _ then _ else _ : Result UnescapedChar) = _
  rw [if_neg fun h => h0 h.1]

/-- A byte is written as an escape of one letter, in octal or as it is. -/
theorem cescapeChar_kinds (c : UInt8) :
    (∃ d, cescapeChar c = [backslash, d] ∧ letterEscape d = some c) ∨
      cescapeChar c = [backslash, octchar (c >>> 6), octchar (c >>> 3), octchar c] ∨
      cescapeChar c = [c] ∧ c ≠ backslash := by
  have hall : ∀ c, (cescapeChar c = [backslash, (cescapeChar c).getD 1 0] ∧
      letterEscape ((cescapeChar c).getD 1 0) = some c) ∨
        cescapeChar c = [backslash, octchar (c >>> 6), octchar (c >>> 3), octchar c] ∨
        cescapeChar c = [c] ∧ c ≠ backslash := by decide
  rcases hall c with h | h
  · exact .inl ⟨_, h⟩
  · exact .inr h

theorem undone_cescapeChar {c : UInt8} {flags : UnescapeFlags}
    (h : c = 0 → flags.acceptNul = true) : Undone flags c (cescapeChar c) := by
  rcases cescapeChar_kinds c with ⟨d, heq, hd⟩ | heq | ⟨heq, hc⟩
  · rw [heq]
    exact undone_letter hd flags
  · rw [heq]
    exact undone_octal h
  · rw [heq]
    exact undone_plain hc flags

theorem undone_xescapeChar {c : UInt8} (hc : c ≠ 0) (bad : Bytes) (flags : UnescapeFlags) :
    Undone flags c (xescapeChar bad c) := by
  unfold xescapeChar
  split
  · exact undone_hex hc flags
  · next h =>
    simp only [not_or] at h
    exact undone_plain h.2.2.1 flags

theorem isPrintable_of_mem_xescapeChar {bad : Bytes} {c d : UInt8} (h : d ∈ xescapeChar bad c) :
    isPrintable d = true := by
  have hdigits : ∀ c, isPrintable (hexchar c) = true := by decide
  unfold xescapeChar at h
  split at h
  · simp only [mem_cons, not_mem_nil, or_false] at h
    rcases h with rfl | rfl | rfl | rfl
    · rfl
    · rfl
    · exact hdigits _
    · exact hdigits _
  · next hc =>
    simp only [not_or] at hc
    rw [mem_singleton.mp h]
    simpa [isPrintable] using And.intro hc.1 hc.2.1

/-! ## Round trips -/

/-- A text is had back when each of its bytes is. -/
theorem cunescapeLength_flatMap {flags : UnescapeFlags} {esc : UInt8 → Bytes} {x : Bytes}
    (h : ∀ c ∈ x, Undone flags c (esc c)) : cunescapeLength (x.flatMap esc) flags = .ok x := by
  have hloop : cunescapeLoop flags (x.flatMap esc) = .ok x := by
    induction x with
    | nil => rw [flatMap_nil, cunescapeLoop]
    | cons c x ih =>
      rw [flatMap_cons, h c mem_cons_self, ih fun d hd => h d (mem_cons_of_mem c hd)]
      rfl
  unfold cunescapeLength cunescapeLengthWithPrefix
  rw [hloop]
  rfl

/-- What `cescape_length` and `xescape` write is printable, and `cunescape_length`
    makes the text of it again: with `UNESCAPE_ACCEPT_NUL` every text, and else every
    text without a NUL byte. -/
theorem cunescapeLength_roundTrip :
    (∀ (x : Bytes) (flags : UnescapeFlags), flags.acceptNul = true ∨ 0 ∉ x →
      cunescapeLength (cescape x) flags = .ok x) ∧
    (∀ (x bad : Bytes) (consoleWidth : Nat) (flags : UnescapeFlags), 0 ∉ x →
      (xescape x bad).length ≤ consoleWidth →
      cunescapeLength (xescapeFull x bad consoleWidth {}) flags = .ok x) ∧
    (∀ (x : Bytes), ∀ c ∈ cescape x, isPrintable c = true) ∧
    (∀ (x bad : Bytes), ∀ c ∈ xescape x bad, isPrintable c = true) := by
  refine ⟨?_, ?_, ?_, ?_⟩
  · intro x flags hnul
    refine cunescapeLength_flatMap fun c hc => undone_cescapeChar ?_
    rintro rfl
    exact hnul.resolve_right fun hx => hx hc
  · intro x bad consoleWidth flags hnul hfits
    rw [xescapeFull_eq hfits]
    refine cunescapeLength_flatMap fun c hc => undone_xescapeChar ?_ bad flags
    rintro rfl
    exact hnul hc
  · intro x c hc
    obtain ⟨d, -, hd⟩ := mem_flatMap.mp hc
    exact isPrintable_of_mem_cescapeChar hd
  · intro x bad c hc
    obtain ⟨d, -, hd⟩ := mem_flatMap.mp hc
    exact isPrintable_of_mem_xescapeChar hd

end Elogind
