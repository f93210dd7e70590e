/-
  Elogind.Basic.Unescape

  Undoing C-style escapes (`cunescape`, escape.c), and the other way of
  escaping (`xescape`), which writes bytes in hexadecimal.

  `cunescape` is only used without flags here: a backslash that starts no
  escape, and the escape of a NUL byte, make it fail.
-/

import Elogind.Basic.Escape
import Elogind.Basic.Utf8

namespace Elogind

open List

-- for what is checked for each byte
set_option maxRecDepth 2000

open Byte

/-! ## Definitions -/

/-- `unoctchar` -/
def unoctchar (c : UInt8) : Option Nat := if 48 ≤ c ∧ c ≤ 55 then some (c.toNat - 48) else none

/-- `unhexchar` -/
def unhexchar (c : UInt8) : Option Nat :=
  if 48 ≤ c ∧ c ≤ 57 then some (c.toNat - 48)
  else if 97 ≤ c ∧ c ≤ 102 then some (c.toNat - 97 + 10)
  else if 65 ≤ c ∧ c ≤ 70 then some (c.toNat - 65 + 10)
  else none

/-- `hexchar` -/
def hexchar (x : UInt8) : UInt8 :=
  if x &&& 15 < 10 then 48 + (x &&& 15) else 97 + ((x &&& 15) - 10)

/-- A byte with some leading bits and, below them, bits of a character. -/
def utf8Byte (lead : UInt8) (bits : Nat) : UInt8 := lead ||| UInt8.ofNat bits

/-- `utf8_encode_unichar` -/
def utf8EncodeUnichar (g : Nat) : Bytes :=
  if g < 2 ^ 7 then [UInt8.ofNat g]
  else if g < 2 ^ 11 then [utf8Byte 0xc0 ((g >>> 6) % 32), utf8Byte 0x80 (g % 64)]
  else if g < 2 ^ 16 then
    [utf8Byte 0xe0 ((g >>> 12) % 16), utf8Byte 0x80 ((g >>> 6) % 64), utf8Byte 0x80 (g % 64)]
  else if g < 2 ^ 21 then
    [utf8Byte 0xf0 ((g >>> 18) % 8), utf8Byte 0x80 ((g >>> 12) % 64),
      utf8Byte 0x80 ((g >>> 6) % 64), utf8Byte 0x80 (g % 64)]
  else []

/-- The number that so many hexadecimal digits at the start of a text stand for. -/
def unhexchars : Nat → Bytes → Nat → Option Nat
  | 0, _, acc => some acc
  | _ + 1, [], _ => none
  | n + 1, c :: p, acc =>
    match unhexchar c with
    | none => none
    | some a => unhexchars n p (16 * acc + a)

/-- The escapes of one letter. -/
def letterEscape (c : UInt8) : Option UInt8 :=
  if c = 'a'.toUInt8 then some 7
  else if c = 'b'.toUInt8 then some 8
  else if c = 'f'.toUInt8 then some 12
  else if c = 'n'.toUInt8 then some newline
  else if c = 'r'.toUInt8 then some carriageReturn
  else if c = 't'.toUInt8 then some tab
  else if c = 'v'.toUInt8 then some 11
  else if c = backslash then some backslash
  else if c = doubleQuote then some doubleQuote
  else if c = singleQuote then some singleQuote
  else if c = 's'.toUInt8 then some space
  else none

/-- The octal escapes. -/
def octalEscape : Bytes → Option UInt8
  | c :: d :: e :: _ =>
    match unoctchar c, unoctchar d, unoctchar e with
    | some a, some b, some c =>
      if 64 * a + 8 * b + c = 0 ∨ 64 * a + 8 * b + c > 255 then none
      else some (UInt8.ofNat (64 * a + 8 * b + c))
    | _, _, _ => none
  | _ => none

/-- `cunescape_one`: the bytes an escape stands for, and how long it is. -/
def cunescapeOne : Bytes → Option (Bytes × Nat)
  | [] => none
  | c :: p =>
    if c = 'x'.toUInt8 then
      match unhexchars 2 p 0 with
      | none => none
      | some u => if u = 0 then none else some ([UInt8.ofNat u], 3)
    else if c = 'u'.toUInt8 then
      match unhexchars 4 p 0 with
      | none => none
      | some u => if u = 0 then none else some (utf8EncodeUnichar u, 5)
    else if c = 'U'.toUInt8 then
      match unhexchars 8 p 0 with
      | none => none
      | some u => if u = 0 ∨ !unicharIsValid u then none else some (utf8EncodeUnichar u, 9)
    else
      match letterEscape c with
      | some d => some ([d], 1)
      | none => (octalEscape (c :: p)).map fun d => ([d], 3)

/-- `cunescape`, which fails with `-EINVAL`. -/
def cunescape : Bytes → Option Bytes
  | [] => some []
  | c :: s =>
    if c ≠ backslash then (cunescape s).map (c :: ·)
    else
      match cunescapeOne s with
      | none => none
      | some (out, n) => (cunescape (s.drop n)).map (out ++ ·)
  termination_by s => s.length
  decreasing_by
    · exact Nat.lt_succ_self _
    · rw [List.length_drop, List.length_cons]
      omega

/-- A byte as `xescape` writes it; the bytes in `bad` are escaped, too. -/
def xescapeChar (bad : Bytes) (c : UInt8) : Bytes :=
  if c < space ∨ c ≥ 127 ∨ c = backslash ∨ c ∈ bad then
    [backslash, 'x'.toUInt8, hexchar (c >>> 4), hexchar c]
  else [c]

/-- `xescape` -/
def xescape (s bad : Bytes) : Bytes := s.flatMap (xescapeChar bad)

/-! ## Texts without backslashes -/

theorem cunescape_nil : cunescape [] = some [] := by rw [cunescape]

theorem cunescape_cons {c : UInt8} (hc : c ≠ backslash) (s : Bytes) :
    cunescape (c :: s) = (cunescape s).map (c :: ·) := by
  rw [cunescape, if_pos hc]

theorem cunescape_backslash (s : Bytes) :
    cunescape (backslash :: s) =
      match cunescapeOne s with
      | none => none
      | some (out, n) => (cunescape (s.drop n)).map (out ++ ·) := by
  rw [cunescape, if_neg (by simp)]

/-- Without a backslash there is nothing to undo. -/
theorem cunescape_append {s : Bytes} (hs : backslash ∉ s) (t : Bytes) :
    cunescape (s ++ t) = (cunescape t).map (s ++ ·) := by
  induction s with
  | nil => simp
  | cons c s ih =>
    have hc : c ≠ backslash := fun h => hs (h ▸ mem_cons_self)
    rw [cons_append, cunescape_cons hc, ih fun h => hs (mem_cons_of_mem c h),
      Option.map_map]
    rfl

theorem cunescape_plain {s : Bytes} (hs : backslash ∉ s) : cunescape s = some s := by
  have h := cunescape_append hs []
  rw [append_nil, cunescape_nil] at h
  simpa using h

/-! ## Backslashes only get fewer -/

theorem utf8Byte_ne (bits : Nat) :
    utf8Byte 0x80 bits ≠ backslash ∧ utf8Byte 0xc0 bits ≠ backslash ∧
      utf8Byte 0xe0 bits ≠ backslash ∧ utf8Byte 0xf0 bits ≠ backslash := by
  have hall : ∀ b : UInt8, 0x80 ||| b ≠ backslash ∧ 0xc0 ||| b ≠ backslash ∧
      0xe0 ||| b ≠ backslash ∧ 0xf0 ||| b ≠ backslash := by decide
  exact hall (UInt8.ofNat bits)

theorem eq_of_mem_single {b : UInt8} (h : backslash ∈ [b]) : [b] = [backslash] := by
  rw [mem_singleton.mp h]

/-- The only character whose encoding has a backslash is the backslash. -/
theorem utf8EncodeUnichar_backslash {g : Nat} (h : backslash ∈ utf8EncodeUnichar g) :
    utf8EncodeUnichar g = [backslash] := by
  unfold utf8EncodeUnichar at h ⊢
  split at h
  · next hg =>
    rw [if_pos hg]
    exact eq_of_mem_single h
  split at h
  · simp [(utf8Byte_ne _).1.symm, (utf8Byte_ne _).2.1.symm] at h
  split at h
  · simp [(utf8Byte_ne _).1.symm, (utf8Byte_ne _).2.2.1.symm] at h
  split at h
  · simp [(utf8Byte_ne _).1.symm, (utf8Byte_ne _).2.2.2.symm] at h
  · cases h

/-- An escape is not empty, and stands for a backslash or for bytes among which
    there is none. -/
theorem cunescapeOne_spec {p out : Bytes} {n : Nat} (h : cunescapeOne p = some (out, n)) :
    0 < n ∧ p ≠ [] ∧ (backslash ∈ out → out = [backslash]) := by
  cases p with
  | nil => cases h
  | cons c p =>
    have hbytes : ∀ {d : UInt8} {k : Nat}, 0 < k → some ([d], k) = some (out, n) →
        0 < n ∧ c :: p ≠ [] ∧ (backslash ∈ out → out = [backslash]) := by
      intro d k hk heq
      cases heq
      exact ⟨hk, by simp, eq_of_mem_single⟩
    have hchars : ∀ {g k : Nat}, 0 < k → some (utf8EncodeUnichar g, k) = some (out, n) →
        0 < n ∧ c :: p ≠ [] ∧ (backslash ∈ out → out = [backslash]) := by
      intro g k hk heq
      cases heq
      exact ⟨hk, by simp, utf8EncodeUnichar_backslash⟩
    simp only [cunescapeOne] at h
    split at h
    · split at h
      · cases h
      · split at h
        · cases h
        · exact hbytes (by decide) h
    split at h
    · split at h
      · cases h
      · split at h
        · cases h
        · exact hchars (by decide) h
    split at h
    · split at h
      · cases h
      · split at h
        · cases h
        · exact hchars (by decide) h
    split at h
    · exact hbytes (by decide) h
    · obtain ⟨d, -, hd⟩ := Option.map_eq_some_iff.mp h
      exact hbytes (by decide) (congrArg some hd)

/-- What is left when all escapes are undone has at most as many backslashes; and
    if it has as many, every escape stood for a backslash. -/
theorem cunescape_backslashes {t r : Bytes} (h : cunescape t = some r) :
    r.count backslash ≤ t.count backslash ∧ (r.count backslash = t.count backslash →
      r.Sublist t ∧ (backslash ∈ t → r.length < t.length)) := by
  induction t using cunescape.induct generalizing r with
  | case1 =>
    rw [cunescape_nil] at h
    cases h
    exact ⟨Nat.le_refl _, fun _ => ⟨.refl _, fun hmem => nomatch hmem⟩⟩
  | case2 c s hc ih =>
    rw [cunescape_cons hc] at h
    obtain ⟨r', hr', rfl⟩ := Option.map_eq_some_iff.mp h
    obtain ⟨hle, heq⟩ := ih hr'
    rw [count_cons_of_ne hc, count_cons_of_ne hc]
    refine ⟨hle, fun hcount => ?_⟩
    obtain ⟨hsub, hlen⟩ := heq hcount
    refine ⟨hsub.cons_cons c, fun hmem => ?_⟩
    have hs : backslash ∈ s := (mem_cons.mp hmem).resolve_left (Ne.symm hc)
    exact Nat.succ_lt_succ (hlen hs)
  | case3 c s hc hone =>
    have hb : c = backslash := by simpa using hc
    rw [hb, cunescape_backslash, hone] at h
    cases h
  | case4 c s hc out n hone ih =>
    have hb : c = backslash := by simpa using hc
    subst hb
    rw [cunescape_backslash, hone] at h
    obtain ⟨r', hr', rfl⟩ := Option.map_eq_some_iff.mp h
    obtain ⟨hle, heq⟩ := ih hr'
    obtain ⟨hn, hne, hout⟩ := cunescapeOne_spec hone
    have hdrop : (s.drop n).count backslash ≤ s.count backslash :=
      (drop_sublist n s).count_le backslash
    have hpos : 0 < s.length := length_pos_iff.mpr hne
    rw [count_append, count_cons_self]
    by_cases hmem : backslash ∈ out
    · rw [hout hmem, count_singleton_self]
      refine ⟨by omega, fun hcount => ?_⟩
      obtain ⟨hsub, -⟩ := heq (by omega)
      have hlen := hsub.length_le
      rw [length_drop] at hlen
      refine ⟨(hsub.trans (drop_sublist n s)).cons_cons backslash, fun _ => ?_⟩
      rw [length_append, length_singleton, length_cons]
      omega
    · rw [count_eq_zero.mpr hmem]
      exact ⟨by omega, fun hcount => by omega⟩

end Elogind
