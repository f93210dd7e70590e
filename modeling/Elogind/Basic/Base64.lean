/-
  Elogind.Basic.Base64

  Base64 and hexadecimal text (hexdecoct.c).  The encoders write into a buffer whose size they compute as a
  `size_t` of so many bits, and a function that writes behind its buffer has no result.  A text to be decoded
  is what there is up to the given length, and ends before a zero where there is none.
-/

import Elogind.Basic.Errno
import Elogind.Basic.Unescape

namespace Elogind

open Byte Errno List

def Errno.EPIPE : Errno := ⟨32, by decide⟩
def Errno.ENAMETOOLONG : Errno := ⟨36, by decide⟩

/-- `*(z++) = c` in a buffer of this size, after what was written. -/
def writeChar (size : Nat) (z : Bytes) (c : UInt8) : Option Bytes :=
  if z.length < size then some (z ++ [c]) else none

/-- `*z = 0` behind what was written. -/
def writeZero (size : Nat) (z : Bytes) : Option Bytes := if z.length < size then some z else none

/-! ## Digits -/

/-- `base64char` -/
def base64char (x : Nat) : UInt8 :=
  let i := x &&& 63
  if i < 26 then 65 + UInt8.ofNat i
  else if i < 52 then 97 + UInt8.ofNat (i - 26)
  else if i < 62 then 48 + UInt8.ofNat (i - 52)
  else if i = 62 then 43
  else 47

/-- `unbase64char` -/
def unbase64char (c : UInt8) : Option Nat :=
  if 65 ≤ c ∧ c ≤ 90 then some (c.toNat - 65)
  else if 97 ≤ c ∧ c ≤ 122 then some (c.toNat - 97 + 26)
  else if 48 ≤ c ∧ c ≤ 57 then some (c.toNat - 48 + 52)
  else if c = 43 ∨ c = 45 then some 62
  else if c = 47 ∨ c = 95 then some 63
  else none

/-- `strchr(WHITESPACE, c)`, which finds the terminating zero as well. -/
def isSkipped (c : UInt8) : Bool := c = 0 || isWhitespace c

/-- The next digit of a text, and what is behind it, with whitespace skipped on both sides. -/
def nextDigit {α : Type} (digit : UInt8 → Option α) (p : Bytes) : Result (α × Bytes) :=
  match p.dropWhile isSkipped with
  | [] => .error EPIPE
  | c :: p =>
    match digit c with
    | none => .error EINVAL
    | some a => .ok (a, p.dropWhile isSkipped)

/-! ## Base64 -/

/-- The characters that are written for these bytes, without line breaks. -/
def base64Chars : Bytes → Bytes
  | x₀ :: x₁ :: x₂ :: x =>
    base64char (x₀.toNat >>> 2) :: base64char ((x₀.toNat &&& 3) <<< 4 ||| x₁.toNat >>> 4) ::
      base64char ((x₁.toNat &&& 15) <<< 2 ||| x₂.toNat >>> 6) :: base64char (x₂.toNat &&& 63) :: base64Chars x
  | [x₀, x₁] =>
    [base64char (x₀.toNat >>> 2), base64char ((x₀.toNat &&& 3) <<< 4 ||| x₁.toNat >>> 4),
      base64char ((x₁.toNat &&& 15) <<< 2), equals]
  | [x₀] => [base64char (x₀.toNat >>> 2), base64char ((x₀.toNat &&& 3) <<< 4), equals, equals]
  | [] => []

/-- The size of the buffer that `base64mem_full` allocates. -/
def base64BufferSize (bits l lineBreak : Nat) : Nat :=
  let m := 4 * (l + 2) % 2 ^ bits / 3 + 1
  if lineBreak ≠ sizeMax bits then (m + m / lineBreak) % 2 ^ bits else m

/-- `maybe_line_break` -/
def maybeLineBreak (bits size lineBreak : Nat) (z : Bytes) : Option Bytes :=
  if lineBreak = sizeMax bits then some z
  else if z.length % (lineBreak + 1) = lineBreak then writeChar size z newline
  else some z

/-- A line break, if there has to be one, and a character. -/
def base64Write (bits size lineBreak : Nat) (z : Bytes) (c : UInt8) : Option Bytes :=
  (maybeLineBreak bits size lineBreak z).bind fun z => writeChar size z c

/-- `base64mem_full` -/
def base64memFull (bits : Nat) (p : Bytes) (lineBreak : Nat) : Option Bytes :=
  let m := base64BufferSize bits p.length lineBreak
  ((base64Chars p).foldlM (base64Write bits m lineBreak) []).bind (writeZero m)

/-- `unbase64_next`, where padding is no number. -/
def unbase64Next : Bytes → Result (Option Nat × Bytes) :=
  nextDigit fun c => if c = equals then some none else (unbase64char c).map some

/-- What one round of `unbase64mem_full` does: nothing is left, the text ends with these bytes, or there are
    these bytes and more text. -/
inductive Base64Round where
  | done
  | last (out : Bytes)
  | more (out p : Bytes)

/-- The first two characters of a block are no padding. -/
def notPadding (a : Option Nat) : Result Nat := a.elim (.error EINVAL) .ok

/-- The bytes of a block of four, where this is behind it. -/
def base64Bytes (a b : Nat) (c d : Option Nat) (p : Bytes) : Result Base64Round :=
  match c, d with
  | none, some _ => .error EINVAL
  | none, none =>
    if b &&& 15 ≠ 0 then .error EINVAL
    else if p.length > 0 then .error ENAMETOOLONG
    else .ok (.last [UInt8.ofNat (a <<< 2 ||| b >>> 4)])
  | some c, none =>
    if c &&& 3 ≠ 0 then .error EINVAL
    else if p.length > 0 then .error ENAMETOOLONG
    else .ok (.last [UInt8.ofNat (a <<< 2 ||| b >>> 4), UInt8.ofNat (b <<< 4 ||| c >>> 2)])
  | some c, some d =>
    .ok (.more [UInt8.ofNat (a <<< 2 ||| b >>> 4), UInt8.ofNat (b <<< 4 ||| c >>> 2),
      UInt8.ofNat (c <<< 6 ||| d)] p)

/-- A block, whose first character was read. -/
def unbase64Block (a : Option Nat) (p : Bytes) : Result Base64Round := do
  let a ← notPadding a
  let (b, p) ← unbase64Next p
  let b ← notPadding b
  let (c, p) ← unbase64Next p
  let (d, p) ← unbase64Next p
  base64Bytes a b c d p

/-- The text ends here, or there is a block of four characters. -/
def unbase64Round (p : Bytes) : Result Base64Round :=
  match unbase64Next p with
  | .error er => if er = EPIPE then .ok .done else .error er
  | .ok (a, p) => unbase64Block a p

/-- The loop of `unbase64mem_full` over the rest of the text, in so many rounds, with a buffer of this size. -/
def unbase64Loop (size : Nat) : Nat → Bytes → Bytes → Option (Result Bytes)
  | 0, _, _ => none
  | n + 1, z, p =>
    match unbase64Round p with
    | .error er => some (.error er)
    | .ok .done => (writeZero size z).map .ok
    | .ok (.last out) => ((out.foldlM (writeChar size) z).bind (writeZero size)).map .ok
    | .ok (.more out p) => (out.foldlM (writeChar size) z).bind fun z => unbase64Loop size n z p

/-- `unbase64mem_full` -/
def unbase64memFull (p : Bytes) : Option (Result Bytes) :=
  let len := p.length / 4 * 3 + (if p.length % 4 ≠ 0 then p.length % 4 - 1 else 0)
  unbase64Loop (len + 1) (p.length + 1) [] p

/-! ## Hexadecimal text -/

/-- The characters that are written for these bytes. -/
def hexChars : Bytes → Bytes
  | [] => []
  | x :: p => hexchar (x >>> 4) :: hexchar (x &&& 15) :: hexChars p

/-- `hexmem` -/
def hexmem (bits : Nat) (p : Bytes) : Option Bytes :=
  let size := (p.length * 2 + 1) % 2 ^ bits
  ((hexChars p).foldlM (writeChar size) []).bind (writeZero size)

/-- `unhex_next` -/
def unhexNext : Bytes → Result (Nat × Bytes) := nextDigit unhexchar

/-- The loop of `unhexmem_full` over the rest of the text, in so many rounds, with a buffer of this size. -/
def unhexLoop (size : Nat) : Nat → Bytes → Bytes → Option (Result Bytes)
  | 0, _, _ => none
  | n + 1, z, p =>
    match unhexNext p with
    | .error er => if er = EPIPE then (writeZero size z).map .ok else some (.error er)
    | .ok (a, p) =>
      match unhexNext p with
      | .error er => some (.error er)
      | .ok (b, p) => (writeChar size z (UInt8.ofNat (a <<< 4 ||| b))).bind fun z => unhexLoop size n z p

/-- `unhexmem_full` -/
def unhexmemFull (p : Bytes) : Option (Result Bytes) := unhexLoop ((p.length + 1) / 2 + 1) (p.length + 1) [] p

/-! ## Skipping -/

/-- A text without what is skipped. -/
def withoutSkipped (p : Bytes) : Bytes := p.filter fun c => !isSkipped c

theorem withoutSkipped_dropWhile (p : Bytes) : withoutSkipped (p.dropWhile isSkipped) = withoutSkipped p := by
  unfold withoutSkipped
  induction p with
  | nil => rfl
  | cons c p ih =>
    rw [dropWhile_cons]
    split
    · rename_i hc
      rw [ih, filter_cons_of_neg (by simp [hc])]
    · rfl

/-- Either there is no digit left, or the next one is read. -/
theorem nextDigit_eq {α : Type} (digit : UInt8 → Option α) (p : Bytes) :
    withoutSkipped p = [] ∧ nextDigit digit p = .error EPIPE ∨
      ∃ c p', withoutSkipped p = c :: withoutSkipped p' ∧ (withoutSkipped p' = [] ↔ p' = []) ∧
        p'.length < p.length ∧
        nextDigit digit p = (match digit c with
          | none => .error EINVAL
          | some a => .ok (a, p')) := by
  unfold nextDigit
  cases hp : p.dropWhile isSkipped with
  | nil =>
    have hnone := withoutSkipped_dropWhile p
    rw [hp] at hnone
    exact .inl ⟨hnone.symm, rfl⟩
  | cons c r =>
    refine .inr ⟨c, r.dropWhile isSkipped, ?_, ?_, ?_, rfl⟩
    · have hfirst : isSkipped c = false := by
        have hhead := head_dropWhile_not isSkipped (l := p) (by rw [hp]; exact cons_ne_nil c r)
        simpa [hp] using hhead
      rw [withoutSkipped_dropWhile, ← withoutSkipped_dropWhile p, hp]
      exact filter_cons_of_pos (by simp [hfirst])
    · constructor
      · intro h
        cases hr : r.dropWhile isSkipped with
        | nil => rfl
        | cons d s =>
          have hhead := head_dropWhile_not isSkipped (l := r) (by rw [hr]; exact cons_ne_nil d s)
          have hd : isSkipped d = false := by simpa [hr] using hhead
          rw [hr, withoutSkipped, filter_cons_of_pos (by simp [hd])] at h
          cases h
      · intro h
        rw [h]
        rfl
    · have hle := (dropWhile_sublist isSkipped (l := r)).length_le
      have hle' := (dropWhile_sublist isSkipped (l := p)).length_le
      rw [hp, length_cons] at hle'
      omega

end Elogind
