/-
  Elogind.Basic.Base64RoundTrip

  Base64 and hexadecimal text are read as what they were written for, and are written for what they were read
  as.  That needs a `size_t` in which the size of the buffer does not wrap, and a text without a zero, since
  `strchr` finds the end of the set of whitespace as well.
-/

import Elogind.Basic.Unbase64

namespace Elogind

open Byte Errno List

-- for what is checked for each byte
set_option maxRecDepth 4000

/-! ## Writing -/

/-- All of it is written if there is space for it. -/
theorem foldlM_writeChar {size : Nat} (out : Bytes) :
    ∀ z : Bytes, z.length ≤ size →
      out.foldlM (writeChar size) z = if z.length + out.length ≤ size then some (z ++ out) else none := by
  induction out with
  | nil =>
    intro z hz
    rw [append_nil, length_nil, Nat.add_zero, if_pos hz]
    rfl
  | cons c out ih =>
    intro z hz
    rw [foldlM_cons, length_cons]
    unfold writeChar
    by_cases hspace : z.length < size
    · have hlength : (z ++ [c]).length = z.length + 1 := length_append
      rw [if_pos hspace]
      show out.foldlM (writeChar size) (z ++ [c]) = _
      rw [ih (z ++ [c]) (by omega), hlength, append_assoc, singleton_append, Nat.add_assoc,
        Nat.add_comm 1]
    · rw [if_neg hspace, if_neg (by omega)]
      rfl

theorem eq_append_of_foldlM {size : Nat} {out : Bytes} :
    ∀ {z w : Bytes}, out.foldlM (writeChar size) z = some w → w = z ++ out := by
  induction out with
  | nil =>
    intro z w h
    cases h
    exact (append_nil z).symm
  | cons c out ih =>
    intro z w h
    obtain ⟨v, hv, hw⟩ := Option.bind_eq_some_iff.mp h
    unfold writeChar at hv
    split_ifs at hv
    cases hv
    rw [ih hw, append_assoc]
    rfl

theorem writeZero_eq_some {size : Nat} {z w : Bytes} (h : writeZero size z = some w) : w = z ∧ z.length < size := by
  unfold writeZero at h
  split_ifs at h with hspace
  cases h
  exact ⟨rfl, hspace⟩

theorem writeZero_ok {size : Nat} {z : Bytes} (h : z.length < size) : writeZero size z = some z := if_pos h

/-- All of it and a zero are written if there is space for them. -/
theorem write_all {size : Nat} {z out : Bytes} (h : z.length + out.length < size) :
    (out.foldlM (writeChar size) z).bind (writeZero size) = some (z ++ out) := by
  rw [foldlM_writeChar out z (by omega), if_pos (Nat.le_of_lt h)]
  show writeZero size (z ++ out) = _
  exact writeZero_ok (by rw [length_append]; exact h)

/-! ## The loop over blocks -/

/-- What was read is what the text is written for. -/
theorem unbase64Loop_sound {size : Nat} :
    ∀ {n : Nat} {z p y : Bytes}, unbase64Loop size n z p = some (.ok y) →
      ∃ out, y = z ++ out ∧ base64Chars out = (withoutSkipped p).map regularChar := by
  intro n
  induction n with
  | zero =>
    intro z p y h
    cases h
  | succ n ih =>
    intro z p y h
    rw [unbase64Loop] at h
    cases hround : unbase64Round p with
    | error er =>
      rw [hround] at h
      cases h
    | ok round =>
      have hsound := unbase64Round_sound hround
      rw [hround] at h
      cases round with
      | done =>
        obtain ⟨w, hw, hy⟩ := Option.map_eq_some_iff.mp h
        cases hy
        have htext : withoutSkipped p = [] := hsound
        refine ⟨[], ?_, ?_⟩
        · rw [(writeZero_eq_some hw).1, append_nil]
        · rw [htext]
          rfl
      | last out =>
        obtain ⟨w, hw, hy⟩ := Option.map_eq_some_iff.mp h
        cases hy
        obtain ⟨v, hv, hzero⟩ := Option.bind_eq_some_iff.mp hw
        obtain ⟨hchars, -, -⟩ := hsound
        exact ⟨out, by rw [(writeZero_eq_some hzero).1, eq_append_of_foldlM hv], hchars⟩
      | more out q =>
        obtain ⟨x₀, x₁, x₂, rfl, -, t, htext, -, hblock⟩ := hsound
        obtain ⟨v, hv, hloop⟩ := Option.bind_eq_some_iff.mp h
        obtain ⟨rest, hy, hrest⟩ := ih hloop
        refine ⟨x₀ :: x₁ :: x₂ :: rest, ?_, ?_⟩
        · rw [hy, eq_append_of_foldlM hv, append_assoc]
          rfl
        · rw [hblock, hrest, htext, map_append]

/-- The loop ends and writes only into the buffer, where a block has space for its three bytes. -/
theorem unbase64Loop_safe {size : Nat} :
    ∀ {n : Nat} {z p : Bytes}, p.length < n → 4 * z.length + 3 * (withoutSkipped p).length < 4 * size →
      unbase64Loop size n z p ≠ none := by
  intro n
  induction n with
  | zero =>
    intro z p hn
    omega
  | succ n ih =>
    intro z p hn hspace
    rw [unbase64Loop]
    cases hround : unbase64Round p with
    | error er => exact Option.some_ne_none _
    | ok round =>
      have hsound := unbase64Round_sound hround
      cases round with
      | done =>
        show (writeZero size z).map Except.ok ≠ (none : Option (Result Bytes))
        rw [writeZero_ok (by omega)]
        exact Option.some_ne_none _
      | last out =>
        obtain ⟨-, hout, htext⟩ := hsound
        show ((out.foldlM (writeChar size) z).bind (writeZero size)).map Except.ok ≠ (none : Option (Result Bytes))
        rw [write_all (by omega)]
        exact Option.some_ne_none _
      | more out q =>
        obtain ⟨x₀, x₁, x₂, rfl, hlength, t, htext, ht, -⟩ := hsound
        rw [htext, length_append, ht] at hspace
        have hthree : [x₀, x₁, x₂].length = 3 := rfl
        show (([x₀, x₁, x₂].foldlM (writeChar size) z).bind fun z => unbase64Loop size n z q) ≠ none
        rw [foldlM_writeChar _ z (by omega), if_pos (by omega)]
        have hwritten : (z ++ [x₀, x₁, x₂]).length = z.length + 3 := length_append
        exact ih (by omega) (by omega)

/-- The text of some bytes is read as these bytes. -/
theorem unbase64Loop_of_text {size : Nat} (x : Bytes) :
    ∀ {n : Nat} {z p : Bytes}, p.length < n → withoutSkipped p = base64Chars x → z.length + x.length < size →
      unbase64Loop size n z p = some (.ok (z ++ x)) := by
  induction x using base64Chars.induct with
  | case1 x₀ x₁ x₂ x ih =>
    intro n z p hn htext hspace
    obtain ⟨n, rfl⟩ : ∃ m, n = m + 1 := ⟨n - 1, by omega⟩
    obtain ⟨q, hround, hq, hlength⟩ := unbase64Round_three htext
    simp only [length_cons] at hspace
    have hthree : [x₀, x₁, x₂].length = 3 := rfl
    rw [unbase64Loop, hround]
    show (([x₀, x₁, x₂].foldlM (writeChar size) z).bind fun z => unbase64Loop size n z q) = _
    rw [foldlM_writeChar _ z (by omega), if_pos (by omega)]
    have hwritten : (z ++ [x₀, x₁, x₂]).length = z.length + 3 := length_append
    show unbase64Loop size n (z ++ [x₀, x₁, x₂]) q = _
    rw [ih (by omega) hq (by omega), append_assoc]
    rfl
  | case2 x y =>
    intro n z p hn htext hspace
    obtain ⟨n, rfl⟩ : ∃ m, n = m + 1 := ⟨n - 1, by omega⟩
    rw [unbase64Loop, unbase64Round_two htext]
    show (([x, y].foldlM (writeChar size) z).bind (writeZero size)).map Except.ok = _
    rw [write_all hspace]
    rfl
  | case3 x =>
    intro n z p hn htext hspace
    obtain ⟨n, rfl⟩ : ∃ m, n = m + 1 := ⟨n - 1, by omega⟩
    rw [unbase64Loop, unbase64Round_one htext]
    show (([x].foldlM (writeChar size) z).bind (writeZero size)).map Except.ok = _
    rw [write_all hspace]
    rfl
  | case4 =>
    intro n z p hn htext hspace
    obtain ⟨n, rfl⟩ : ∃ m, n = m + 1 := ⟨n - 1, by omega⟩
    rw [unbase64Loop, unbase64Round_done htext, append_nil]
    show (writeZero size z).map Except.ok = _
    rw [writeZero_ok hspace]
    rfl

theorem length_withoutSkipped_le (p : Bytes) : (withoutSkipped p).length ≤ p.length := length_filter_le _ p

theorem unbase64memFull_safe (p : Bytes) : unbase64memFull p ≠ none := by
  have htext := length_withoutSkipped_le p
  refine unbase64Loop_safe (Nat.lt_succ_self p.length) ?_
  rw [length_nil]
  split_ifs with hrest
  · omega
  · omega

theorem unbase64memFull_sound {p y : Bytes} (h : unbase64memFull p = some (.ok y)) :
    base64Chars y = (withoutSkipped p).map regularChar := by
  obtain ⟨out, hy, hout⟩ := unbase64Loop_sound h
  rw [hy, nil_append, hout]

theorem unbase64memFull_of_text {p x : Bytes} (htext : withoutSkipped p = base64Chars x) :
    unbase64memFull p = some (.ok x) := by
  have hlength := length_withoutSkipped_le p
  rw [htext, length_base64Chars] at hlength
  refine unbase64Loop_of_text x (Nat.lt_succ_self p.length) htext ?_
  rw [length_nil]
  split_ifs with hrest
  · omega
  · omega

/-! ## Hexadecimal text -/

/-- The loop ends and writes only into the buffer, where two digits have space for their byte. -/
theorem unhexLoop_safe {size : Nat} :
    ∀ {n : Nat} {z p : Bytes}, p.length < n → 2 * z.length + (withoutSkipped p).length < 2 * size →
      unhexLoop size n z p ≠ none := by
  intro n
  induction n with
  | zero =>
    intro z p hn
    omega
  | succ n ih =>
    intro z p hn hspace
    rw [unhexLoop]
    cases hfirst : unhexNext p with
    | error er =>
      by_cases her : er = EPIPE
      · simp only [if_pos her, writeZero_ok (show z.length < size by omega)]
        exact Option.some_ne_none _
      · simp only [if_neg her]
        exact Option.some_ne_none _
    | ok v =>
      obtain ⟨a, p₁⟩ := v
      obtain ⟨ca, -, htext₁, -, hlength₁⟩ := nextDigit_eq_ok hfirst
      cases hsecond : unhexNext p₁ with
      | error er =>
        simp only [hsecond]
        exact Option.some_ne_none _
      | ok v =>
        obtain ⟨b, p₂⟩ := v
        obtain ⟨cb, -, htext₂, -, hlength₂⟩ := nextDigit_eq_ok hsecond
        rw [htext₁, htext₂, length_cons, length_cons] at hspace
        simp only [hsecond, writeChar, if_pos (show z.length < size by omega)]
        have hwritten : (z ++ [UInt8.ofNat (a <<< 4 ||| b)]).length = z.length + 1 := length_append
        exact ih (by omega) (by omega)

/-- A digit is read back from its character. -/
theorem unhexNext_of_char {p t : Bytes} {x : UInt8} {a : Nat} (hchar : unhexchar (hexchar x) = some a)
    (htext : withoutSkipped p = hexchar x :: t) :
    ∃ q, unhexNext p = .ok (a, q) ∧ withoutSkipped q = t ∧ (t = [] → q = []) ∧ q.length < p.length :=
  nextDigit_of_text htext hchar

/-- The digits of a byte are read as this byte. -/
theorem hexDigits (x : UInt8) :
    ∃ a b, unhexchar (hexchar (x >>> 4)) = some a ∧ unhexchar (hexchar (x &&& 15)) = some b ∧
      UInt8.ofNat (a <<< 4 ||| b) = x := by
  have hmask : hexchar (x &&& 15) = hexchar x := by
    unfold hexchar
    rw [UInt8.and_assoc]
    rfl
  obtain ⟨a, b, ha, hb, hx⟩ := unhexchar_hexchar x
  have hsmall : b < 2 ^ 4 := by
    have hall : ∀ c, ∀ n ∈ unhexchar c, n < 16 := by decide
    exact hall (hexchar x) b hb
  refine ⟨a, b, ha, by rw [hmask, hb], ?_⟩
  rw [shift_or a hsmall]
  exact hx

/-- The digits of some bytes are read as these bytes. -/
theorem unhexLoop_of_text {size : Nat} (x : Bytes) :
    ∀ {n : Nat} {z p : Bytes}, p.length < n → withoutSkipped p = hexChars x → z.length + x.length < size →
      unhexLoop size n z p = some (.ok (z ++ x)) := by
  induction x with
  | nil =>
    intro n z p hn htext hspace
    obtain ⟨n, rfl⟩ : ∃ m, n = m + 1 := ⟨n - 1, by omega⟩
    rw [unhexLoop, unhexNext, nextDigit_of_no_text htext, append_nil]
    show (writeZero size z).map Except.ok = _
    rw [writeZero_ok hspace]
    rfl
  | cons x xs ih =>
    intro n z p hn htext hspace
    obtain ⟨n, rfl⟩ : ∃ m, n = m + 1 := ⟨n - 1, by omega⟩
    obtain ⟨a, b, ha, hb, hx⟩ := hexDigits x
    obtain ⟨p₁, hnext₁, htext₁, -, hlength₁⟩ := unhexNext_of_char ha htext
    obtain ⟨p₂, hnext₂, htext₂, -, hlength₂⟩ := unhexNext_of_char hb htext₁
    rw [length_cons] at hspace
    simp only [unhexLoop, hnext₁, hnext₂, writeChar, if_pos (show z.length < size by omega), hx]
    have hwritten : (z ++ [x]).length = z.length + 1 := length_append
    show unhexLoop size n (z ++ [x]) p₂ = _
    rw [ih (by omega) htext₂ (by omega), append_assoc]
    rfl

theorem unhexmemFull_safe (p : Bytes) : unhexmemFull p ≠ none := by
  have htext := length_withoutSkipped_le p
  refine unhexLoop_safe (Nat.lt_succ_self p.length) ?_
  rw [length_nil]
  omega

theorem isSkipped_of_mem_hexChars {p : Bytes} {c : UInt8} (h : c ∈ hexChars p) : isSkipped c = false := by
  induction p with
  | nil => cases h
  | cons x p ih =>
    rcases mem_cons.mp h with rfl | h
    · exact isSkipped_hexchar _
    · rcases mem_cons.mp h with rfl | h
      · exact isSkipped_hexchar _
      · exact ih h

/-- A text in which nothing is skipped. -/
theorem withoutSkipped_eq_self {p : Bytes} (h : ∀ c ∈ p, isSkipped c = false) : withoutSkipped p = p := by
  refine filter_eq_self.mpr fun c hc => ?_
  rw [h c hc]
  rfl

/-- The bytes come back exactly where the size of the buffer does not wrap. -/
theorem unhexmemFull_hexmem (bits : Nat) (x : Bytes) :
    (∃ t, hexmem bits x = some t ∧ unhexmemFull t = some (.ok x)) ↔ 2 * x.length + 1 < 2 ^ bits := by
  constructor
  · rintro ⟨t, ht, -⟩
    by_contra hwrap
    obtain ⟨z, hz, hzero⟩ := Option.bind_eq_some_iff.mp ht
    obtain ⟨-, hspace⟩ := writeZero_eq_some hzero
    have hlength : z.length = x.length * 2 := by
      rw [eq_append_of_foldlM hz, nil_append, length_hexChars]
    omega
  · intro hfits
    refine ⟨hexChars x, ?_, ?_⟩
    · unfold hexmem
      rw [Nat.mod_eq_of_lt (by omega)]
      exact write_all (by rw [length_nil, length_hexChars]; omega)
    · have hlength := length_hexChars x
      refine unhexLoop_of_text x (Nat.lt_succ_self _) ?_ ?_
      · exact withoutSkipped_eq_self fun c => isSkipped_of_mem_hexChars
      · rw [length_nil]
        omega

end Elogind
