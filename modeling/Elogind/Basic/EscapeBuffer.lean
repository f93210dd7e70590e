/-
  Elogind.Basic.EscapeBuffer

  How much `xescape_full` (escape.c) and `utf8_escape_non_printable_full` (utf8.c) write to the buffers they
  allocate, and how wide the texts are that they write.
-/

import Elogind.Basic.EscapeRoundTrip
import Elogind.Basic.Utf8Memory

namespace Elogind

open Byte List

/-! ## The buffer of `xescape_full` -/

/-- The bytes that `xescape_full` allocates. -/
def xescapeAllocated (s : Bytes) (consoleWidth : Nat) : Nat := min s.length consoleWidth * 4 + 1

/-- Where the writes of `xescape_full` end: the loop, then the terminating zero, with the dots before it
    where the text is cut.  For no columns at all another string is returned. -/
def xescapeWritten (s bad : Bytes) (consoleWidth : Nat) (flags : XEscapeFlags) : Nat :=
  if consoleWidth = 0 then 0
  else
    let x := xescapeLoop bad consoleWidth flags s [] 0 0
    if x.complete then x.text.length + 1
    else max x.text.length (x.off consoleWidth + min consoleWidth 3 + 1)

/-- The columns that are kept for the dots. -/
def XEscapeFlags.reserve (flags : XEscapeFlags) : Nat := if flags.forceEllipsis then 3 else 0

theorem off_le (x : XEscaped) (consoleWidth : Nat) :
    x.off consoleWidth ≤ x.text.length ∧ x.off consoleWidth + min consoleWidth 3 ≤ consoleWidth := by
  unfold XEscaped.off
  dsimp only
  split
  · omega
  · split
    · omega
    · split <;> omega

theorem length_xescapeFullChar (bad : Bytes) (flags : XEscapeFlags) (c : UInt8) :
    (xescapeFullChar bad flags c).length = if needsXescape bad flags c then 4 else 1 := by
  unfold xescapeFullChar
  split <;> rfl

theorem xescapeLoop_cons (bad : Bytes) (w : Nat) (flags : XEscapeFlags) (c : UInt8) (s t : Bytes) (prev prev2 : Nat) :
    xescapeLoop bad w flags (c :: s) t prev prev2 =
      if t.length + (xescapeFullChar bad flags c).length + flags.reserve > w then ⟨t, false, prev, prev2⟩
      else xescapeLoop bad w flags s (t ++ xescapeFullChar bad flags c) t.length prev := rfl

/-- Either the loop has come to the end of the text or it has stopped at a byte that does not fit. -/
theorem xescapeLoop_cases (bad : Bytes) (w : Nat) (flags : XEscapeFlags) (s t : Bytes) (prev prev2 : Nat) :
    let x := xescapeLoop bad w flags s t prev prev2
    (x.text = t ++ s.flatMap (xescapeFullChar bad flags) ∧ x.complete = !flags.forceEllipsis ∧
      (s ≠ [] → x.text.length + flags.reserve ≤ w)) ∨
    (x.complete = false ∧ x.text.length + 4 ≤ t.length + 4 * s.length ∧
      w < x.text.length + 4 + flags.reserve ∧ (t.length ≤ w → x.text.length ≤ w)) := by
  induction s generalizing t prev prev2 with
  | nil => exact .inl ⟨(append_nil t).symm, rfl, fun h => absurd rfl h⟩
  | cons c s ih =>
    -- a byte takes one byte or four
    have hlen : (xescapeFullChar bad flags c).length ≤ 4 := by
      rw [length_xescapeFullChar]
      split <;> omega
    rw [xescapeLoop_cons]
    split
    · next hstop =>
      refine .inr ⟨rfl, ?_, ?_, id⟩
      · dsimp only
        rw [length_cons]
        omega
      · dsimp only
        omega
    · next hgo =>
      have hstep := ih (t ++ xescapeFullChar bad flags c) t.length prev
      rw [flatMap_cons, ← append_assoc]
      rcases hstep with ⟨htext, hcomplete, hfit⟩ | ⟨hcomplete, hshort, hwide, hfit⟩
      · refine .inl ⟨htext, hcomplete, fun _ => ?_⟩
        by_cases hs : s = []
        · rw [htext, hs, flatMap_nil, append_nil, length_append]
          omega
        · exact hfit hs
      · refine .inr ⟨hcomplete, ?_, hwide, fun _ => hfit ?_⟩
        · rw [length_append] at hshort
          rw [length_cons]
          omega
        · rw [length_append]
          omega

/-- A text takes four bytes for each of its bytes if all are escaped, and three less for each that is not. -/
theorem length_xescaped (bad : Bytes) (flags : XEscapeFlags) (s : Bytes) :
    (s.flatMap (xescapeFullChar bad flags)).length ≤ 4 * s.length ∧
      ((∀ c ∈ s, needsXescape bad flags c = true) → (s.flatMap (xescapeFullChar bad flags)).length = 4 * s.length) ∧
      (¬ (∀ c ∈ s, needsXescape bad flags c = true) →
        (s.flatMap (xescapeFullChar bad flags)).length + 3 ≤ 4 * s.length) := by
  induction s with
  | nil => exact ⟨Nat.le_refl 0, fun _ => rfl, fun h => absurd (fun _ hc => absurd hc not_mem_nil) h⟩
  | cons c s ih =>
    obtain ⟨hle, heq, hlt⟩ := ih
    rw [flatMap_cons, length_append, length_xescapeFullChar, length_cons, forall_mem_cons]
    cases needsXescape bad flags c with
    | false =>
      rw [if_neg Bool.false_ne_true]
      exact ⟨by omega, nofun, fun _ => by omega⟩
    | true =>
      rw [if_pos rfl]
      refine ⟨by omega, fun h => ?_, fun h => ?_⟩
      · rw [heq h.2]
        omega
      · have := hlt fun hall => h ⟨rfl, hall⟩
        omega

/-- The dots are forced behind a text of escapes only. -/
def XescapeOverruns (s bad : Bytes) (w : Nat) (flags : XEscapeFlags) : Prop :=
  flags.forceEllipsis = true ∧ 0 < w ∧ (∀ c ∈ s, needsXescape bad flags c = true) ∧
    (s = [] ∨ 4 * s.length + 3 ≤ w)

theorem xescapeWritten_le_iff (s bad : Bytes) (w : Nat) (flags : XEscapeFlags) :
    xescapeWritten s bad w flags ≤ xescapeAllocated s w ↔ ¬ XescapeOverruns s bad w flags := by
  unfold xescapeWritten xescapeAllocated XescapeOverruns
  by_cases hw : w = 0
  · simp [hw]
  rw [if_neg hw]
  dsimp only
  obtain ⟨hoff, hroom⟩ := off_le (xescapeLoop bad w flags s [] 0 0) w
  have hcases := xescapeLoop_cases bad w flags s [] 0 0
  rw [nil_append, length_nil, Nat.zero_add] at hcases
  obtain ⟨hle, heq, hlt⟩ := length_xescaped bad flags s
  rcases hcases with ⟨htext, hcomplete, hfit⟩ | ⟨hcomplete, hshort, hstop, hfit⟩
  -- the whole text is written, and dots behind it if they are forced
  · rw [hcomplete]
    cases hforce : flags.forceEllipsis with
    | false =>
      simp only [Bool.not_false, if_true, Bool.false_eq_true, false_and, not_false_eq_true, iff_true]
      by_cases hs : s = []
      · rw [htext, hs, flatMap_nil, length_nil]
        exact Nat.le_add_left 1 _
      · have := hfit hs
        rw [htext] at this ⊢
        omega
    | true =>
      simp only [Bool.not_true, Bool.false_eq_true, if_false, true_and, Nat.pos_of_ne_zero hw]
      by_cases hs : s = []
      · subst hs
        simp [htext]
        omega
      · have hfit := hfit hs
        simp only [XEscapeFlags.reserve, hforce, if_true] at hfit
        have hdots : (xescapeLoop bad w flags s [] 0 0).off w = (xescapeLoop bad w flags s [] 0 0).text.length := by
          unfold XEscaped.off
          rw [if_pos (by omega)]
        rw [hdots]
        rw [htext] at hfit ⊢
        constructor
        · rintro hin ⟨hall, -⟩
          rw [heq hall] at hin hfit
          omega
        · intro hno
          by_cases hall : ∀ c ∈ s, needsXescape bad flags c = true
          · have := heq hall
            exact absurd ⟨hall, by omega⟩ hno
          · have := hlt hall
            omega
  -- the text is cut, which leaves room for the dots
  · rw [hcomplete]
    simp only [Bool.false_eq_true, if_false]
    refine ⟨?_, fun _ => by omega⟩
    rintro - ⟨hforce, -, -, hs | hlong⟩
    · simp [hs] at hshort
    · simp only [XEscapeFlags.reserve, hforce, if_true] at hstop
      omega

/-- The text is at most as wide as the console; each of its bytes takes a column. -/
theorem length_xescapeFull_le (s bad : Bytes) (w : Nat) (flags : XEscapeFlags) :
    (xescapeFull s bad w flags).length ≤ w := by
  unfold xescapeFull
  split
  · exact Nat.zero_le w
  · dsimp only
    obtain ⟨-, hroom⟩ := off_le (xescapeLoop bad w flags s [] 0 0) w
    have hcases := xescapeLoop_cases bad w flags s [] 0 0
    split
    · next hcomplete =>
      rcases hcases with ⟨htext, -, hfit⟩ | ⟨hno, -⟩
      · by_cases hs : s = []
        · rw [htext, hs]
          exact Nat.zero_le w
        · exact Nat.le_trans (Nat.le_add_right _ _) (hfit hs)
      · rw [hcomplete] at hno
        cases hno
    · have hdots : ((ascii "...").take (min w 3)).length ≤ min w 3 := length_take_le _ _
      have htake := length_take_le (XEscaped.off (xescapeLoop bad w flags s [] 0 0) w)
        (xescapeLoop bad w flags s [] 0 0).text
      rw [length_append]
      omega

/-! ## The text of `utf8_escape_non_printable_full` -/

/-- What is written at once, and the columns it takes. -/
structure Cell where
  bytes : Bytes
  columns : Nat

/-- The text of cells. -/
def cellBytes (cells : List Cell) : Bytes := cells.flatMap Cell.bytes

/-- The columns of cells. -/
def cellColumns (cells : List Cell) : Nat := (cells.map Cell.columns).sum

/-- The character at the beginning of a text, which has the length `len`. -/
def utf8Char (c : UInt8) (rest : Bytes) (len : Nat) : Nat :=
  if len = 1 then c.toNat else (utf8EncodedToUnichar len c (rest.take (len - 1))).getD 0

/-- `unichar_is_control` -/
def unicharIsControl (ch : Nat) : Bool := (ch < 32 && ch != 9 && ch != 10) || (0x7f ≤ ch && ch ≤ 0x9f)

/-- `utf8_char_console_width`, with the table of `unichar_iswide` -/
def utf8CharConsoleWidth (isWide : Nat → Bool) (ch : Nat) : Nat := if ch = 9 then 8 else if isWide ch then 2 else 1

/-- The loop that escapes the bytes of a character, and whether all of them fit. -/
def utf8EscapeBytes (consoleWidth : Nat) : Bytes → List Cell → Nat → List Cell × Nat × Bool
  | [], cells, n => (cells, n, true)
  | b :: bs, cells, n =>
    if n + 4 > consoleWidth then (cells, n, false)
    else
      let cell := ⟨[backslash, 'x'.toUInt8, hexchar (b >>> 4), hexchar b], 4⟩
      utf8EscapeBytes consoleWidth bs (cells ++ [cell]) (n + 4)

/-- Where the loop stops: what is written before `prev_s` and since, the columns of both, and whether the
    text is cut. -/
structure Utf8Escaped where
  before : List Cell
  last : List Cell
  n : Nat
  truncated : Bool

/-- The loop of `utf8_escape_non_printable_full` -/
def utf8EscapeLoop (isWide : Nat → Bool) (consoleWidth : Nat) (forceEllipsis : Bool) :
    Bytes → List Cell → List Cell → Nat → Utf8Escaped
  | [], before, last, n => ⟨before, last, n, forceEllipsis⟩
  | c :: rest, before, last, n =>
    match utf8EncodedValidUnichar c rest with
    | some len =>
      let ch := utf8Char c rest len
      let w := utf8CharConsoleWidth isWide ch
      if !unicharIsControl ch then
        if n + w > consoleWidth then ⟨before, last, n, true⟩
        else
          utf8EscapeLoop isWide consoleWidth forceEllipsis (rest.drop (len - 1)) (before ++ last)
            [⟨(c :: rest).take len, w⟩] (n + w)
      else
        match utf8EscapeBytes consoleWidth ((c :: rest).take len) [] n with
        | (cells, n, false) => ⟨before, last ++ cells, n, true⟩
        | (cells, n, true) =>
          utf8EscapeLoop isWide consoleWidth forceEllipsis (rest.drop (len - 1)) (before ++ last) cells n
    | none =>
      if n + 1 > consoleWidth then ⟨before, last, n, true⟩
      else
        utf8EscapeLoop isWide consoleWidth forceEllipsis rest (before ++ last)
          [⟨utf8ReplacementCharacter, 1⟩] (n + 1)
  termination_by s => s.length
  decreasing_by
    all_goals simp only [List.length_drop, List.length_cons]
    all_goals omega

/-- The ellipsis, one column wide -/
def ellipsis : Cell := ⟨[0xe2, 0x80, 0xa6], 1⟩

/-- What is kept of the text before the ellipsis. -/
def Utf8Escaped.kept (x : Utf8Escaped) (consoleWidth : Nat) : List Cell :=
  if x.n + 1 > consoleWidth then x.before else x.before ++ x.last

/-- `utf8_escape_non_printable_full`, and where its writes end; for no columns at all another string is
    returned. -/
def utf8EscapeNonPrintableFull (isWide : Nat → Bool) (s : Bytes) (consoleWidth : Nat) (forceEllipsis : Bool) :
    List Cell × Nat :=
  if consoleWidth = 0 then ([], 0)
  else
    let x := utf8EscapeLoop isWide consoleWidth forceEllipsis s [] [] 0
    let written := (cellBytes (x.before ++ x.last)).length
    if x.truncated then
      let cells := x.kept consoleWidth ++ [ellipsis]
      (cells, max written ((cellBytes cells).length + 1))
    else (x.before ++ x.last, written + 1)

/-! ## The room that a text leaves -/

/-- How much less than four bytes for each byte the text takes, and its columns. -/
def utf8Room (isWide : Nat → Bool) : Bytes → Nat × Nat
  | [] => (0, 0)
  | c :: rest =>
    match utf8EncodedValidUnichar c rest with
    | some len =>
      let (room, columns) := utf8Room isWide (rest.drop (len - 1))
      if !unicharIsControl (utf8Char c rest len) then
        (room + 3 * len, columns + utf8CharConsoleWidth isWide (utf8Char c rest len))
      else (room, columns + 4 * len)
    | none =>
      let (room, columns) := utf8Room isWide rest
      (room + 1, columns + 1)
  termination_by s => s.length
  decreasing_by all_goals simp <;> omega

theorem length_cellBytes_append (a b : List Cell) :
    (cellBytes (a ++ b)).length = (cellBytes a).length + (cellBytes b).length := by
  rw [cellBytes, flatMap_append, length_append]
  rfl

theorem cellColumns_append (a b : List Cell) : cellColumns (a ++ b) = cellColumns a + cellColumns b := by
  rw [cellColumns, map_append, sum_append]
  rfl

/-- The bytes of a character that do not fit are left out one by one. -/
theorem utf8EscapeBytes_spec {w : Nat} (bs : Bytes) (cells : List Cell) (n : Nat) :
    let r := utf8EscapeBytes w bs cells n
    (r.2.2 = true → (cellBytes r.1).length = (cellBytes cells).length + 4 * bs.length ∧ r.2.1 = n + 4 * bs.length ∧
      (bs ≠ [] → r.2.1 ≤ w)) ∧
    (r.2.2 = false → (cellBytes r.1).length + 4 ≤ (cellBytes cells).length + 4 * bs.length ∧
      w < n + 4 * bs.length ∧ (n ≤ w → r.2.1 ≤ w)) ∧
    cellColumns r.1 + n = cellColumns cells + r.2.1 := by
  induction bs generalizing cells n with
  | nil => exact ⟨fun _ => ⟨rfl, rfl, fun h => absurd rfl h⟩, nofun, rfl⟩
  | cons b bs ih =>
    unfold utf8EscapeBytes
    dsimp only
    split
    · rw [length_cons]
      exact ⟨nofun, fun _ => ⟨by dsimp only; omega, by omega, id⟩, rfl⟩
    · next hfit =>
      obtain ⟨hall, hcut, hcolumns⟩ := ih (cells ++ [⟨[backslash, 'x'.toUInt8, hexchar (b >>> 4), hexchar b], 4⟩]) (n + 4)
      rw [length_cellBytes_append] at hall hcut
      rw [cellColumns_append] at hcolumns
      have hfour : ∀ b : UInt8, (cellBytes [⟨[backslash, 'x'.toUInt8, hexchar (b >>> 4), hexchar b], 4⟩]).length = 4 ∧
          cellColumns [⟨[backslash, 'x'.toUInt8, hexchar (b >>> 4), hexchar b], 4⟩] = 4 := fun _ => ⟨rfl, rfl⟩
      rw [(hfour b).1] at hall hcut
      rw [(hfour b).2] at hcolumns
      rw [length_cons]
      refine ⟨fun h => ?_, fun h => ?_, by omega⟩
      · obtain ⟨hb, hn, hle⟩ := hall h
        refine ⟨by omega, by omega, fun _ => ?_⟩
        by_cases hbs : bs = []
        · rw [hn, hbs, length_nil]
          omega
        · exact hle hbs
      · obtain ⟨hb, hn, hle⟩ := hcut h
        exact ⟨by omega, by omega, fun _ => hle (by omega)⟩

/-- What holds before each round, with `k` bytes of the text behind: the columns are counted, `prev_s` is
    before the last character, and there are at most four bytes for each byte of the text. -/
structure EscapeInv (w k : Nat) (before last : List Cell) (n : Nat) : Prop where
  columns : n = cellColumns before + cellColumns last
  fits : n ≤ w
  bytes : (cellBytes (before ++ last)).length ≤ 4 * k
  back : before = [] ∧ last = [] ∨ 1 ≤ cellColumns last ∧ (cellBytes before).length + 4 ≤ 4 * k

/-- One more character, of `len` bytes. -/
theorem EscapeInv.step {w k len n n' : Nat} {before last cells : List Cell} (h : EscapeInv w k before last n)
    (hcolumns : n' = n + cellColumns cells) (hfits : n' ≤ w) (hone : 1 ≤ cellColumns cells) (hlen : 0 < len)
    (hbytes : (cellBytes cells).length ≤ 4 * len) : EscapeInv w (k + len) (before ++ last) cells n' where
  columns := by rw [hcolumns, cellColumns_append, ← h.columns]
  fits := hfits
  bytes := by
    have := h.bytes
    rw [length_cellBytes_append]
    omega
  back := by
    have := h.bytes
    exact .inr ⟨hone, by omega⟩

/-- Where the loop stops, from columns `n` and `b` bytes on and with `m` bytes of the text ahead that leave
    the room `room`: the columns are counted and one character can be taken back; the loop has come to the
    end of the text, or to a character that does not fit. -/
structure Utf8Escaped.Stops (w k m n b : Nat) (force : Bool) (room : Nat × Nat) (x : Utf8Escaped) : Prop where
  columns : x.n = cellColumns x.before + cellColumns x.last
  fits : x.n ≤ w
  back : x.before = [] ∨ 1 ≤ cellColumns x.last
  ending : (x.truncated = force ∧ x.n = n + room.2 ∧ (cellBytes (x.before ++ x.last)).length + room.1 = b + 4 * m ∧
      (x.before = [] ∧ x.last = [] ∨ (cellBytes x.before).length + 4 ≤ 4 * (k + m))) ∨
    (x.truncated = true ∧ w < n + room.2 ∧ (cellBytes (x.before ++ x.last)).length + 4 ≤ 4 * (k + m))

/-- The loop stops at a character some bytes of which may have been written. -/
theorem EscapeInv.stops {w k m n n' : Nat} {before last : List Cell} (h : EscapeInv w k before last n)
    {cells : List Cell} {force : Bool} {room : Nat × Nat} (hbytes : (cellBytes cells).length + 4 ≤ 4 * m)
    (hcolumns : n' = n + cellColumns cells) (hfits : n' ≤ w) (hwide : w < n + room.2) :
    Utf8Escaped.Stops w k m n (cellBytes (before ++ last)).length force room ⟨before, last ++ cells, n', true⟩ where
  columns := by
    rw [hcolumns, cellColumns_append, h.columns, Nat.add_assoc]
  fits := hfits
  back := by
    refine h.back.imp And.left fun hback => ?_
    rw [cellColumns_append]
    omega
  ending := by
    have := h.bytes
    refine .inr ⟨rfl, hwide, ?_⟩
    dsimp only
    rw [← append_assoc, length_cellBytes_append]
    omega

/-- The loop goes on behind a character of `len` bytes, which leaves the room `r`. -/
theorem Utf8Escaped.Stops.of_step {w k m n n' len r : Nat} {a cells : List Cell} {force : Bool}
    {room : Nat × Nat} {x : Utf8Escaped}
    (h : Stops w (k + len) m n' (cellBytes (a ++ cells)).length force room x)
    (hcolumns : n' = n + cellColumns cells) (hroom : (cellBytes cells).length + r = 4 * len) :
    Stops w k (m + len) n (cellBytes a).length force (room.1 + r, room.2 + cellColumns cells) x where
  columns := h.columns
  fits := h.fits
  back := h.back
  ending := by
    have hending := h.ending
    rw [show k + len + m = k + (m + len) by omega] at hending
    refine hending.imp (fun hend => ⟨hend.1, ?_, ?_, hend.2.2.2⟩) fun hcut => ⟨hcut.1, ?_, hcut.2.2⟩
    · omega
    · have := hend.2.2.1
      rw [length_cellBytes_append a] at this
      omega
    · omega

theorem one_le_utf8CharConsoleWidth (isWide : Nat → Bool) (ch : Nat) : 1 ≤ utf8CharConsoleWidth isWide ch := by
  unfold utf8CharConsoleWidth
  split
  · decide
  · split <;> decide

theorem utf8EscapeLoop_spec {isWide : Nat → Bool} {w : Nat} {force : Bool} (s : Bytes) {k n : Nat}
    {before last : List Cell} (h : EscapeInv w k before last n) :
    (utf8EscapeLoop isWide w force s before last n).Stops w k s.length n (cellBytes (before ++ last)).length force
      (utf8Room isWide s) := by
  induction hm : s.length using Nat.strongRecOn generalizing s k n before last with
  | ind m ih =>
    subst hm
    -- a character of which nothing is written
    have hempty : ∀ room : Nat × Nat, ∀ m, 0 < m → w < n + room.2 →
        Utf8Escaped.Stops w k m n (cellBytes (before ++ last)).length force room ⟨before, last, n, true⟩ := by
      intro room m hm hwide
      have hnil : (cellBytes []).length + 4 ≤ 4 * m := by
        rw [show (cellBytes []).length = 0 from rfl]
        omega
      have hstops := @EscapeInv.stops w k m n n before last h [] force room hnil rfl h.fits hwide
      rwa [append_nil] at hstops
    rcases s with _ | ⟨c, rest⟩
    · unfold utf8EscapeLoop utf8Room
      exact ⟨h.columns, h.fits, h.back.imp And.left And.left, .inl ⟨rfl, rfl, rfl, h.back.imp id And.right⟩⟩
    · unfold utf8EscapeLoop utf8Room
      cases hvalid : utf8EncodedValidUnichar c rest with
      | none =>
        dsimp only
        split
        · exact hempty _ _ (Nat.succ_pos _) (by dsimp only; omega)
        · have hinv : EscapeInv w (k + 1) (before ++ last) [⟨utf8ReplacementCharacter, 1⟩] (n + 1) :=
            h.step rfl (by omega) (Nat.le_refl 1) Nat.one_pos (by decide)
          exact (ih rest.length (Nat.lt_succ_self _) rest hinv rfl).of_step rfl rfl
      | some len =>
        obtain ⟨-, -, -, hlen, hle⟩ := exists_of_utf8EncodedValidUnichar hvalid
        have htake : ((c :: rest).take len).length = len := length_take_of_le hle
        rw [length_cons] at hle
        have hdrop : (rest.drop (len - 1)).length + len = rest.length + 1 := by
          rw [length_drop]
          omega
        -- a character that is written as `cells`, and the rest of the text
        have hgo : ∀ cells n', n' = n + cellColumns cells → n' ≤ w → 1 ≤ cellColumns cells →
            ∀ r, (cellBytes cells).length + r = 4 * len → _ := fun cells n' hn hfits hone r hr =>
          (ih (rest.drop (len - 1)).length (by rw [length_cons]; omega) (rest.drop (len - 1))
            (h.step hn hfits hone hlen (by omega)) rfl).of_step hn hr
        rw [length_cons, ← hdrop]
        dsimp only
        split
        · -- a printable character
          have hwide := one_le_utf8CharConsoleWidth isWide (utf8Char c rest len)
          split
          · exact hempty _ _ (by omega) (by dsimp only; omega)
          · next hfit =>
            have hbytes : (cellBytes [⟨(c :: rest).take len, utf8CharConsoleWidth isWide (utf8Char c rest len)⟩]).length =
                len := (congrArg length (append_nil _)).trans htake
            exact hgo [⟨(c :: rest).take len, utf8CharConsoleWidth isWide (utf8Char c rest len)⟩] _ rfl
              (Nat.le_of_not_lt hfit) hwide (3 * len) (by omega)
        · -- one that is escaped
          obtain ⟨hall, hcut, hcolumns⟩ := @utf8EscapeBytes_spec w ((c :: rest).take len) [] n
          rw [htake, show (cellBytes []).length = 0 from rfl] at hall hcut
          rw [show cellColumns [] = 0 from rfl] at hcolumns
          rcases hr : utf8EscapeBytes w ((c :: rest).take len) [] n with ⟨cells, n', fit⟩
          rw [hr] at hall hcut hcolumns
          cases fit with
          | false =>
            obtain ⟨hb, hn, hw⟩ := hcut rfl
            exact h.stops (by dsimp only at hb; omega) (by dsimp only at hcolumns; omega) (hw h.fits)
              (by dsimp only; omega)
          | true =>
            obtain ⟨hb, hn, hw⟩ := hall rfl
            dsimp only at hb hn hw hcolumns
            have hne : (c :: rest).take len ≠ [] := by
              intro hnil
              rw [hnil] at htake
              exact absurd htake.symm hlen.ne'
            have hstops := hgo cells n' (by omega) (hw hne) (by omega) 0 (by omega)
            rwa [show cellColumns cells = 4 * len by omega] at hstops

/-! ## Both functions -/

/-- The ellipsis is forced behind a text that takes all but at most two of four bytes for each of its bytes:
    one without printable characters, and with at most two bytes that are none. -/
def Utf8EscapeOverruns (isWide : Nat → Bool) (s : Bytes) (w : Nat) (force : Bool) : Prop :=
  force = true ∧ (utf8Room isWide s).2 + 1 ≤ w ∧ (utf8Room isWide s).1 < 3

theorem utf8Escape_written_le_iff (isWide : Nat → Bool) (s : Bytes) (w : Nat) (force : Bool) :
    ((utf8EscapeNonPrintableFull isWide s w force).2 ≤ s.length * 4 + 1 ↔ ¬ Utf8EscapeOverruns isWide s w force) ∧
      cellColumns (utf8EscapeNonPrintableFull isWide s w force).1 ≤ w := by
  unfold utf8EscapeNonPrintableFull Utf8EscapeOverruns
  by_cases hw : w = 0
  · refine ⟨?_, by simp [hw, cellColumns]⟩
    simp only [hw, if_true]
    exact ⟨fun _ h => by omega, fun _ => Nat.zero_le _⟩
  rw [if_neg hw]
  dsimp only
  obtain ⟨hn, hfit, hback, hend⟩ := @utf8EscapeLoop_spec isWide w force s 0 0 [] []
    ⟨rfl, Nat.zero_le w, Nat.le_refl 0, .inl ⟨rfl, rfl⟩⟩
  generalize utf8EscapeLoop isWide w force s [] [] 0 = x at *
  rw [Nat.zero_add, show (cellBytes ([] ++ [])).length = 0 from rfl] at hend
  have hone : (cellBytes [ellipsis]).length = 3 ∧ cellColumns [ellipsis] = 1 := ⟨rfl, rfl⟩
  have hbytes := length_cellBytes_append x.before x.last
  constructor
  · rcases hend with ⟨htrunc, hcols, hroom, hbefore⟩ | ⟨htrunc, hwide, hshort⟩
    · rw [htrunc]
      cases force with
      | false =>
        simp only [Bool.false_eq_true, if_false, false_and, not_false_eq_true, iff_true]
        omega
      | true =>
        simp only [if_true, true_and, Utf8Escaped.kept, length_cellBytes_append (if _ then _ else _), hone.1]
        split
        · have : (cellBytes x.before).length + 4 ≤ 4 * s.length := by
            rcases hbefore with ⟨hb, hl⟩ | hb
            · rw [hb, hl] at hn
              simp only [cellColumns, map_nil, sum_nil] at hn
              omega
            · omega
          exact ⟨fun _ h => by omega, fun _ => by omega⟩
        · constructor
          · rintro hle ⟨-, hlt⟩
            omega
          · intro hno
            omega
    · rw [htrunc]
      simp only [if_true, Utf8Escaped.kept, length_cellBytes_append (if _ then _ else _), hone.1]
      refine ⟨fun _ h => by omega, fun _ => ?_⟩
      split <;> omega
  · split
    · unfold Utf8Escaped.kept
      rw [cellColumns_append, hone.2]
      split
      · rcases hback with hb | hl
        · rw [hb]
          simp only [cellColumns, map_nil, sum_nil]
          omega
        · omega
      · rw [cellColumns_append]
        omega
    · rw [cellColumns_append]
      omega

/-- Escaping for a console stays inside the buffers exactly when no ellipsis is forced behind a text that
    fills its buffer, and what is written is never wider than the console. -/
theorem console_escapes_inside_iff (isWide : Nat → Bool) (s bad : Bytes) (consoleWidth : Nat)
    (flags : XEscapeFlags) (force : Bool) :
    ((xescapeWritten s bad consoleWidth flags ≤ xescapeAllocated s consoleWidth ∧
        (utf8EscapeNonPrintableFull isWide s consoleWidth force).2 ≤ s.length * 4 + 1) ↔
      ¬ XescapeOverruns s bad consoleWidth flags ∧ ¬ Utf8EscapeOverruns isWide s consoleWidth force) ∧
    (xescapeFull s bad consoleWidth flags).length ≤ consoleWidth ∧
    cellColumns (utf8EscapeNonPrintableFull isWide s consoleWidth force).1 ≤ consoleWidth := by
  obtain ⟨hutf8, hcolumns⟩ := utf8Escape_written_le_iff isWide s consoleWidth force
  exact ⟨and_congr (xescapeWritten_le_iff s bad consoleWidth flags) hutf8,
    length_xescapeFull_le s bad consoleWidth flags, hcolumns⟩

/-- For the empty text one byte is allocated, and an ellipsis that is forced takes four. -/
theorem console_escapes_overrun :
    ¬ xescapeWritten [] [] 10 { forceEllipsis := true } ≤ xescapeAllocated [] 10 ∧
    ¬ (utf8EscapeNonPrintableFull (fun _ => false) [] 10 true).2 ≤ 0 * 4 + 1 := by
  refine ⟨by decide, ?_⟩
  simp [utf8EscapeNonPrintableFull, utf8EscapeLoop, Utf8Escaped.kept, cellBytes, ellipsis]

end Elogind
