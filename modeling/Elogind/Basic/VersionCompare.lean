/-
  Elogind.Basic.VersionCompare

  The order of versions (`strverscmp_improved`).  A version is read as a sequence of segments, each with the
  separators before it, and so are the documented rules.
-/

import Elogind.Basic.BusLabel
import Elogind.Basic.ParseUtil
import Elogind.Basic.StringUtil
import Mathlib.Data.List.TakeWhile

namespace Elogind

open Byte List

-- for what is checked for each byte
set_option maxRecDepth 2000

namespace Byte

def tilde : UInt8 := 126
def caret : UInt8 := 94
def zero : UInt8 := 48

end Byte

/-! ## The function -/

/-- `is_valid_version_char` -/
def isValidVersionChar (a : UInt8) : Bool :=
  isAsciiDigit a || isAlpha a || a = tilde || a = dash || a = caret || a = dot

/-- `CMP` of two characters, which are signed. -/
def cmpChar (a b : UInt8) : Ordering := compare a.toInt8.toInt b.toInt8.toInt

/-- The outcome of one round: a result is returned, or both texts are read on. -/
abbrev VersionStep (α : Type) := Except Ordering α

/-- `if (r != 0) return r;` -/
def returnUnlessEqual (r : Ordering) : VersionStep Unit := if r = .eq then pure () else throw r

/-- What is done for one of the separators: it is older to have it, and it is skipped where both texts have it. -/
def handleSeparator (c : UInt8) (a b : Bytes) : VersionStep (Bytes × Bytes) :=
  if a.head? = some c ∨ b.head? = some c then do
    returnUnlessEqual (compare (decide (a.head? ≠ some c)) (decide (b.head? ≠ some c)))
    pure (a.tail, b.tail)
  else pure (a, b)

/-- The comparison of the leading numeric segments. -/
def compareNumbers (a b : Bytes) : VersionStep (Bytes × Bytes) := do
  let aa := a.dropWhile isAsciiDigit
  let bb := b.dropWhile isAsciiDigit
  returnUnlessEqual (compare (decide (a.length ≠ aa.length)) (decide (b.length ≠ bb.length)))
  let a := a.dropWhile fun c => c = zero
  let b := b.dropWhile fun c => c = zero
  returnUnlessEqual (compare (a.length - aa.length) (b.length - bb.length))
  returnUnlessEqual (memcmp a b (a.length - aa.length))
  pure (aa, bb)

/-- The comparison of the leading segments where neither is numeric. -/
def compareLetters (a b : Bytes) : VersionStep (Bytes × Bytes) := do
  let aa := a.dropWhile isAlpha
  let bb := b.dropWhile isAlpha
  returnUnlessEqual (memcmp a b (min (a.length - aa.length) (b.length - bb.length)))
  returnUnlessEqual (compare (a.length - aa.length) (b.length - bb.length))
  pure (aa, bb)

/-- One round of the loop in `strverscmp_improved`. -/
def strverscmpRound (a b : Bytes) : VersionStep (Bytes × Bytes) := do
  let a := a.dropWhile fun c => !isValidVersionChar c
  let b := b.dropWhile fun c => !isValidVersionChar c
  let (a, b) ← handleSeparator tilde a b
  if a = [] ∨ b = [] then throw (cmpChar (a.headD 0) (b.headD 0))
  let (a, b) ← handleSeparator dash a b
  let (a, b) ← handleSeparator caret a b
  let (a, b) ← handleSeparator dot a b
  if isAsciiDigit (a.headD 0) || isAsciiDigit (b.headD 0) then compareNumbers a b else compareLetters a b

/-- The loop, which goes through so many rounds at most. -/
def strverscmpLoop : Nat → Bytes → Bytes → Option Ordering
  | 0, _, _ => none
  | n + 1, a, b =>
    match strverscmpRound a b with
    | .error r => some r
    | .ok (a, b) => strverscmpLoop n a b

/-- `strverscmp_improved`.  Each round reads something of the first text, so that these rounds should be enough. -/
def strverscmpImproved (a b : Option Bytes) : Option Ordering :=
  strverscmpLoop ((a.getD []).length + 1) (a.getD []) (b.getD [])

/-! ## Versions -/

/-- What a segment consists of.  There may be no letters. -/
inductive SegmentBody where
  | letters (s : Bytes)
  | number (n : Nat)
  deriving DecidableEq

/-- A segment, with the separators before it. -/
structure VersionSegment where
  dash : Bool
  caret : Bool
  dot : Bool
  body : SegmentBody
  deriving DecidableEq

/-- What is read in a round: whether there is a `~`, the character that follows, which is zero at the end, and the
    segment unless it is the end. -/
structure VersionItem where
  tilde : Bool
  next : UInt8
  segment : Option VersionSegment
  deriving DecidableEq

/-- Whether a text begins with this separator, and what follows it. -/
def takeSeparator (c : UInt8) (s : Bytes) : Bool × Bytes := if s.head? = some c then (true, s.tail) else (false, s)

/-- The text of a segment, and what follows it. -/
def takeBody (s : Bytes) : SegmentBody × Bytes :=
  if isAsciiDigit (s.headD 0) then (.number (decimalValue (s.takeWhile isAsciiDigit)), s.dropWhile isAsciiDigit)
  else (.letters (s.takeWhile isAlpha), s.dropWhile isAlpha)

/-- A segment, and what follows it. -/
def takeSegment (s : Bytes) : VersionSegment × Bytes :=
  let dash := takeSeparator dash s
  let caret := takeSeparator caret dash.2
  let dot := takeSeparator dot caret.2
  let body := takeBody dot.2
  (⟨dash.1, caret.1, dot.1, body.1⟩, body.2)

/-- What is read in a round, and what follows it. -/
def takeItem (s : Bytes) : VersionItem × Bytes :=
  let tilde := takeSeparator tilde (s.dropWhile fun c => !isValidVersionChar c)
  if tilde.2 = [] then (⟨tilde.1, 0, none⟩, [])
  else (⟨tilde.1, tilde.2.headD 0, some (takeSegment tilde.2).1⟩, (takeSegment tilde.2).2)

/-! ## The documented order -/

/-- What an order says of something that both have. -/
theorem transCmp_of {α β : Type} (cmp : β → β → Ordering) [Std.TransCmp cmp] (f : α → β) :
    Std.TransCmp fun x y => cmp (f x) (f y) where
  eq_swap {x y} := (Std.OrientedCmp.eq_swap : cmp (f x) (f y) = _)
  isLE_trans {x y z} := (Std.TransCmp.isLE_trans : (cmp (f x) (f y)).isLE → (cmp (f y) (f z)).isLE → _)

namespace SegmentBody

/-- Numeric segments are newer than others and compare by value. -/
def cmp : SegmentBody → SegmentBody → Ordering
  | letters s, letters t => strcmp s t
  | letters _, number _ => .lt
  | number _, letters _ => .gt
  | number m, number n => compare m n

instance : Std.TransCmp cmp where
  eq_swap {x y} := by
    cases x with
    | letters s =>
      cases y with
      | letters t => exact strcmp_swap t s
      | number n => rfl
    | number m =>
      cases y with
      | letters t => rfl
      | number n => exact (Std.OrientedCmp.eq_swap : compare m n = (compare n m).swap)
  isLE_trans {x y z} hxy hyz := by
    cases x with
    | letters s =>
      cases z with
      | letters u =>
        cases y with
        | letters t => exact strcmp_isLE_trans hxy hyz
        | number n => cases hyz
      | number k => rfl
    | number m =>
      cases y with
      | letters t => cases hxy
      | number n =>
        cases z with
        | letters u => cases hyz
        | number k =>
          have hle : (compare m n).isLE → (compare n k).isLE → (compare m k).isLE := Std.TransCmp.isLE_trans
          exact hle hxy hyz

end SegmentBody

namespace VersionSegment

/-- A segment with `-` is older than one with `^`, this one is older than one with a dot, and one without is the
    newest. -/
def cmp : VersionSegment → VersionSegment → Ordering :=
  compareLex (compareOn fun s => !s.dash) (compareLex (compareOn fun s => !s.caret)
    (compareLex (compareOn fun s => !s.dot) fun s t => s.body.cmp t.body))

instance : Std.TransCmp fun s t : VersionSegment => s.body.cmp t.body := transCmp_of SegmentBody.cmp body

instance : Std.TransCmp cmp := inferInstanceAs (Std.TransCmp (compareLex _ _))

end VersionSegment

/-- The end is older than a segment. -/
def endOlder : Option VersionSegment → Option VersionSegment → Ordering
  | none, none => .eq
  | none, some _ => .lt
  | some _, none => .gt
  | some s, some t => s.cmp t

instance : Std.TransCmp endOlder where
  eq_swap {x y} := by
    cases x with
    | none =>
      cases y with
      | none => rfl
      | some t => rfl
    | some s =>
      cases y with
      | none => rfl
      | some t => exact (Std.OrientedCmp.eq_swap : s.cmp t = (t.cmp s).swap)
  isLE_trans {x y z} hxy hyz := by
    cases x with
    | none =>
      cases z with
      | none => rfl
      | some u => rfl
    | some s =>
      cases y with
      | none => cases hxy
      | some t =>
        cases z with
        | none => cases hyz
        | some u =>
          have hle : (s.cmp t).isLE → (t.cmp u).isLE → (s.cmp u).isLE := Std.TransCmp.isLE_trans
          exact hle hxy hyz

namespace VersionItem

/-- What is prefixed with `~` is older than the end, and the end is older than any segment. -/
def cmp : VersionItem → VersionItem → Ordering :=
  compareLex (compareOn fun x => !x.tilde) fun x y => endOlder x.segment y.segment

instance : Std.TransCmp fun x y : VersionItem => endOlder x.segment y.segment := transCmp_of endOlder segment

instance : Std.TransCmp cmp := inferInstanceAs (Std.TransCmp (compareLex _ _))

end VersionItem

/-! ## Reading a round -/

theorem length_takeSeparator_le (c : UInt8) (s : Bytes) : (takeSeparator c s).2.length ≤ s.length := by
  unfold takeSeparator
  split
  · exact (length_tail (l := s)).trans_le (Nat.sub_le _ _)
  · exact Nat.le_refl _

theorem length_takeBody_le (s : Bytes) : (takeBody s).2.length ≤ s.length := by
  unfold takeBody
  split
  · exact (dropWhile_sublist _).length_le
  · exact (dropWhile_sublist _).length_le

theorem takeSeparator_cons_self (c : UInt8) (s : Bytes) : takeSeparator c (c :: s) = (true, s) := if_pos rfl

theorem takeSeparator_cons {c d : UInt8} (h : d ≠ c) (s : Bytes) : takeSeparator c (d :: s) = (false, d :: s) :=
  if_neg fun heq => h (Option.some.inj heq)

/-- Reading a segment at a valid character gets on. -/
theorem length_takeSegment_lt {c : UInt8} (hc : isValidVersionChar c = true) (hne : c ≠ tilde) (s : Bytes) :
    (takeSegment (c :: s)).2.length < (c :: s).length := by
  unfold takeSegment
  simp only
  by_cases hdash : c = dash
  · rw [hdash, takeSeparator_cons_self]
    have hcaret := length_takeSeparator_le caret s
    have hdot := length_takeSeparator_le dot (takeSeparator caret s).2
    have hbody := length_takeBody_le (takeSeparator dot (takeSeparator caret s).2).2
    show (takeBody (takeSeparator dot (takeSeparator caret s).2).2).2.length < s.length + 1
    omega
  rw [takeSeparator_cons hdash]
  by_cases hcaret : c = caret
  · rw [hcaret, takeSeparator_cons_self]
    have hdot := length_takeSeparator_le dot s
    have hbody := length_takeBody_le (takeSeparator dot s).2
    show (takeBody (takeSeparator dot s).2).2.length < s.length + 1
    omega
  rw [takeSeparator_cons hcaret]
  by_cases hdot : c = dot
  · rw [hdot, takeSeparator_cons_self]
    have hbody := length_takeBody_le s
    show (takeBody s).2.length < s.length + 1
    omega
  rw [takeSeparator_cons hdot]
  have hword : isAsciiDigit c = true ∨ isAlpha c = true := by
    simp only [isValidVersionChar, hne, hdash, hcaret, hdot, decide_false, Bool.or_false, Bool.or_eq_true] at hc
    exact hc
  have hsublist : ∀ f : UInt8 → Bool, f c = true → ((c :: s).dropWhile f).length < (c :: s).length := by
    intro f hf
    rw [dropWhile_cons_of_pos hf, length_cons]
    exact Nat.lt_succ_of_le (dropWhile_sublist _).length_le
  unfold takeBody
  rcases hword with hdigit | halpha
  · rw [headD_cons, if_pos hdigit]
    exact hsublist isAsciiDigit hdigit
  · split
    · rename_i hdigit
      exact hsublist isAsciiDigit hdigit
    · exact hsublist isAlpha halpha

/-- Unless the end is reached, a round reads something. -/
theorem length_takeItem_lt {s : Bytes} (h : (takeItem s).1.segment ≠ none) : (takeItem s).2.length < s.length := by
  have hle : (s.dropWhile fun c => !isValidVersionChar c).length ≤ s.length := (dropWhile_sublist _).length_le
  have hhead : ∀ c w, (s.dropWhile fun c => !isValidVersionChar c) = c :: w → isValidVersionChar c = true := by
    intro c w hcons
    have hnot := head_dropWhile_not (p := fun c => !isValidVersionChar c) (l := s) (by rw [hcons]; simp)
    simp only [hcons, head_cons] at hnot
    simpa using hnot
  unfold takeItem at h ⊢
  simp only at h ⊢
  generalize (s.dropWhile fun c => !isValidVersionChar c) = s' at h hle hhead ⊢
  split at h
  · exact absurd rfl h
  rename_i hne
  rw [if_neg hne]
  show (takeSegment (takeSeparator tilde s').2).2.length < s.length
  have hsegment : ∀ t : Bytes, (takeSegment t).2.length ≤ t.length := by
    intro t
    have hdash := length_takeSeparator_le dash t
    have hcaret := length_takeSeparator_le caret (takeSeparator dash t).2
    have hdot := length_takeSeparator_le dot (takeSeparator caret (takeSeparator dash t).2).2
    have hbody := length_takeBody_le (takeSeparator dot (takeSeparator caret (takeSeparator dash t).2).2).2
    unfold takeSegment
    simp only
    omega
  cases s' with
  | nil => exact absurd rfl hne
  | cons c w =>
    by_cases htilde : c = tilde
    · rw [htilde, takeSeparator_cons_self]
      have hw := hsegment w
      rw [length_cons] at hle
      show (takeSegment w).2.length < s.length
      omega
    · rw [takeSeparator_cons htilde]
      exact Nat.lt_of_lt_of_le (length_takeSegment_lt (hhead c w rfl) htilde w) hle

/-- What is read in all rounds.  The last one finds the end. -/
def versionItems (s : Bytes) : List VersionItem :=
  if h : (takeItem s).1.segment = none then [(takeItem s).1]
  else (takeItem s).1 :: versionItems (takeItem s).2
termination_by s.length
decreasing_by exact length_takeItem_lt h

/-- The documented order of versions. -/
def documentedOrder (a b : Bytes) : Ordering := List.compareLex VersionItem.cmp (versionItems a) (versionItems b)

instance : Std.TransCmp documentedOrder := transCmp_of (List.compareLex VersionItem.cmp) versionItems

/-! ## Numbers -/

/-- A digit is above zero by less than ten. -/
theorem isAsciiDigit_range {d : UInt8} (h : isAsciiDigit d = true) :
    48 ≤ d.toNat ∧ d.toNat < 48 + 10 := by
  have hall : ∀ d, isAsciiDigit d = true → 48 ≤ d.toNat ∧ d.toNat < 48 + 10 := by decide +kernel
  exact hall d h

theorem decimalValue_lt {ds : Bytes} (h : ∀ d ∈ ds, isAsciiDigit d = true) : decimalValue ds < 10 ^ ds.length := by
  induction ds with
  | nil => exact Nat.one_pos
  | cons d ds ih =>
    have hrest := ih fun e he => h e (mem_cons_of_mem _ he)
    obtain ⟨hge, hlt⟩ := isAsciiDigit_range (h d mem_cons_self)
    have hd : d.toNat - 48 ≤ 9 := by omega
    have hmul := Nat.mul_le_mul_right (10 ^ ds.length) hd
    rw [decimalValue_cons, length_cons, Nat.pow_succ]
    omega

theorem decimalValue_dropWhile (ds : Bytes) : decimalValue (ds.dropWhile fun c => c = zero) = decimalValue ds := by
  induction ds with
  | nil => rfl
  | cons d ds ih =>
    by_cases hd : d = zero
    · have hzero : zero.toNat - 48 = 0 := rfl
      rw [dropWhile_cons_of_pos (by simpa using hd), ih, decimalValue_cons, hd, hzero, Nat.zero_mul,
        Nat.zero_add]
    · rw [dropWhile_cons_of_neg (by simpa using hd)]

/-- Numbers of the same length are compared as texts. -/
theorem strcmp_eq_compare_decimalValue {s t : Bytes} (hs : ∀ d ∈ s, isAsciiDigit d = true)
    (ht : ∀ d ∈ t, isAsciiDigit d = true) (hlength : s.length = t.length) :
    strcmp s t = compare (decimalValue s) (decimalValue t) := by
  induction s generalizing t with
  | nil =>
    obtain rfl := length_eq_zero_iff.mp hlength.symm
    rfl
  | cons c s ih =>
    cases t with
    | nil => cases hlength
    | cons d t =>
      rw [length_cons, length_cons, Nat.add_right_cancel_iff] at hlength
      have hs' : ∀ e ∈ s, isAsciiDigit e = true := fun e he => hs e (mem_cons_of_mem _ he)
      have ht' : ∀ e ∈ t, isAsciiDigit e = true := fun e he => ht e (mem_cons_of_mem _ he)
      obtain ⟨hc, -⟩ := isAsciiDigit_range (hs c mem_cons_self)
      obtain ⟨hd, -⟩ := isAsciiDigit_range (ht d mem_cons_self)
      have hsLt := decimalValue_lt hs'
      have htLt := decimalValue_lt ht'
      rw [decimalValue_cons, decimalValue_cons, hlength]
      rw [hlength] at hsLt
      -- A greater digit outweighs all digits that follow.
      have hweight : ∀ {x y : Nat}, x < y → (x + 1) * 10 ^ t.length ≤ y * 10 ^ t.length :=
        fun h => Nat.mul_le_mul_right _ h
      by_cases hne : c ≠ d
      · rcases UInt8.lt_or_lt_of_ne hne with hlt | hgt
        · have hle := hweight (Nat.sub_lt_sub_right hc (UInt8.lt_iff_toNat_lt.mp hlt))
          rw [Nat.add_mul, Nat.one_mul] at hle
          rw [strcmp_of_lt hlt]
          exact (Nat.compare_eq_lt.mpr (by omega)).symm
        · have hle := hweight (Nat.sub_lt_sub_right hd (UInt8.lt_iff_toNat_lt.mp hgt))
          rw [Nat.add_mul, Nat.one_mul] at hle
          rw [strcmp_of_gt hgt]
          exact (Nat.compare_eq_gt.mpr (by omega)).symm
      · obtain rfl := not_not.mp hne
        rw [strcmp_cons_self, ih hs' ht' hlength, Nat.compare_eq_ite_lt, Nat.compare_eq_ite_lt]
        simp only [Nat.add_lt_add_iff_left]

/-- Without leading zeros a longer number is greater. -/
theorem decimalValue_lt_of_length_lt {s t : Bytes} (hs : ∀ d ∈ s, isAsciiDigit d = true)
    (ht : ∀ d ∈ t, isAsciiDigit d = true) (hhead : t.head? ≠ some zero) (hlt : s.length < t.length) :
    decimalValue s < decimalValue t := by
  cases t with
  | nil => exact absurd hlt (Nat.not_lt_zero _)
  | cons d t =>
    have hne : d ≠ zero := fun h => hhead (congrArg some h)
    obtain ⟨hge, -⟩ := isAsciiDigit_range (ht d mem_cons_self)
    have hpos : 1 ≤ d.toNat - 48 := by
      have hnat : d.toNat ≠ 48 := fun h => hne (UInt8.toNat_inj.mp h)
      omega
    rw [decimalValue_cons]
    calc decimalValue s < 10 ^ s.length := decimalValue_lt hs
      _ ≤ 10 ^ t.length := Nat.pow_le_pow_right (by decide) (Nat.le_of_lt_succ hlt)
      _ ≤ (d.toNat - 48) * 10 ^ t.length := Nat.le_mul_of_pos_left _ hpos
      _ ≤ _ := Nat.le_add_right _ _

/-- Numbers without leading zeros are compared by their lengths first, and then as texts. -/
theorem compare_decimalValue {s t : Bytes} (hs : ∀ d ∈ s, isAsciiDigit d = true)
    (ht : ∀ d ∈ t, isAsciiDigit d = true) (hsHead : s.head? ≠ some zero) (htHead : t.head? ≠ some zero) :
    compare (decimalValue s) (decimalValue t) =
      (compare s.length t.length).then (strcmp (s.take s.length) (t.take s.length)) := by
  rcases Nat.lt_trichotomy s.length t.length with hlt | heq | hgt
  · rw [Nat.compare_eq_lt.mpr hlt, Nat.compare_eq_lt.mpr (decimalValue_lt_of_length_lt hs ht htHead hlt)]
    rfl
  · rw [Nat.compare_eq_eq.mpr heq, ← strcmp_eq_compare_decimalValue hs ht heq, take_length, heq,
      take_length]
    rfl
  · rw [Nat.compare_eq_gt.mpr hgt, Nat.compare_eq_gt.mpr (decimalValue_lt_of_length_lt ht hs hsHead hgt)]
    rfl

/-! ## One round -/

/-- A step that returns this unless it is equality, and reads on otherwise. -/
def answer {α : Type} (r : Ordering) (v : α) : VersionStep α := if r = .eq then .ok v else .error r

theorem returnUnlessEqual_bind {α : Type} (r : Ordering) (f : Unit → VersionStep α) :
    (returnUnlessEqual r >>= f) = if r = .eq then f () else .error r := by
  cases r with
  | lt | eq | gt => rfl

/-- Steps one after the other compare one thing after the other. -/
theorem returnUnlessEqual_answer {α : Type} {r r' : Ordering} {v : α} {f : Unit → VersionStep α}
    (h : f () = answer r' v) : (returnUnlessEqual r >>= f) = answer (r.then r') v := by
  rw [returnUnlessEqual_bind, h]
  cases r with
  | lt | eq | gt => rfl

theorem answer_bind {α β : Type} {r r' : Ordering} {v : α} {w : β} {f : α → VersionStep β}
    (h : f v = answer r' w) : (answer r v >>= f) = answer (r.then r') w := by
  cases r with
  | lt | gt => rfl
  | eq => exact h

theorem returnUnlessEqual_pure {α : Type} (r : Ordering) (v : α) :
    (returnUnlessEqual r >>= fun _ => pure v) = answer r v := by
  rw [returnUnlessEqual_bind]
  rfl

/-- A separator is handled as if it were read from each of the texts. -/
theorem handleSeparator_eq (c : UInt8) (a b : Bytes) :
    handleSeparator c a b = answer (compare (!(takeSeparator c a).1) (!(takeSeparator c b).1))
      ((takeSeparator c a).2, (takeSeparator c b).2) := by
  unfold handleSeparator takeSeparator
  by_cases ha : a.head? = some c
  · rw [if_pos (.inl ha), if_pos ha, returnUnlessEqual_pure]
    by_cases hb : b.head? = some c
    · rw [if_pos hb, decide_eq_false (not_not.mpr ha), decide_eq_false (not_not.mpr hb)]
      rfl
    · rw [if_neg hb, decide_eq_false (not_not.mpr ha), decide_eq_true hb]
      rfl
  · rw [if_neg ha]
    by_cases hb : b.head? = some c
    · rw [if_pos (.inr hb), if_pos hb, returnUnlessEqual_pure, decide_eq_true ha, decide_eq_false (not_not.mpr hb)]
      rfl
    · rw [if_neg (not_or.mpr ⟨ha, hb⟩), if_neg hb]
      rfl

/-- A text is the segment at its beginning and what follows it. -/
theorem length_sub_dropWhile (f : UInt8 → Bool) (s : Bytes) :
    s.length - (s.dropWhile f).length = (s.takeWhile f).length := by
  have hsplit := congrArg length (takeWhile_append_dropWhile (p := f) (l := s))
  rw [length_append] at hsplit
  omega

/-- Whether there is a number. -/
theorem length_ne_dropWhile (s : Bytes) :
    decide (s.length ≠ (s.dropWhile isAsciiDigit).length) = isAsciiDigit (s.headD 0) := by
  rw [Bool.eq_iff_iff, decide_eq_true_iff]
  cases s with
  | nil => exact iff_of_false (fun h => h rfl) (by decide)
  | cons c s =>
    have hle : (s.dropWhile isAsciiDigit).length ≤ s.length := (dropWhile_sublist _).length_le
    by_cases hc : isAsciiDigit c = true
    · rw [dropWhile_cons_of_pos hc, length_cons]
      exact iff_of_true (by omega) hc
    · rw [dropWhile_cons_of_neg hc]
      exact iff_of_false (fun h => h rfl) hc

/-- Skipping zeros stays in the number. -/
theorem dropWhile_zero (s : Bytes) :
    (s.dropWhile fun c => c = zero) =
      ((s.takeWhile isAsciiDigit).dropWhile fun c => c = zero) ++ s.dropWhile isAsciiDigit := by
  induction s with
  | nil => rfl
  | cons c s ih =>
    by_cases hzero : c = zero
    · have hdigit : isAsciiDigit c = true := by rw [hzero]; decide
      rw [takeWhile_cons_of_pos hdigit, dropWhile_cons_of_pos hdigit,
        dropWhile_cons_of_pos (by simpa using hzero), dropWhile_cons_of_pos (by simpa using hzero), ih]
    · rw [dropWhile_cons_of_neg (by simpa using hzero)]
      by_cases hdigit : isAsciiDigit c = true
      · rw [takeWhile_cons_of_pos hdigit, dropWhile_cons_of_pos hdigit,
          dropWhile_cons_of_neg (by simpa using hzero), cons_append, takeWhile_append_dropWhile]
      · rw [takeWhile_cons_of_neg hdigit, dropWhile_cons_of_neg hdigit]
        rfl

/-- Where both segments are numeric their values are compared. -/
theorem compareNumbers_eq (a b : Bytes) :
    compareNumbers a b =
      answer ((compare (!isAsciiDigit (a.headD 0)) (!isAsciiDigit (b.headD 0))).swap.then
        (compare (decimalValue (a.takeWhile isAsciiDigit)) (decimalValue (b.takeWhile isAsciiDigit))))
        (a.dropWhile isAsciiDigit, b.dropWhile isAsciiDigit) := by
  have hdigits : ∀ s : Bytes, ∀ d ∈ (s.takeWhile isAsciiDigit).dropWhile fun c => c = zero, isAsciiDigit d = true :=
    fun s d hd => mem_takeWhile_imp ((dropWhile_sublist _).subset hd)
  have hhead : ∀ s : Bytes, (s.dropWhile fun c => c = zero).head? ≠ some zero := by
    intro s h
    have hnot := head?_dropWhile_not (fun c => decide (c = zero)) s
    rw [h] at hnot
    exact absurd hnot (by decide)
  have hflags : compare (decide (a.length ≠ (a.dropWhile isAsciiDigit).length))
      (decide (b.length ≠ (b.dropWhile isAsciiDigit).length)) =
      (compare (!isAsciiDigit (a.headD 0)) (!isAsciiDigit (b.headD 0))).swap := by
    rw [length_ne_dropWhile, length_ne_dropWhile]
    cases isAsciiDigit (a.headD 0) with
    | false | true => cases isAsciiDigit (b.headD 0) <;> rfl
  have hlength : ∀ s : Bytes, (s.dropWhile fun c => c = zero).length - (s.dropWhile isAsciiDigit).length =
      ((s.takeWhile isAsciiDigit).dropWhile fun c => c = zero).length := by
    intro s
    rw [dropWhile_zero, length_append, Nat.add_sub_cancel]
  rw [← decimalValue_dropWhile (a.takeWhile isAsciiDigit), ← decimalValue_dropWhile (b.takeWhile isAsciiDigit),
    compare_decimalValue (hdigits a) (hdigits b) (hhead _) (hhead _), ← hflags]
  apply returnUnlessEqual_answer
  simp only [hlength]
  by_cases heq : ((a.takeWhile isAsciiDigit).dropWhile fun c => c = zero).length =
      ((b.takeWhile isAsciiDigit).dropWhile fun c => c = zero).length
  · apply returnUnlessEqual_answer
    rw [returnUnlessEqual_pure]
    unfold memcmp
    rw [dropWhile_zero a, dropWhile_zero b, take_left, heq, take_left, ← heq, take_length, heq,
      take_length]
  · rcases Nat.lt_or_gt_of_ne heq with hlt | hgt
    · rw [Nat.compare_eq_lt.mpr hlt]
      rfl
    · rw [Nat.compare_eq_gt.mpr hgt]
      rfl

/-- Where neither segment is numeric they are compared as texts. -/
theorem compareLetters_eq (a b : Bytes) :
    compareLetters a b = answer (strcmp (a.takeWhile isAlpha) (b.takeWhile isAlpha))
      (a.dropWhile isAlpha, b.dropWhile isAlpha) := by
  have hmemcmp : ∀ n, n ≤ (a.takeWhile isAlpha).length → n ≤ (b.takeWhile isAlpha).length →
      memcmp a b n = memcmp (a.takeWhile isAlpha) (b.takeWhile isAlpha) n := by
    intro n ha hb
    unfold memcmp
    conv_lhs => rw [← takeWhile_append_dropWhile (p := isAlpha) (l := a),
      ← takeWhile_append_dropWhile (p := isAlpha) (l := b)]
    rw [take_append_of_le_length ha, take_append_of_le_length hb]
  unfold compareLetters
  simp only [length_sub_dropWhile]
  rw [hmemcmp _ (Nat.min_le_left _ _) (Nat.min_le_right _ _), ← memcmp_then_compare]
  apply returnUnlessEqual_answer
  exact returnUnlessEqual_pure _ _

theorem compareBody_eq (a b : Bytes) :
    (if isAsciiDigit (a.headD 0) || isAsciiDigit (b.headD 0) then compareNumbers a b else compareLetters a b) =
      answer ((takeBody a).1.cmp (takeBody b).1) ((takeBody a).2, (takeBody b).2) := by
  unfold takeBody
  by_cases ha : isAsciiDigit (a.headD 0) = true
  · rw [if_pos (by rw [ha]; rfl), if_pos ha, compareNumbers_eq, ha]
    by_cases hb : isAsciiDigit (b.headD 0) = true
    · rw [if_pos hb, hb]
      rfl
    · rw [if_neg hb, Bool.eq_false_iff.mpr hb]
      rfl
  · by_cases hb : isAsciiDigit (b.headD 0) = true
    · rw [if_pos (by rw [hb, Bool.or_true]), if_neg ha, if_pos hb, compareNumbers_eq, hb, Bool.eq_false_iff.mpr ha]
      rfl
    · rw [if_neg (by rw [Bool.eq_false_iff.mpr ha, Bool.eq_false_iff.mpr hb]; decide), if_neg ha, if_neg hb, compareLetters_eq]
      rfl

namespace VersionItem

/-- What a round returns for two items, or equality.  The characters are compared where one of the texts ends. -/
def returned (x y : VersionItem) : Ordering :=
  (compare (!x.tilde) (!y.tilde)).then
    (if x.segment = none ∨ y.segment = none then cmpChar x.next y.next else endOlder x.segment y.segment)

/-- What an item says about the character that follows. -/
structure Faithful (x : VersionItem) : Prop where
  next_eq : x.segment = none → x.next = 0
  next_ne : x.segment ≠ none → x.next ≠ 0
  next_lt : x.tilde = false → x.next < 0x80

/-- After a `~` one of the texts ends, and the other goes on with a byte that is negative as a character. -/
def Misjudged (x y : VersionItem) : Prop :=
  x.tilde = true ∧ y.tilde = true ∧ (x.segment = none ∧ 0x80 ≤ y.next ∨ 0x80 ≤ x.next ∧ y.segment = none)

instance (x y : VersionItem) : Decidable (x.Misjudged y) := inferInstanceAs (Decidable (_ ∧ _ ∧ _))

end VersionItem

/-- A round compares what is read from each of the texts. -/
theorem strverscmpRound_eq (a b : Bytes) :
    strverscmpRound a b =
      if (takeItem a).1.segment = none ∨ (takeItem b).1.segment = none then
        .error ((takeItem a).1.returned (takeItem b).1)
      else answer ((takeItem a).1.returned (takeItem b).1) ((takeItem a).2, (takeItem b).2) := by
  unfold strverscmpRound VersionItem.returned takeItem
  simp only
  generalize (a.dropWhile fun c => !isValidVersionChar c) = a
  generalize (b.dropWhile fun c => !isValidVersionChar c) = b
  rw [handleSeparator_eq]
  generalize takeSeparator tilde a = x
  generalize takeSeparator tilde b = y
  by_cases hend : x.2 = [] ∨ y.2 = []
  · -- The result of the separator, or of comparing the characters.
    have hchars : ∀ z : VersionItem × Bytes, ∀ t : Bool × Bytes,
        z = (if t.2 = [] then (⟨t.1, 0, none⟩, []) else (⟨t.1, t.2.headD 0, some (takeSegment t.2).1⟩,
          (takeSegment t.2).2)) → (z.1.segment = none ↔ t.2 = []) ∧ z.1.next = t.2.headD 0 ∧ z.1.tilde = t.1 := by
      intro z t hz
      by_cases ht : t.2 = []
      · rw [hz, if_pos ht, ht]
        exact ⟨iff_of_true rfl rfl, rfl, rfl⟩
      · rw [hz, if_neg ht]
        exact ⟨iff_of_false (fun h => Option.some_ne_none _ h) ht, rfl, rfl⟩
    generalize hv : (if x.2 = [] then _ else _ : VersionItem × Bytes) = v
    generalize hw : (if y.2 = [] then _ else _ : VersionItem × Bytes) = w
    obtain ⟨hvEnd, hvNext, hvTilde⟩ := hchars v x hv.symm
    obtain ⟨hwEnd, hwNext, hwTilde⟩ := hchars w y hw.symm
    have hend' : v.1.segment = none ∨ w.1.segment = none := hend.imp hvEnd.mpr hwEnd.mpr
    rw [if_pos hend', if_pos hend', hvNext, hwNext, hvTilde, hwTilde]
    cases compare (!x.1) (!y.1) with
    | lt | gt => rfl
    | eq => exact if_pos hend
  · have hx : x.2 ≠ [] := fun h => hend (.inl h)
    have hy : y.2 ≠ [] := fun h => hend (.inr h)
    rw [if_neg hx, if_neg hy, if_neg (by simp), if_neg (by simp)]
    apply answer_bind
    simp only [if_neg hend]
    rw [handleSeparator_eq]
    apply answer_bind
    rw [handleSeparator_eq]
    apply answer_bind
    rw [handleSeparator_eq]
    apply answer_bind
    rw [compareBody_eq]
    rfl

theorem mem_takeItem {s : Bytes} {d : UInt8} (hd : d ∈ (takeItem s).2) : d ∈ s := by
  have hseparator : ∀ (c : UInt8) (s : Bytes), ∀ d ∈ (takeSeparator c s).2, d ∈ s := by
    intro c s d hd
    unfold takeSeparator at hd
    split at hd
    · exact mem_of_mem_tail hd
    · exact hd
  have hbody : ∀ s : Bytes, ∀ d ∈ (takeBody s).2, d ∈ s := by
    intro s d hd
    unfold takeBody at hd
    split at hd
    · exact (dropWhile_sublist _).subset hd
    · exact (dropWhile_sublist _).subset hd
  unfold takeItem at hd
  simp only at hd
  split at hd
  · exact absurd hd not_mem_nil
  · exact (dropWhile_sublist _).subset
      (hseparator _ _ _ (hseparator _ _ _ (hseparator _ _ _ (hseparator _ _ _ (hbody _ _ hd)))))

theorem lt_of_isValidVersionChar {c : UInt8} (h : isValidVersionChar c = true) : c < 0x80 := by
  have hall : ∀ c, isValidVersionChar c = true → c < 0x80 := by decide +kernel
  exact hall c h

theorem takeItem_faithful {s : Bytes} (hs : 0 ∉ s) : (takeItem s).1.Faithful := by
  have hvalid : ∀ c w, (s.dropWhile fun c => !isValidVersionChar c) = c :: w → isValidVersionChar c = true := by
    intro c w hcons
    have hnot := head?_dropWhile_not (fun c => !isValidVersionChar c) s
    rw [hcons] at hnot
    simpa using hnot
  have hzero : 0 ∉ s.dropWhile fun c => !isValidVersionChar c := fun h => hs ((dropWhile_sublist _).subset h)
  unfold takeItem
  simp only
  generalize (s.dropWhile fun c => !isValidVersionChar c) = s' at hvalid hzero
  split
  · exact ⟨fun _ => rfl, fun h => absurd rfl h, fun _ => (by decide : (0 : UInt8) < 0x80)⟩
  · rename_i hne
    cases s' with
    | nil => exact absurd rfl hne
    | cons c w =>
      by_cases htilde : c = tilde
      · rw [htilde, takeSeparator_cons_self] at hne ⊢
        refine ⟨fun h => absurd h (Option.some_ne_none _), fun _ => ?_, fun h => by cases h⟩
        obtain ⟨d, w, rfl⟩ := exists_cons_of_ne_nil hne
        rintro rfl
        exact hzero (mem_cons_of_mem _ mem_cons_self)
      · rw [takeSeparator_cons htilde]
        refine ⟨fun h => absurd h (Option.some_ne_none _), fun _ => ?_, fun _ => ?_⟩
        · rintro rfl
          exact hzero mem_cons_self
        · exact lt_of_isValidVersionChar (hvalid c w rfl)

/-! ## Where the order is the documented one -/

/-- After rounds that are equal one of the texts ends right after a `~`, and the other goes on with a byte that is
    negative as a character. -/
def clash : List VersionItem → List VersionItem → Prop
  | x :: xs, y :: ys => x.Misjudged y ∨ x.cmp y = .eq ∧ clash xs ys
  | _, _ => False

instance decidableClash : ∀ xs ys : List VersionItem, Decidable (clash xs ys)
  | x :: xs, y :: ys =>
    have := decidableClash xs ys
    inferInstanceAs (Decidable (x.Misjudged y ∨ x.cmp y = .eq ∧ clash xs ys))
  | [], _ => inferInstanceAs (Decidable False)
  | _ :: _, [] => inferInstanceAs (Decidable False)

/-- Two versions of which one is taken for the newer one although it ends where the other goes on. -/
def Clash (a b : Bytes) : Prop := clash (versionItems a) (versionItems b)

instance (a b : Bytes) : Decidable (Clash a b) := inferInstanceAs (Decidable (clash _ _))

theorem cmpChar_zero {c : UInt8} (hc : c ≠ 0) : cmpChar 0 c = if 0x80 ≤ c then .gt else .lt := by
  have hall : ∀ c : UInt8, c ≠ 0 → cmpChar 0 c = if 0x80 ≤ c then .gt else .lt := by decide +kernel
  exact hall c hc

theorem cmpChar_of_zero {c : UInt8} (hc : c ≠ 0) : cmpChar c 0 = if 0x80 ≤ c then .lt else .gt := by
  have hall : ∀ c : UInt8, c ≠ 0 → cmpChar c 0 = if 0x80 ≤ c then .lt else .gt := by decide +kernel
  exact hall c hc

namespace VersionItem

variable {x y : VersionItem}

theorem returned_of_segments (hx : x.segment ≠ none) (hy : y.segment ≠ none) : x.returned y = x.cmp y := by
  unfold returned
  rw [if_neg (not_or.mpr ⟨hx, hy⟩)]
  rfl

theorem not_misjudged_of_segments (hx : x.segment ≠ none) (hy : y.segment ≠ none) : ¬ x.Misjudged y := by
  rintro ⟨-, -, ⟨h, -⟩ | ⟨-, h⟩⟩
  · exact hx h
  · exact hy h

/-- What is returned at the end is the documented order unless the characters are misjudged. -/
theorem returned_eq_cmp_iff (hx : x.Faithful) (hy : y.Faithful) : x.returned y = x.cmp y ↔ ¬ x.Misjudged y := by
  have hcmp : x.cmp y = (compare (!x.tilde) (!y.tilde)).then (endOlder x.segment y.segment) := rfl
  rw [hcmp]
  unfold returned Misjudged
  have hsame : ∀ {b c : Bool}, compare (!b) (!c) = .eq → b = c := by decide
  cases htilde : compare (!x.tilde) (!y.tilde) with
  | lt | gt =>
    refine iff_of_true rfl ?_
    rintro ⟨hxt, hyt, -⟩
    rw [hxt, hyt] at htilde
    cases htilde
  | eq =>
    have heq : x.tilde = y.tilde := hsame htilde
    show (if x.segment = none ∨ y.segment = none then cmpChar x.next y.next else _) = _ ↔ _
    cases hxs : x.segment with
    | none =>
      rw [if_pos (.inl rfl), hx.next_eq hxs]
      cases hys : y.segment with
      | none =>
        rw [hy.next_eq hys]
        refine iff_of_true (by decide) ?_
        rintro ⟨-, -, ⟨-, h⟩ | ⟨h, -⟩⟩
        · exact absurd h (by decide)
        · exact absurd h (by decide)
      | some t =>
        rw [cmpChar_zero (hy.next_ne (by rw [hys]; exact Option.some_ne_none t))]
        by_cases hhigh : 0x80 ≤ y.next
        · have hyt : y.tilde = true := by
            by_contra hnot
            exact UInt8.not_le.mpr (hy.next_lt (Bool.eq_false_iff.mpr hnot)) hhigh
          rw [if_pos hhigh]
          exact iff_of_false (fun h => by cases h) (fun h => h ⟨heq.trans hyt, hyt, .inl ⟨rfl, hhigh⟩⟩)
        · rw [if_neg hhigh]
          refine iff_of_true rfl ?_
          rintro ⟨-, -, ⟨-, h⟩ | ⟨-, h⟩⟩
          · exact hhigh h
          · cases h
    | some s =>
      cases hys : y.segment with
      | none =>
        rw [if_pos (.inr rfl), hy.next_eq hys,
          cmpChar_of_zero (hx.next_ne (by rw [hxs]; exact Option.some_ne_none s))]
        by_cases hhigh : 0x80 ≤ x.next
        · have hxt : x.tilde = true := by
            by_contra hnot
            exact UInt8.not_le.mpr (hx.next_lt (Bool.eq_false_iff.mpr hnot)) hhigh
          rw [if_pos hhigh]
          exact iff_of_false (fun h => by cases h) (fun h => h ⟨hxt, heq ▸ hxt, .inr ⟨hhigh, rfl⟩⟩)
        · rw [if_neg hhigh]
          refine iff_of_true rfl ?_
          rintro ⟨-, -, ⟨h, -⟩ | ⟨h, -⟩⟩
          · cases h
          · exact hhigh h
      | some t =>
        refine iff_of_true rfl ?_
        rintro ⟨-, -, ⟨h, -⟩ | ⟨-, h⟩⟩
        · cases h
        · cases h

end VersionItem

theorem versionItems_end {s : Bytes} (h : (takeItem s).1.segment = none) : versionItems s = [(takeItem s).1] := by
  rw [versionItems, dif_pos h]

theorem versionItems_segment {s : Bytes} (h : (takeItem s).1.segment ≠ none) :
    versionItems s = (takeItem s).1 :: versionItems (takeItem s).2 := by
  rw [versionItems, dif_neg h]

/-- Where a text ends the order is decided. -/
theorem compareLex_end {a b : Bytes} (h : (takeItem a).1.segment = none ∨ (takeItem b).1.segment = none) :
    documentedOrder a b = (takeItem a).1.cmp (takeItem b).1 ∧
      (Clash a b ↔ (takeItem a).1.Misjudged (takeItem b).1) := by
  have hcmp : (takeItem a).1.cmp (takeItem b).1 = (compare (!(takeItem a).1.tilde) (!(takeItem b).1.tilde)).then
    (endOlder (takeItem a).1.segment (takeItem b).1.segment) := rfl
  unfold documentedOrder Clash
  by_cases ha : (takeItem a).1.segment = none
  · by_cases hb : (takeItem b).1.segment = none
    · rw [versionItems_end ha, versionItems_end hb, List.compareLex_cons_cons, List.compareLex_nil_nil,
        Ordering.then_eq]
      exact ⟨rfl, or_iff_left fun hrest => hrest.2⟩
    · have hne : (takeItem a).1.cmp (takeItem b).1 ≠ .eq := by
        obtain ⟨t, ht⟩ := Option.ne_none_iff_exists'.mp hb
        rw [hcmp, ha, ht]
        intro heq
        cases (Ordering.then_eq_eq.mp heq).2
      rw [versionItems_end ha, versionItems_segment hb, List.compareLex_cons_cons]
      refine ⟨?_, or_iff_left fun hrest => hne hrest.1⟩
      cases hr : (takeItem a).1.cmp (takeItem b).1 with
      | lt | gt => rfl
      | eq => exact absurd hr hne
  · have hb : (takeItem b).1.segment = none := h.resolve_left ha
    have hne : (takeItem a).1.cmp (takeItem b).1 ≠ .eq := by
      obtain ⟨t, ht⟩ := Option.ne_none_iff_exists'.mp ha
      rw [hcmp, hb, ht]
      intro heq
      cases (Ordering.then_eq_eq.mp heq).2
    rw [versionItems_segment ha, versionItems_end hb, List.compareLex_cons_cons]
    refine ⟨?_, or_iff_left fun hrest => hne hrest.1⟩
    cases hr : (takeItem a).1.cmp (takeItem b).1 with
    | lt | gt => rfl
    | eq => exact absurd hr hne

/-- With enough rounds the loop ends, and its result is the documented order unless the texts clash. -/
theorem strverscmpLoop_spec {n : Nat} {a b : Bytes} (hn : a.length < n) (ha : 0 ∉ a) (hb : 0 ∉ b) :
    ∃ r, strverscmpLoop n a b = some r ∧ (r = documentedOrder a b ↔ ¬ Clash a b) := by
  induction n generalizing a b with
  | zero => exact absurd hn (Nat.not_lt_zero _)
  | succ n ih =>
    have hxs := takeItem_faithful ha
    have hys := takeItem_faithful hb
    unfold strverscmpLoop
    rw [strverscmpRound_eq]
    by_cases hend : (takeItem a).1.segment = none ∨ (takeItem b).1.segment = none
    · rw [if_pos hend]
      obtain ⟨horder, hclash⟩ := compareLex_end hend
      refine ⟨_, rfl, ?_⟩
      rw [horder, hclash]
      exact VersionItem.returned_eq_cmp_iff hxs hys
    · rw [if_neg hend]
      rw [not_or] at hend
      have hshorter := length_takeItem_lt hend.1
      obtain ⟨r, hloop, hr⟩ := @ih (takeItem a).2 (takeItem b).2 (by omega) (fun h => ha (mem_takeItem h))
        (fun h => hb (mem_takeItem h))
      rw [VersionItem.returned_of_segments hend.1 hend.2]
      unfold documentedOrder Clash at hr ⊢
      rw [versionItems_segment hend.1, versionItems_segment hend.2, List.compareLex_cons_cons, clash,
        or_iff_right (VersionItem.not_misjudged_of_segments hend.1 hend.2)]
      cases hcmp : (takeItem a).1.cmp (takeItem b).1 with
      | lt | gt => exact ⟨_, rfl, iff_of_true rfl fun h => by cases h.1⟩
      | eq =>
        refine ⟨r, hloop, ?_⟩
        rw [and_iff_right rfl]
        exact hr

/-- The function ends for all texts. -/
theorem strverscmpImproved_spec {a b : Bytes} (ha : 0 ∉ a) (hb : 0 ∉ b) :
    ∃ r, strverscmpImproved (some a) (some b) = some r ∧ (r = documentedOrder a b ↔ ¬ Clash a b) :=
  strverscmpLoop_spec (Nat.lt_succ_self _) ha hb

/-- The versions in a set are ordered as documented: the function ends, a version is equal to itself, the result
    changes its sign with the order of the versions, and equal ones are in the same place among all others. -/
structure OrdersVersions (S : Set Bytes) : Prop where
  documented : ∀ a ∈ S, ∀ b ∈ S, strverscmpImproved (some a) (some b) = some (documentedOrder a b)
  refl : ∀ a ∈ S, strverscmpImproved (some a) (some a) = some .eq
  swap : ∀ a ∈ S, ∀ b ∈ S,
    strverscmpImproved (some b) (some a) = (strverscmpImproved (some a) (some b)).map Ordering.swap
  trans : ∀ a ∈ S, ∀ b ∈ S, ∀ c ∈ S, ∀ r s t, strverscmpImproved (some a) (some b) = some r →
    strverscmpImproved (some b) (some c) = some s → strverscmpImproved (some a) (some c) = some t →
    r.isLE → s.isLE → t.isLE
  congr : ∀ a ∈ S, ∀ b ∈ S, ∀ c ∈ S, strverscmpImproved (some a) (some b) = some .eq →
    strverscmpImproved (some a) (some c) = strverscmpImproved (some b) (some c)

/-- The versions of a set are ordered as documented (`OrdersVersions`) exactly if no two of them `Clash`. -/
theorem strverscmpImproved_ordersVersions_iff {S : Set Bytes} (hS : ∀ s ∈ S, 0 ∉ s) :
    OrdersVersions S ↔ ∀ a ∈ S, ∀ b ∈ S, ¬ Clash a b := by
  constructor
  · intro h a ha b hb
    obtain ⟨r, hr, hiff⟩ := strverscmpImproved_spec (hS a ha) (hS b hb)
    rw [h.documented a ha b hb] at hr
    exact hiff.mp (Option.some.inj hr).symm
  · intro h
    have hdocumented : ∀ a ∈ S, ∀ b ∈ S, strverscmpImproved (some a) (some b) = some (documentedOrder a b) := by
      intro a ha b hb
      obtain ⟨r, hr, hiff⟩ := strverscmpImproved_spec (hS a ha) (hS b hb)
      rw [hr, hiff.mpr (h a ha b hb)]
    refine ⟨hdocumented, ?_, ?_, ?_, ?_⟩
    · intro a ha
      rw [hdocumented a ha a ha]
      exact congrArg some Std.ReflCmp.compare_self
    · intro a ha b hb
      rw [hdocumented a ha b hb, hdocumented b hb a ha]
      exact congrArg some Std.OrientedCmp.eq_swap
    · intro a ha b hb c hc r s t hr hs ht
      rw [hdocumented a ha b hb] at hr
      rw [hdocumented b hb c hc] at hs
      rw [hdocumented a ha c hc] at ht
      obtain rfl := Option.some.inj hr
      obtain rfl := Option.some.inj hs
      obtain rfl := Option.some.inj ht
      exact Std.TransCmp.isLE_trans
    · intro a ha b hb c hc hab
      rw [hdocumented a ha b hb] at hab
      rw [hdocumented a ha c hc, hdocumented b hb c hc]
      exact congrArg some (Std.TransCmp.congr_left (Option.some.inj hab))

/-- A release candidate, the release and a patched release. -/
theorem strverscmpImproved_ordersVersions_patched :
    OrdersVersions {s | s ∈ [ascii "123~rc1-1", ascii "123", ascii "123^post1"]} := by
  have hzero : ∀ s ∈ [ascii "123~rc1-1", ascii "123", ascii "123^post1"], 0 ∉ s := by decide +kernel
  have hclash : ∀ a ∈ [ascii "123~rc1-1", ascii "123", ascii "123^post1"],
      ∀ b ∈ [ascii "123~rc1-1", ascii "123", ascii "123^post1"], ¬ Clash a b := by decide +kernel
  exact (strverscmpImproved_ordersVersions_iff hzero).mpr hclash

/-- Two texts are equal of which one is newer and the other older than a third one. -/
theorem strverscmpImproved_highByte :
    ¬ ∀ a b c : Bytes, 0 ∉ a → 0 ∉ b → 0 ∉ c → ∀ r s t, strverscmpImproved (some a) (some b) = some r →
      strverscmpImproved (some b) (some c) = some s → strverscmpImproved (some a) (some c) = some t →
      r.isLE → s.isLE → t.isLE := by
  intro h
  have hgt := h [tilde, underscore] [tilde, 0xff] [tilde] (by decide) (by decide) (by decide) .eq .lt .gt
    (by decide +kernel) (by decide +kernel) (by decide +kernel) rfl rfl
  exact absurd hgt (by decide)

end Elogind
