/-
  Elogind.Bus.Signature

  Type codes of D-Bus values (bus-type.c) and signatures (bus-signature.c).  A
  signature is a sequence of complete types; nested types are recognised by a
  recursion that counts the arrays and structures around them.
-/

import Elogind.Basic.Bytes
import Elogind.Basic.Errno
import Mathlib.Data.List.Basic

namespace Elogind

open List

-- for what is checked for each byte
set_option maxRecDepth 2000

namespace BusType

def byte : UInt8 := 121
def boolean : UInt8 := 98
def int16 : UInt8 := 110
def uint16 : UInt8 := 113
def int32 : UInt8 := 105
def uint32 : UInt8 := 117
def int64 : UInt8 := 120
def uint64 : UInt8 := 116
def double : UInt8 := 100
def string : UInt8 := 115
def objectPath : UInt8 := 111
def signature : UInt8 := 103
def unixFd : UInt8 := 104
def array : UInt8 := 97
def variant : UInt8 := 118
def struct : UInt8 := 114
def structBegin : UInt8 := 40
def structEnd : UInt8 := 41
def dictEntry : UInt8 := 101
def dictEntryBegin : UInt8 := 123
def dictEntryEnd : UInt8 := 125

/-- `bus_type_is_basic` -/
def isBasic (c : UInt8) : Bool :=
  [byte, boolean, int16, uint16, int32, uint32, int64, uint64, double, string, objectPath, signature,
    unixFd].contains c

/-- `bus_type_is_trivial` -/
def isTrivial (c : UInt8) : Bool :=
  [byte, boolean, int16, uint16, int32, uint32, int64, uint64, double].contains c

/-- `bus_type_get_alignment`; a code that has none is an error. -/
def getAlignment (c : UInt8) : Option Nat :=
  if [byte, signature, variant].contains c then some 1
  else if [int16, uint16].contains c then some 2
  else if [boolean, int32, uint32, string, objectPath, array, unixFd].contains c then some 4
  else if [int64, uint64, double, struct, structBegin, dictEntry, dictEntryBegin].contains c then some 8
  else none

/-- `bus_type_get_size`; only types of a fixed size have one. -/
def getSize (c : UInt8) : Option Nat :=
  if c = byte then some 1
  else if [int16, uint16].contains c then some 2
  else if [boolean, int32, uint32, unixFd].contains c then some 4
  else if [int64, uint64, double].contains c then some 8
  else none

end BusType

open BusType

/-! ## Definitions -/

/-- The members of a structure: how many bytes stand before the closing parenthesis. -/
def structLength (element : Bytes → Result Nat) : Nat → Bytes → Result Nat
  | 0, _ => .error Errno.EINVAL
  | fuel + 1, p =>
    if p.headD 0 = structEnd then .ok 0
    else
      match element p with
      | .error e => .error e
      | .ok t =>
        match structLength element fuel (p.drop t) with
        | .error e => .error e
        | .ok n => .ok (t + n)

/-- The members of a dictionary entry, of which `n` were seen: how many bytes stand before the
    closing brace, and how many members there are in all. -/
def dictEntryLength (element : Bytes → Result Nat) : Nat → Nat → Bytes → Result (Nat × Nat)
  | 0, _, _ => .error Errno.EINVAL
  | fuel + 1, n, p =>
    if p.headD 0 = dictEntryEnd then .ok (0, n)
    else if n = 0 ∧ !isBasic (p.headD 0) then .error Errno.EINVAL
    else
      match element p with
      | .error e => .error e
      | .ok t =>
        match dictEntryLength element fuel (n + 1) (p.drop t) with
        | .error e => .error e
        | .ok r => .ok (t + r.1, r.2)

/-- `signature_element_length_internal`.  Every recursive call is one array or one structure
    deeper, so 65 levels are never used up. -/
def signatureElementLengthInternal : Nat → Bytes → Bool → Nat → Nat → Result Nat
  | 0, _, _, _, _ => .error Errno.EINVAL
  | fuel + 1, s, allowDictEntry, arrayDepth, structDepth =>
    if isBasic (s.headD 0) || s.headD 0 == variant then .ok 1
    else if s.headD 0 = array then
      if 32 ≤ arrayDepth then .error Errno.EINVAL
      else
        match signatureElementLengthInternal fuel s.tail true (arrayDepth + 1) structDepth with
        | .error e => .error e
        | .ok t => .ok (t + 1)
    else if s.headD 0 = structBegin then
      if 32 ≤ structDepth then .error Errno.EINVAL
      else
        match structLength
            (fun p => signatureElementLengthInternal fuel p false arrayDepth (structDepth + 1))
            s.length s.tail with
        | .error e => .error e
        -- empty structures are not allowed
        | .ok n => if n = 0 then .error Errno.EINVAL else .ok (n + 2)
    else if s.headD 0 = dictEntryBegin ∧ allowDictEntry then
      if 32 ≤ structDepth then .error Errno.EINVAL
      else
        match dictEntryLength
            (fun p => signatureElementLengthInternal fuel p false arrayDepth (structDepth + 1))
            s.length 0 s.tail with
        | .error e => .error e
        | .ok r => if r.2 ≠ 2 then .error Errno.EINVAL else .ok (r.1 + 2)
    else .error Errno.EINVAL

/-- `signature_element_length` -/
def signatureElementLength (s : Bytes) : Result Nat := signatureElementLengthInternal 65 s true 0 0

/-- `signature_is_single`: the type that stands first ends at the end of the text. -/
def signatureIsSingle (s : Bytes) (allowDictEntry : Bool) : Bool :=
  match signatureElementLengthInternal 65 s allowDictEntry 0 0 with
  | .error _ => false
  | .ok t => t == s.length

/-- `signature_is_pair` -/
def signatureIsPair (s : Bytes) : Bool := isBasic (s.headD 0) && signatureIsSingle s.tail false

/-- The loop of `signature_is_valid`. -/
def signatureIsValidLoop (allowDictEntry : Bool) : Nat → Bytes → Bool
  | _, [] => true
  | 0, _ :: _ => false
  | fuel + 1, c :: p =>
    match signatureElementLengthInternal 65 (c :: p) allowDictEntry 0 0 with
    | .error _ => false
    | .ok t => signatureIsValidLoop allowDictEntry fuel ((c :: p).drop t)

/-- `SD_BUS_MAXIMUM_SIGNATURE_LENGTH` -/
def maximumSignatureLength : Nat := 255

/-- `signature_is_valid` -/
def signatureIsValid (s : Bytes) (allowDictEntry : Bool) : Bool :=
  signatureIsValidLoop allowDictEntry s.length s && s.length ≤ maximumSignatureLength

/-! ## What is recognised at the start of a text -/

/-- `element` recognises `x` at the start of a text, whatever follows it. -/
def Recognises (element : Bytes → Result Nat) (x : Bytes) : Prop :=
  x ≠ [] ∧ ∀ r, element (x ++ r) = .ok x.length

/-- Whether `element` accepts a text is decided by the bytes that it accepts. -/
def IsLocal (element : Bytes → Result Nat) : Prop :=
  ∀ ⦃s n⦄, element s = .ok n → ∃ x r, s = x ++ r ∧ x.length = n ∧ Recognises element x

/-- Two recognised types at the start of one text are the same. -/
theorem Recognises.eq_of_append {element : Bytes → Result Nat} {x y r r' : Bytes}
    (hx : Recognises element x) (hy : Recognises element y) (h : x ++ r = y ++ r') :
    x = y ∧ r = r' := by
  have hlen : x.length = y.length := by
    have hn := hx.2 r
    rw [h, hy.2 r'] at hn
    exact (Except.ok.inj hn).symm
  exact append_inj h hlen

/-- A recogniser that accepts more recognises more. -/
theorem Recognises.mono {element element' : Bytes → Result Nat} {x : Bytes} (hx : Recognises element x)
    (h : ∀ {s n}, element s = .ok n → element' s = .ok n) : Recognises element' x :=
  ⟨hx.1, fun r => h (hx.2 r)⟩

theorem structLength_flatten {element : Bytes → Result Nat} (hend : ∀ r n, element (structEnd :: r) ≠ .ok n)
    {xs : List Bytes} (hxs : ∀ x ∈ xs, Recognises element x) (r : Bytes) {fuel : Nat}
    (hfuel : xs.length < fuel) :
    structLength element fuel (xs.flatten ++ structEnd :: r) = .ok xs.flatten.length := by
  induction xs generalizing fuel with
  | nil =>
    obtain ⟨fuel, rfl⟩ := Nat.exists_eq_succ_of_ne_zero (Nat.ne_of_gt hfuel)
    rfl
  | cons x xs ih =>
    obtain ⟨fuel, rfl⟩ := Nat.exists_eq_succ_of_ne_zero (Nat.ne_of_gt (Nat.zero_lt_of_lt hfuel))
    have hx := hxs x (mem_cons_self ..)
    have hhead : ((x :: xs).flatten ++ structEnd :: r).headD 0 ≠ structEnd := by
      obtain ⟨c, x, rfl⟩ := exists_cons_of_ne_nil hx.1
      rintro rfl
      exact hend _ _ (hx.2 [])
    have hrest := ih (fun y hy => hxs y (mem_cons_of_mem x hy))
      (Nat.lt_of_succ_lt_succ hfuel)
    rw [structLength, if_neg hhead, flatten_cons, append_assoc, hx.2]
    simp only [drop_left, hrest, length_append]

/-- The members of a structure are types that are recognised one after the other. -/
theorem structLength_eq_ok {element : Bytes → Result Nat} (hlocal : IsLocal element) {fuel n : Nat}
    {p : Bytes} (h : structLength element fuel p = .ok n) :
    ∃ (xs : List Bytes) (r : Bytes), p = xs.flatten ++ structEnd :: r ∧ xs.flatten.length = n ∧
      (∀ x ∈ xs, Recognises element x) ∧ xs.length < fuel := by
  induction fuel generalizing p n with
  | zero => cases h
  | succ fuel ih =>
    rw [structLength] at h
    split at h
    · rename_i hhead
      cases h
      cases p with
      | nil => exact absurd hhead (by decide)
      | cons c p => exact ⟨[], p, by rw [← hhead]; rfl, rfl, by simp, Nat.succ_pos fuel⟩
    · cases ht : element p with
      | error e => simp only [ht, reduceCtorEq] at h
      | ok t =>
        simp only [ht] at h
        cases hn : structLength element fuel (p.drop t) with
        | error e => simp only [hn, reduceCtorEq] at h
        | ok m =>
          simp only [hn, Except.ok.injEq] at h
          obtain ⟨x, r, rfl, rfl, hx⟩ := hlocal ht
          rw [drop_left] at hn
          obtain ⟨xs, r', rfl, rfl, hxs, hlt⟩ := ih hn
          refine ⟨x :: xs, r', ?_, ?_, ?_, Nat.succ_lt_succ hlt⟩
          · rw [flatten_cons, append_assoc]
          · rw [flatten_cons, length_append, h]
          · intro y hy
            rcases mem_cons.mp hy with rfl | hy
            · exact hx
            · exact hxs y hy

theorem dictEntryLength_flatten {element : Bytes → Result Nat}
    (hend : ∀ r n, element (dictEntryEnd :: r) ≠ .ok n) {xs : List Bytes}
    (hxs : ∀ x ∈ xs, Recognises element x) {n : Nat}
    (hkey : n = 0 → ∀ x ∈ xs.head?, isBasic (x.headD 0) = true) (r : Bytes) {fuel : Nat}
    (hfuel : xs.length < fuel) :
    dictEntryLength element fuel n (xs.flatten ++ dictEntryEnd :: r) =
      .ok (xs.flatten.length, n + xs.length) := by
  induction xs generalizing fuel n with
  | nil =>
    obtain ⟨fuel, rfl⟩ := Nat.exists_eq_succ_of_ne_zero (Nat.ne_of_gt hfuel)
    rfl
  | cons x xs ih =>
    obtain ⟨fuel, rfl⟩ := Nat.exists_eq_succ_of_ne_zero (Nat.ne_of_gt (Nat.zero_lt_of_lt hfuel))
    have hx := hxs x (mem_cons_self ..)
    obtain ⟨c, hc⟩ : ∃ c, ∃ y, x = c :: y := exists_cons_of_ne_nil hx.1
    have hhead : ((x :: xs).flatten ++ dictEntryEnd :: r).headD 0 = x.headD 0 := by
      obtain ⟨y, rfl⟩ := hc
      rfl
    have hne : x.headD 0 ≠ dictEntryEnd := by
      obtain ⟨y, rfl⟩ := hc
      rintro rfl
      exact hend _ _ (hx.2 [])
    have hbasic : ¬ (n = 0 ∧ (!isBasic (x.headD 0)) = true) := by
      rintro ⟨hn, hb⟩
      rw [hkey hn x rfl] at hb
      cases hb
    have hrest := ih (n := n + 1) (fun y hy => hxs y (mem_cons_of_mem x hy))
      (fun h => absurd h (Nat.succ_ne_zero n)) (Nat.lt_of_succ_lt_succ hfuel)
    rw [dictEntryLength, hhead, if_neg hne, if_neg hbasic, flatten_cons, append_assoc, hx.2]
    simp only [drop_left, hrest, length_append, length_cons]
    rw [Nat.add_assoc, Nat.add_comm 1]

/-- The members of a dictionary entry are recognised one after the other; the first one is
    basic. -/
theorem dictEntryLength_eq_ok {element : Bytes → Result Nat} (hlocal : IsLocal element) {fuel n : Nat}
    {p : Bytes} {k : Nat × Nat} (h : dictEntryLength element fuel n p = .ok k) :
    ∃ (xs : List Bytes) (r : Bytes), p = xs.flatten ++ dictEntryEnd :: r ∧ (xs.flatten.length, n + xs.length) = k ∧
      (∀ x ∈ xs, Recognises element x) ∧
      (n = 0 → ∀ x ∈ xs.head?, isBasic (x.headD 0) = true) ∧ xs.length < fuel := by
  induction fuel generalizing p n k with
  | zero => cases h
  | succ fuel ih =>
    rw [dictEntryLength] at h
    split at h
    · rename_i hhead
      cases h
      cases p with
      | nil => exact absurd hhead (by decide)
      | cons c p => exact ⟨[], p, by rw [← hhead]; rfl, rfl, by simp, by simp, Nat.succ_pos fuel⟩
    · split at h
      · cases h
      · rename_i hbasic
        cases ht : element p with
        | error e => simp only [ht, reduceCtorEq] at h
        | ok t =>
          simp only [ht] at h
          cases hn : dictEntryLength element fuel (n + 1) (p.drop t) with
          | error e => simp only [hn, reduceCtorEq] at h
          | ok m =>
            simp only [hn, Except.ok.injEq] at h
            obtain ⟨x, r, rfl, rfl, hx⟩ := hlocal ht
            rw [drop_left] at hn
            obtain ⟨xs, r', rfl, rfl, hxs, -, hlt⟩ := ih hn
            refine ⟨x :: xs, r', ?_, ?_, ?_, ?_, Nat.succ_lt_succ hlt⟩
            · rw [flatten_cons, append_assoc]
            · rw [← h, flatten_cons, length_append, length_cons, Nat.add_assoc,
                Nat.add_comm 1]
            · intro y hy
              rcases mem_cons.mp hy with rfl | hy
              · exact hx
              · exact hxs y hy
            · intro hn0 y hy
              obtain ⟨c, z, rfl⟩ := exists_cons_of_ne_nil hx.1
              cases hy
              cases hb : isBasic c with
              | true => exact hb
              | false => exact absurd ⟨hn0, by simp [hb]⟩ hbasic

/-! ## Complete types -/

section Element

variable {fuel fuel' : Nat} {s : Bytes} {allow allow' : Bool} {arrayDepth arrayDepth' : Nat}
  {structDepth structDepth' n : Nat}

/-- The first byte of a complete type and what follows it. -/
theorem signatureElementLengthInternal_eq_ok
    (h : signatureElementLengthInternal (fuel + 1) s allow arrayDepth structDepth = .ok n) :
    ((isBasic (s.headD 0) = true ∨ s.headD 0 = variant) ∧ n = 1) ∨
    (∃ p t, s = array :: p ∧ arrayDepth < 32 ∧ n = t + 1 ∧
      signatureElementLengthInternal fuel p true (arrayDepth + 1) structDepth = .ok t) ∨
    (∃ p t, s = structBegin :: p ∧ structDepth < 32 ∧ 0 < t ∧ n = t + 2 ∧
      structLength (fun p => signatureElementLengthInternal fuel p false arrayDepth (structDepth + 1))
        s.length p = .ok t) ∨
    (∃ p t, s = dictEntryBegin :: p ∧ allow = true ∧ structDepth < 32 ∧ n = t + 2 ∧
      dictEntryLength (fun p => signatureElementLengthInternal fuel p false arrayDepth (structDepth + 1))
        s.length 0 p = .ok (t, 2)) := by
  have hcons : ∀ {c : UInt8}, c ≠ 0 → s.headD 0 = c → ∃ p, s = c :: p := by
    intro c hc hs
    cases s with
    | nil => exact absurd hs.symm hc
    | cons d p => exact ⟨p, by rw [← hs]; rfl⟩
  rw [signatureElementLengthInternal] at h
  split at h
  · rename_i hb
    cases h
    simp only [Bool.or_eq_true, beq_iff_eq] at hb
    exact .inl ⟨hb, rfl⟩
  · split at h
    · rename_i ha
      obtain ⟨p, rfl⟩ := hcons (by decide) ha
      split at h
      · cases h
      · rename_i hdepth
        split at h
        · cases h
        · rename_i t ht
          cases h
          exact .inr (.inl ⟨p, t, rfl, by omega, rfl, ht⟩)
    · split at h
      · rename_i ha
        obtain ⟨p, rfl⟩ := hcons (by decide) ha
        split at h
        · cases h
        · rename_i hdepth
          split at h
          · cases h
          · rename_i t ht
            split at h
            · cases h
            · rename_i hpos
              cases h
              exact .inr (.inr (.inl ⟨p, t, rfl, by omega, by omega, rfl, ht⟩))
      · split at h
        · rename_i ha
          obtain ⟨p, rfl⟩ := hcons (by decide) ha.1
          split at h
          · cases h
          · rename_i hdepth
            split at h
            · cases h
            · rename_i r hr
              split at h
              · cases h
              · rename_i htwo
                cases h
                refine .inr (.inr (.inr ⟨p, r.1, rfl, ha.2, by omega, rfl, ?_⟩))
                exact hr.trans (congrArg _ (Prod.ext rfl (not_not.mp htwo)))
        · cases h

theorem signatureElementLengthInternal_basic {c : UInt8} (hc : isBasic c = true ∨ c = variant) (r : Bytes) :
    signatureElementLengthInternal (fuel + 1) (c :: r) allow arrayDepth structDepth = .ok 1 := by
  rw [signatureElementLengthInternal, if_pos]
  simpa using hc

theorem signatureElementLengthInternal_array {p : Bytes} {t : Nat} (hdepth : arrayDepth < 32)
    (h : signatureElementLengthInternal fuel p true (arrayDepth + 1) structDepth = .ok t) :
    signatureElementLengthInternal (fuel + 1) (array :: p) allow arrayDepth structDepth = .ok (t + 1) := by
  rw [signatureElementLengthInternal, headD_cons, tail_cons, if_neg (by decide), if_pos rfl,
    if_neg (by omega), h]

theorem length_le_flatten {xs : List Bytes} (h : ∀ x ∈ xs, x ≠ []) : xs.length ≤ xs.flatten.length := by
  induction xs with
  | nil => exact Nat.le_refl 0
  | cons x xs ih =>
    have hx := length_pos_iff.mpr (h x (mem_cons_self ..))
    have hxs := ih fun y hy => h y (mem_cons_of_mem x hy)
    rw [flatten_cons, length_append, length_cons]
    omega

/-- No type starts with a closing parenthesis or brace. -/
theorem signatureElementLengthInternal_close {c : UInt8} (hc : c = structEnd ∨ c = dictEntryEnd)
    (r : Bytes) : signatureElementLengthInternal fuel (c :: r) allow arrayDepth structDepth ≠ .ok n := by
  cases fuel with
  | zero =>
    intro h
    cases h
  | succ fuel =>
    intro h
    rcases signatureElementLengthInternal_eq_ok h with ⟨hb, -⟩ | ⟨p, t, hp, -⟩ | ⟨p, t, hp, -⟩ |
      ⟨p, t, hp, -⟩
    · rw [headD_cons] at hb
      rcases hc with rfl | rfl <;> exact absurd hb (by decide)
    all_goals
      obtain ⟨rfl, -⟩ := cons.inj hp
      revert hc
      decide

theorem signatureElementLengthInternal_struct {xs : List Bytes} (hdepth : structDepth < 32)
    (hxs : ∀ x ∈ xs, Recognises
      (fun p => signatureElementLengthInternal fuel p false arrayDepth (structDepth + 1)) x)
    (hpos : 0 < xs.flatten.length) (r : Bytes) :
    signatureElementLengthInternal (fuel + 1) (structBegin :: (xs.flatten ++ structEnd :: r)) allow
      arrayDepth structDepth = .ok (xs.flatten.length + 2) := by
  have hle := length_le_flatten fun x hx => (hxs x hx).1
  rw [signatureElementLengthInternal, headD_cons, tail_cons, if_neg (by decide),
    if_neg (by decide), if_pos rfl, if_neg (by omega), structLength_flatten
      (fun r n => signatureElementLengthInternal_close (.inl rfl) r) hxs r
      (by simp only [length_cons, length_append]; omega)]
  exact if_neg (by omega)

theorem signatureElementLengthInternal_dictEntry {x y : Bytes} (hdepth : structDepth < 32)
    (hx : Recognises (fun p => signatureElementLengthInternal fuel p false arrayDepth (structDepth + 1)) x)
    (hy : Recognises (fun p => signatureElementLengthInternal fuel p false arrayDepth (structDepth + 1)) y)
    (hkey : isBasic (x.headD 0) = true) (r : Bytes) :
    signatureElementLengthInternal (fuel + 1) (dictEntryBegin :: (x ++ y ++ dictEntryEnd :: r)) true
      arrayDepth structDepth = .ok ((x ++ y).length + 2) := by
  have hxy : ∀ z ∈ [x, y], Recognises
      (fun p => signatureElementLengthInternal fuel p false arrayDepth (structDepth + 1)) z := by
    intro z hz
    rcases mem_cons.mp hz with rfl | hz
    · exact hx
    · exact mem_singleton.mp hz ▸ hy
  have hle := length_le_flatten fun x hx => (hxy x hx).1
  have hflat : x ++ y = [x, y].flatten := by simp
  rw [signatureElementLengthInternal, headD_cons, tail_cons, if_neg (by decide),
    if_neg (by decide), if_neg (by decide), if_pos ⟨rfl, rfl⟩, if_neg (by omega), hflat,
    dictEntryLength_flatten
      (fun r n => signatureElementLengthInternal_close (.inr rfl) r) hxy
      (fun _ z hz => by cases hz; exact hkey) r
      (by simp only [length_cons, length_append, length_nil] at hle ⊢; omega)]
  exact if_neg (by simp)

/-- The two members of a dictionary entry. -/
theorem dictEntryLength_two {element : Bytes → Result Nat} (hlocal : IsLocal element) {p : Bytes}
    {k : Nat} (h : dictEntryLength element fuel 0 p = .ok (k, 2)) :
    ∃ x y r, p = x ++ y ++ dictEntryEnd :: r ∧ (x ++ y).length = k ∧ Recognises element x ∧
      Recognises element y ∧ isBasic (x.headD 0) = true := by
  obtain ⟨xs, r, rfl, hk, hxs, hkey, -⟩ := dictEntryLength_eq_ok hlocal h
  obtain ⟨hlen, htwo⟩ := Prod.mk.inj hk
  rw [Nat.zero_add] at htwo
  obtain ⟨x, y, rfl⟩ := length_eq_two.mp htwo
  have hflat : [x, y].flatten = x ++ y := by simp
  rw [hflat] at hlen ⊢
  exact ⟨x, y, r, rfl, hlen, hxs x (by simp), hxs y (by simp), hkey rfl x rfl⟩

theorem isLocal_element (fuel : Nat) (allow : Bool) (arrayDepth structDepth : Nat) :
    IsLocal fun s => signatureElementLengthInternal fuel s allow arrayDepth structDepth := by
  induction fuel generalizing allow arrayDepth structDepth with
  | zero =>
    intro s n h
    cases h
  | succ fuel ih =>
    intro s n h
    rcases signatureElementLengthInternal_eq_ok h with ⟨hb, rfl⟩ | ⟨p, t, rfl, hdepth, rfl, ht⟩ |
      ⟨p, t, rfl, hdepth, hpos, rfl, ht⟩ | ⟨p, t, rfl, rfl, hdepth, rfl, ht⟩
    · cases s with
      | nil => exact absurd hb (by decide)
      | cons c r =>
        exact ⟨[c], r, rfl, rfl, cons_ne_nil c [], signatureElementLengthInternal_basic hb⟩
    · obtain ⟨x, r, rfl, rfl, hx⟩ := ih true (arrayDepth + 1) structDepth ht
      refine ⟨array :: x, r, rfl, rfl, cons_ne_nil _ _, fun r' => ?_⟩
      exact signatureElementLengthInternal_array hdepth (hx.2 r')
    · obtain ⟨xs, r, rfl, rfl, hxs, -⟩ := structLength_eq_ok (ih false arrayDepth (structDepth + 1)) ht
      have hlen : (structBegin :: (xs.flatten ++ [structEnd])).length = xs.flatten.length + 2 := by
        rw [length_cons, length_append, length_singleton]
      refine ⟨structBegin :: (xs.flatten ++ [structEnd]), r, by simp, hlen,
        cons_ne_nil _ _, fun r' => ?_⟩
      rw [hlen, cons_append, append_assoc]
      exact signatureElementLengthInternal_struct hdepth hxs hpos r'
    · obtain ⟨x, y, r, rfl, rfl, hx, hy, hkey⟩ :=
        dictEntryLength_two (ih false arrayDepth (structDepth + 1)) ht
      have hlen : (dictEntryBegin :: (x ++ y ++ [dictEntryEnd])).length = (x ++ y).length + 2 := by
        rw [length_cons, length_append, length_singleton]
      refine ⟨dictEntryBegin :: (x ++ y ++ [dictEntryEnd]), r, by simp, hlen,
        cons_ne_nil _ _, fun r' => ?_⟩
      rw [hlen, cons_append, append_assoc (x ++ y)]
      exact signatureElementLengthInternal_dictEntry hdepth hx hy hkey r'

/-- A type that is recognised at some depth is recognised with fewer arrays and structures
    around it. -/
theorem signatureElementLengthInternal_mono
    (h : signatureElementLengthInternal fuel s allow arrayDepth structDepth = .ok n)
    (hfuel : fuel ≤ fuel') (hallow : allow = true → allow' = true) (harray : arrayDepth' ≤ arrayDepth)
    (hstruct : structDepth' ≤ structDepth) :
    signatureElementLengthInternal fuel' s allow' arrayDepth' structDepth' = .ok n := by
  induction fuel generalizing fuel' s allow allow' arrayDepth arrayDepth' structDepth structDepth' n with
  | zero => cases h
  | succ fuel ih =>
    obtain ⟨fuel', rfl⟩ := Nat.exists_eq_succ_of_ne_zero (Nat.ne_of_gt (Nat.zero_lt_of_lt hfuel))
    have hle := Nat.le_of_succ_le_succ hfuel
    rcases signatureElementLengthInternal_eq_ok h with ⟨hb, rfl⟩ | ⟨p, t, rfl, hdepth, rfl, ht⟩ |
      ⟨p, t, rfl, hdepth, hpos, rfl, ht⟩ | ⟨p, t, rfl, rfl, hdepth, rfl, ht⟩
    · cases s with
      | nil => exact absurd hb (by decide)
      | cons c r => exact signatureElementLengthInternal_basic hb r
    · exact signatureElementLengthInternal_array (by omega) (ih ht hle id (by omega) hstruct)
    · obtain ⟨xs, r, rfl, rfl, hxs, -⟩ :=
        structLength_eq_ok (isLocal_element fuel false arrayDepth (structDepth + 1)) ht
      refine signatureElementLengthInternal_struct (by omega) (fun x hx => ?_) hpos r
      exact (hxs x hx).mono fun h => ih h hle id harray (by omega)
    · obtain ⟨x, y, r, rfl, rfl, hx, hy, hkey⟩ :=
        dictEntryLength_two (isLocal_element fuel false arrayDepth (structDepth + 1)) ht
      rw [hallow rfl]
      exact signatureElementLengthInternal_dictEntry (by omega)
        (hx.mono fun h => ih h hle id harray (by omega))
        (hy.mono fun h => ih h hle id harray (by omega)) hkey r

/-- There is no zero in a complete type. -/
theorem signatureElementLengthInternal_ne_zero
    (h : signatureElementLengthInternal fuel s allow arrayDepth structDepth = .ok n) :
    ∀ c ∈ s.take n, c ≠ 0 := by
  induction fuel generalizing s allow arrayDepth structDepth n with
  | zero => cases h
  | succ fuel ih =>
    have hmember : ∀ {x : Bytes}, Recognises
        (fun p => signatureElementLengthInternal fuel p false arrayDepth (structDepth + 1)) x →
        ∀ c ∈ x, c ≠ 0 := by
      intro x hx
      have hx' := ih (hx.2 [])
      rwa [append_nil, take_length] at hx'
    rcases signatureElementLengthInternal_eq_ok h with ⟨hb, rfl⟩ | ⟨p, t, rfl, -, rfl, ht⟩ |
      ⟨p, t, rfl, -, -, rfl, ht⟩ | ⟨p, t, rfl, -, -, rfl, ht⟩
    · cases s with
      | nil => exact absurd hb (by decide)
      | cons d p =>
        intro c hc
        rw [take_succ_cons, take_zero, mem_singleton] at hc
        rw [headD_cons] at hb
        rintro rfl
        rw [← hc] at hb
        exact absurd hb (by decide)
    · intro c hc
      rcases mem_cons.mp hc with rfl | hc
      · decide
      · exact ih ht c hc
    · obtain ⟨xs, r, rfl, rfl, hxs, -⟩ :=
        structLength_eq_ok (isLocal_element fuel false arrayDepth (structDepth + 1)) ht
      have htake : (structBegin :: (xs.flatten ++ structEnd :: r)).take (xs.flatten.length + 2) =
          structBegin :: (xs.flatten ++ [structEnd]) := by
        rw [take_succ_cons, take_length_add_append]
        rfl
      rw [htake]
      intro c hc
      rcases mem_cons.mp hc with rfl | hc
      · decide
      · rcases mem_append.mp hc with hc | hc
        · obtain ⟨x, hx, hcx⟩ := mem_flatten.mp hc
          exact hmember (hxs x hx) c hcx
        · rw [mem_singleton.mp hc]
          decide
    · obtain ⟨x, y, r, rfl, rfl, hx, hy, -⟩ :=
        dictEntryLength_two (isLocal_element fuel false arrayDepth (structDepth + 1)) ht
      have htake : (dictEntryBegin :: (x ++ y ++ dictEntryEnd :: r)).take ((x ++ y).length + 2) =
          dictEntryBegin :: (x ++ y ++ [dictEntryEnd]) := by
        rw [take_succ_cons, take_length_add_append]
        rfl
      rw [htake]
      intro c hc
      rcases mem_cons.mp hc with rfl | hc
      · decide
      · rcases mem_append.mp hc with hc | hc
        · rcases mem_append.mp hc with hc | hc
          · exact hmember hx c hc
          · exact hmember hy c hc
        · rw [mem_singleton.mp hc]
          decide

end Element

/-! ## Single types and sequences of types -/

theorem signatureIsSingle_iff {x : Bytes} {allow : Bool} :
    signatureIsSingle x allow = true ↔
      Recognises (fun s => signatureElementLengthInternal 65 s allow 0 0) x := by
  rw [signatureIsSingle]
  constructor
  · intro h
    split at h
    · cases h
    · next t ht =>
      obtain ⟨y, r, rfl, hlen, hy⟩ := isLocal_element 65 allow 0 0 ht
      rw [beq_iff_eq, ← hlen, length_append] at h
      have hr : r = [] := length_eq_zero_iff.mp (by omega)
      rw [hr, append_nil]
      exact hy
  · intro h
    have hx := h.2 []
    rw [append_nil] at hx
    simp only [hx, BEq.rfl]

theorem signatureIsSingle_ne_nil {x : Bytes} {allow : Bool} (h : signatureIsSingle x allow = true) :
    x ≠ [] := ((signatureIsSingle_iff).mp h).1

theorem signatureIsSingle_ne_zero {x : Bytes} {allow : Bool} (h : signatureIsSingle x allow = true) :
    ∀ c ∈ x, c ≠ 0 := by
  have hx := signatureElementLengthInternal_ne_zero (((signatureIsSingle_iff).mp h).2 [])
  rwa [append_nil, take_length] at hx

/-- A type starts with a code that has an alignment. -/
theorem getAlignment_of_single {x : Bytes} {allow : Bool} (h : signatureIsSingle x allow = true) :
    ∃ a, getAlignment (x.headD 0) = some a := by
  have hx := ((signatureIsSingle_iff).mp h).2 []
  rw [append_nil] at hx
  rcases signatureElementLengthInternal_eq_ok hx with ⟨hb, -⟩ | ⟨p, t, rfl, -⟩ | ⟨p, t, rfl, -⟩ |
    ⟨p, t, rfl, -⟩
  · generalize x.headD 0 = c at hb
    have hall : ∀ c : UInt8, (isBasic c = true ∨ c = variant) → (getAlignment c).isSome = true := by
      decide
    exact Option.isSome_iff_exists.mp (hall c hb)
  · exact ⟨4, rfl⟩
  · exact ⟨8, rfl⟩
  · exact ⟨8, rfl⟩

/-- A single type is found at the start of a text. -/
theorem signatureElementLength_of_single {x : Bytes} {allow : Bool}
    (h : signatureIsSingle x allow = true) (r : Bytes) :
    signatureElementLength (x ++ r) = .ok x.length :=
  signatureElementLengthInternal_mono (((signatureIsSingle_iff).mp h).2 r) (Nat.le_refl _) (fun _ => rfl)
    (Nat.le_refl _) (Nat.le_refl _)

theorem signatureIsSingle_true {x : Bytes} {allow : Bool} (h : signatureIsSingle x allow = true) :
    signatureIsSingle x true = true := by
  have hx := signatureElementLength_of_single h
  exact (signatureIsSingle_iff).mpr ⟨signatureIsSingle_ne_nil h, hx⟩

theorem signatureIsSingle_basic {c : UInt8} {allow : Bool} (h : isBasic c = true ∨ c = variant) :
    signatureIsSingle [c] allow = true :=
  (signatureIsSingle_iff).mpr ⟨cons_ne_nil c [], signatureElementLengthInternal_basic h⟩

/-- Two single types at the start of one text are the same. -/
theorem eq_of_single_append {x y r r' : Bytes} {allow allow' : Bool}
    (hx : signatureIsSingle x allow = true) (hy : signatureIsSingle y allow' = true)
    (h : x ++ r = y ++ r') : x = y ∧ r = r' :=
  Recognises.eq_of_append ((signatureIsSingle_iff).mp (signatureIsSingle_true hx))
    ((signatureIsSingle_iff).mp (signatureIsSingle_true hy)) h

/-- A sequence of complete types. -/
def IsSequence (allowDictEntry : Bool) (s : Bytes) : Prop :=
  ∃ xs : List Bytes, s = xs.flatten ∧ ∀ x ∈ xs, signatureIsSingle x allowDictEntry = true

namespace IsSequence

variable {allow : Bool} {s x : Bytes}

theorem nil : IsSequence allow [] := ⟨[], rfl, by simp⟩

theorem cons (hx : signatureIsSingle x allow = true) (hs : IsSequence allow s) :
    IsSequence allow (x ++ s) := by
  obtain ⟨xs, rfl, hxs⟩ := hs
  refine ⟨x :: xs, rfl, ?_⟩
  intro y hy
  rcases mem_cons.mp hy with rfl | hy
  · exact hx
  · exact hxs y hy

/-- The first type of a sequence and the rest. -/
theorem split (hs : IsSequence allow s) (hne : s ≠ []) :
    ∃ x r, s = x ++ r ∧ signatureIsSingle x allow = true ∧ IsSequence allow r := by
  obtain ⟨xs, rfl, hxs⟩ := hs
  cases xs with
  | nil => exact absurd rfl hne
  | cons x xs =>
    exact ⟨x, xs.flatten, rfl, hxs x (mem_cons_self ..), xs, rfl, fun y hy =>
      hxs y (mem_cons_of_mem x hy)⟩

end IsSequence

theorem signatureIsValidLoop_iff {allow : Bool} {fuel : Nat} {s : Bytes} (hfuel : s.length ≤ fuel) :
    signatureIsValidLoop allow fuel s = true ↔ IsSequence allow s := by
  induction fuel generalizing s with
  | zero =>
    have hs : s = [] := length_eq_zero_iff.mp (Nat.le_zero.mp hfuel)
    subst hs
    exact ⟨fun _ => .nil, fun _ => by rw [signatureIsValidLoop]⟩
  | succ fuel ih =>
    cases s with
    | nil => exact ⟨fun _ => .nil, fun _ => by rw [signatureIsValidLoop]⟩
    | cons c p =>
      rw [signatureIsValidLoop]
      constructor
      · intro h
        split at h
        · cases h
        · next t ht =>
          obtain ⟨x, r, hs, rfl, hx⟩ := isLocal_element 65 allow 0 0 ht
          rw [hs, drop_left] at h
          have hlen := congrArg length hs
          have hpos := length_pos_iff.mpr hx.1
          rw [length_append] at hlen
          rw [hs]
          exact .cons ((signatureIsSingle_iff).mpr hx) ((ih (by omega)).mp h)
      · intro h
        obtain ⟨x, r, hs, hx, hr⟩ := h.split (cons_ne_nil c p)
        have hfirst := ((signatureIsSingle_iff).mp hx).2 r
        have hlen := congrArg length hs
        have hpos := length_pos_iff.mpr (signatureIsSingle_ne_nil hx)
        rw [length_append] at hlen
        rw [hs]
        simp only [hfirst, drop_left]
        exact (ih (by omega)).mpr hr

theorem signatureIsValid_iff {allow : Bool} {s : Bytes} :
    signatureIsValid s allow = true ↔ IsSequence allow s ∧ s.length ≤ maximumSignatureLength := by
  rw [signatureIsValid, Bool.and_eq_true, decide_eq_true_eq, signatureIsValidLoop_iff (Nat.le_refl _)]

/-! ## Types with contents -/

section Contents

variable {c r : Bytes} {allow : Bool} {n : Nat}

/-- The elements of an array are of a single type. -/
theorem signatureIsSingle_array (h : signatureIsSingle (array :: c) allow = true) :
    signatureIsSingle c true = true := by
  refine (signatureIsSingle_iff).mpr ⟨?_, fun r => ?_⟩
  · rintro rfl
    revert h
    cases allow <;> decide
  · obtain ⟨-, hx⟩ := (signatureIsSingle_iff).mp h
    rcases signatureElementLengthInternal_eq_ok (hx r) with ⟨hb, -⟩ | ⟨p, t, hp, -, hn, ht⟩ |
      ⟨p, t, hp, -⟩ | ⟨p, t, hp, -⟩
    · exact absurd hb (by rw [cons_append, headD_cons]; decide)
    · obtain rfl := (cons.inj hp).2
      rw [Nat.succ.inj hn]
      exact signatureElementLengthInternal_mono ht (by decide) id (Nat.zero_le _) (Nat.le_refl _)
    · exact absurd (cons.inj hp).1 (by decide)
    · exact absurd (cons.inj hp).1 (by decide)

/-- What stands between the parentheses of a structure. -/
theorem signatureElementLength_struct (h : signatureElementLength (structBegin :: r) = .ok n) :
    ∃ c r', r = c ++ structEnd :: r' ∧ IsSequence false c ∧ c ≠ [] ∧ n = c.length + 2 := by
  rcases signatureElementLengthInternal_eq_ok h with ⟨hb, -⟩ | ⟨p, t, hp, -⟩ |
    ⟨p, t, hp, -, hpos, rfl, ht⟩ | ⟨p, t, hp, -⟩
  · exact absurd hb (by rw [headD_cons]; decide)
  · exact absurd (cons.inj hp).1 (by decide)
  · obtain rfl := (cons.inj hp).2
    obtain ⟨xs, r', rfl, rfl, hxs, -⟩ := structLength_eq_ok (isLocal_element 64 false 0 1) ht
    refine ⟨xs.flatten, r', rfl, ⟨xs, rfl, fun x hx => ?_⟩, length_pos_iff.mp hpos, rfl⟩
    refine (signatureIsSingle_iff).mpr ((hxs x hx).mono fun h => ?_)
    exact signatureElementLengthInternal_mono h (by decide) id (Nat.le_refl _) (Nat.zero_le _)
  · exact absurd (cons.inj hp).1 (by decide)

/-- No type starts with an empty structure. -/
theorem IsSequence.ne_emptyStruct {s : Bytes} (hs : IsSequence allow s) (r : Bytes) :
    s ≠ structBegin :: structEnd :: r := by
  rintro rfl
  obtain ⟨x, t, hsplit, hx, -⟩ := hs.split (cons_ne_nil _ _)
  have hlen := signatureElementLength_of_single hx t
  rw [← hsplit] at hlen
  obtain ⟨c, r', hr, hc, hne, -⟩ := signatureElementLength_struct hlen
  obtain ⟨y, u, rfl, hy, -⟩ := hc.split hne
  have hlen' := signatureElementLength_of_single hy (u ++ structEnd :: r')
  rw [← append_assoc, ← hr] at hlen'
  exact signatureElementLengthInternal_close (.inl rfl) r hlen'

theorem signatureIsPair_iff :
    signatureIsPair c = true ↔
      ∃ k y, c = k :: y ∧ isBasic k = true ∧ signatureIsSingle y false = true := by
  rw [signatureIsPair, Bool.and_eq_true]
  constructor
  · rintro ⟨hk, hy⟩
    cases c with
    | nil => exact absurd hk (by decide)
    | cons k y => exact ⟨k, y, rfl, hk, hy⟩
  · rintro ⟨k, y, rfl, hk, hy⟩
    exact ⟨hk, hy⟩

theorem IsSequence.of_pair (h : signatureIsPair c = true) : IsSequence false c := by
  obtain ⟨k, y, rfl, hk, hy⟩ := (signatureIsPair_iff).mp h
  have hy' : IsSequence false y := by
    have hcons := IsSequence.cons hy .nil
    rwa [append_nil] at hcons
  exact .cons (x := [k]) (signatureIsSingle_basic (.inl hk)) hy'

end Contents

end Elogind
