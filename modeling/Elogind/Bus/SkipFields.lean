/-
  Elogind.Bus.SkipFields

  Header fields with an unknown code.  The walk that skips their values goes through an array once,
  whatever its size is, and does not know the codes by which structures and dictionary entries start.
-/

import Elogind.Bus.PeekWire

namespace Elogind

open BusType Lib List Values

/-! ## The walk ends -/

section Fuel

variable {endian : Endian} {fields : Bytes} {ri ri' : Nat}

theorem messagePeekFieldText_eq_ok {validate : Bytes → Bool} {l : Nat} {s : Bytes}
    (h : messagePeekFieldText fields validate ri l = .ok (ri', s)) :
    ri < ri' ∧ ri' ≤ fields.length ∧ s.length ≤ l ∧ validate s = true := by
  unfold messagePeekFieldText at h
  split at h
  · cases h
  · next stop q hpeek =>
    obtain ⟨-, hle, hlen, -⟩ := messagePeekFields_eq_ok Nat.one_pos hpeek
    split at h
    · cases h
    · next hvalid =>
      cases h
      simp only [BusMessage.validateText, Bool.not_eq_true', Bool.not_eq_false, Bool.and_eq_true] at hvalid
      exact ⟨by omega, hlen, length_take_le _ _, hvalid.2⟩

end Fuel

/-! ## Where the walk ends -/

namespace Values

/-- The walk gets past the first value of a sequence: it reaches no structure, no array with more than
    one element and no signature that is too long. -/
def Skippable : Values → Prop
  | .nil => True
  | .leaf b _ => b.Short
  | .node k ms _ =>
    (k.type = array ∧ (types ms).length ≤ 1 ∧ Skippable ms) ∨
    (k.type = variant ∧ k.contents.length ≤ 254 ∧ Skippable ms)

end Values

section Walk

variable {endian : Endian} {A B : Bytes}

theorem skipBasic_append {b : Basic} (hb : b.Valid) (hshort : b.Short) :
    skipBasic endian (A ++ b.wire endian A.length ++ B) b.type A.length =
      .ok (A.length + (b.wire endian A.length).length) := by
  cases b with
  | num type n =>
    obtain ⟨-, ⟨w, hw, -⟩, -⟩ := hb
    obtain ⟨hstring, hpath, hsignature⟩ := ne_text_of_getSize hw
    unfold skipBasic Basic.type
    rw [if_neg hstring, if_neg hpath, if_neg hsignature, messagePeekFields_num]
    rfl
  | text type s =>
    obtain ⟨hs, hlen, ⟨rfl, hvalid⟩ | ⟨rfl, hvalid⟩ | ⟨rfl, hvalid⟩⟩ := hb
    · have hpeek := messagePeekFieldString_append (A := A) (B := B) endian utf8IsValid hs hlen
      rw [if_pos hvalid] at hpeek
      exact congrArg (Except.map Prod.fst) hpeek
    · have hpeek := messagePeekFieldString_append (A := A) (B := B) endian objectPathIsValid hs hlen
      rw [if_pos hvalid] at hpeek
      exact congrArg (Except.map Prod.fst) hpeek
    · have hpeek := messagePeekFieldSignature_append (A := A) (B := B) endian hs (hshort s rfl) hvalid
      have hwire : (Basic.text signature s).wire endian A.length = UInt8.ofNat s.length :: s ++ [0] := by
        rw [Basic.wire, show (Basic.text signature s).align = 1 from rfl, padding_one]
        rfl
      rw [hwire]
      exact congrArg (Except.map Prod.fst) hpeek

theorem skipBasic_long {b : Basic} (hb : b.Valid) (hlong : ¬ b.Short) :
    skipBasic endian (A ++ b.wire endian A.length ++ B) b.type A.length = .error Errno.EBADMSG := by
  unfold Basic.Short at hlong
  push Not at hlong
  obtain ⟨s, rfl, hlen⟩ := hlong
  have hpeek := messagePeekFieldSignature_long (A := A) (B := B) endian hb.1 hlen
  have hwire : (Basic.text signature s).wire endian A.length = UInt8.ofNat s.length :: s ++ [0] := by
    rw [Basic.wire, show (Basic.text signature s).align = 1 from rfl, padding_one]
    rfl
  rw [hwire]
  exact congrArg (Except.map Prod.fst) hpeek

/-- The walk at the end of a signature. -/
theorem skipFields_nil {fields : Bytes} {fuel : Nat} (hfuel : 0 < fuel) (stop : Option Nat) (ri : Nat) :
    skipFields endian fields fuel stop ri [] = .ok ri := by
  obtain ⟨fuel, rfl⟩ := Nat.exists_eq_succ_of_ne_zero (Nat.ne_of_gt hfuel)
  rw [skipFields]
  split <;> rfl

theorem skipArraySize_append {k : Kind} {size : Nat} (hk : k.type = array)
    (hcontents : signatureIsSingle k.contents true = true) (hsize : size ≤ busArrayMaxSize) :
    skipArraySize endian (A ++ k.opening endian A.length size ++ B) (k.contents.headD 0) A.length =
      .ok (A.length + k.openingLength A.length, size) := by
  obtain ⟨a, ha⟩ := getAlignment_of_single hcontents
  have hopening : k.opening endian A.length size = padding A.length 4 ++ endian.octets 4 size ++
      padding (A.length + (padding A.length 4 ++ endian.octets 4 size).length) a := by
    rw [Kind.opening, if_pos hk, ha]
    rfl
  have hnum := messagePeekFieldUint32_append (A := A)
    (B := padding (A.length + (padding A.length 4 ++ endian.octets 4 size).length) a ++ B) endian
    (n := size) (by unfold busArrayMaxSize at hsize; omega)
  have hpad := messagePeekFields_append (A := A ++ (padding A.length 4 ++ endian.octets 4 size)) (B := B)
    (getAlignment_pos ha) []
  rw [append_nil, length_nil, length_append] at hpad
  rw [← Kind.length_opening endian A.length k size, hopening]
  simp only [append_assoc] at hnum hpad ⊢
  unfold skipArraySize
  rw [ha]
  rw [hnum]
  dsimp only
  rw [if_neg (by omega), hpad]
  simp only [length_append, Nat.add_assoc]

/-- In an array the walk goes on with the type of the elements, once. -/
theorem skipFields_array {k : Kind} {size fuel : Nat} {stop : Option Nat} (hk : k.type = array)
    (hcontents : signatureIsSingle k.contents true = true) (hsize : size ≤ busArrayMaxSize)
    (hfuel : 0 < fuel) (hstop : stop.any (· ≤ A.length) = false) :
    skipFields endian (A ++ k.opening endian A.length size ++ B) (fuel + 1) stop A.length
        (array :: k.contents) =
      skipFields endian (A ++ k.opening endian A.length size ++ B) fuel
        (some (A.length + k.openingLength A.length + size)) (A.length + k.openingLength A.length)
        k.contents := by
  have hlen := signatureElementLength_of_single hcontents []
  rw [append_nil] at hlen
  rw [skipFields, if_neg (by rw [hstop]; decide), headD_cons, tail_cons]
  rw [if_neg (by decide), if_neg (by decide), if_pos rfl, hlen]
  dsimp only
  rw [take_length, skipArraySize_append hk hcontents hsize]
  dsimp only
  split
  · next e he => exact he.symm
  · next r hr =>
    have hdrop : (array :: k.contents).drop (1 + k.contents.length) = [] :=
      drop_eq_nil_of_le (by rw [length_cons]; omega)
    rw [hdrop, skipFields_nil hfuel, hr]

/-- In a variant the walk goes on with its signature. -/
theorem skipFields_variant {k : Kind} {fuel : Nat} {stop : Option Nat} (size : Nat) (hk : k.type = variant)
    (hcontents : signatureIsSingle k.contents false = true) (hlen : k.contents.length ≤ 254)
    (hfuel : 0 < fuel) (hstop : stop.any (· ≤ A.length) = false) :
    skipFields endian (A ++ k.opening endian A.length size ++ B) (fuel + 1) stop A.length [variant] =
      skipFields endian (A ++ k.opening endian A.length size ++ B) fuel none
        (A.length + k.openingLength A.length) k.contents := by
  have hvalid : signatureIsValid k.contents true = true := by
    have hseq := IsSequence.cons (signatureIsSingle_true hcontents) .nil
    rw [append_nil] at hseq
    exact (signatureIsValid_iff).mpr ⟨hseq, by unfold maximumSignatureLength; omega⟩
  have hopening : k.opening endian A.length size = UInt8.ofNat k.contents.length :: k.contents ++ [0] := by
    rw [Kind.opening, if_neg (by rw [hk]; decide), if_pos hk]
  have hpeek := messagePeekFieldSignature_append (A := A) (B := B) endian
    (signatureIsSingle_ne_zero hcontents) hlen hvalid
  rw [← hopening, Kind.length_opening] at hpeek
  rw [skipFields, if_neg (by rw [hstop]; decide), headD_cons, tail_cons]
  rw [if_neg (by decide), if_neg (by decide), if_neg (by decide), if_pos rfl, hpeek]
  dsimp only
  split
  · next e he => exact he.symm
  · next r hr => rw [skipFields_nil hfuel, hr]

/-- A signature that is too long stops the walk. -/
theorem skipFields_variant_long {k : Kind} {fuel : Nat} {stop : Option Nat} (size : Nat)
    (hk : k.type = variant) (hcontents : signatureIsSingle k.contents false = true)
    (hlen : ¬ k.contents.length ≤ 254) (hstop : stop.any (· ≤ A.length) = false) :
    skipFields endian (A ++ k.opening endian A.length size ++ B) (fuel + 1) stop A.length [variant] =
      .error Errno.EBADMSG := by
  have hopening : k.opening endian A.length size = UInt8.ofNat k.contents.length :: k.contents ++ [0] := by
    rw [Kind.opening, if_neg (by rw [hk]; decide), if_pos hk]
  rw [skipFields, if_neg (by rw [hstop]; decide), headD_cons, tail_cons]
  rw [if_neg (by decide), if_neg (by decide), if_neg (by decide), if_pos rfl, hopening,
    messagePeekFieldSignature_long endian (signatureIsSingle_ne_zero hcontents) (by omega)]

/-- So does a structure or a dictionary entry. -/
theorem skipFields_struct {c : UInt8} {s fields : Bytes} {fuel ri : Nat} {stop : Option Nat}
    (hc : c = structBegin ∨ c = dictEntryBegin) (hstop : stop.any (· ≤ ri) = false) :
    skipFields endian fields (fuel + 1) stop ri (c :: s) = .error Errno.EBADMSG := by
  rw [skipFields, if_neg (by rw [hstop]; decide), headD_cons]
  rcases hc with rfl | rfl <;>
    rw [if_neg (by decide), if_neg (by decide), if_neg (by decide), if_neg (by decide), if_neg (by decide)]

/-- The walk over the first value of a sequence gets to its end if it can skip the value, and not as
    far otherwise. -/
def WalksFirst (endian : Endian) (vs : Values) : Prop :=
  ∀ (A B : Bytes) (fuel : Nat) (stop : Option Nat),
    (Values.wire endian A.length vs.first).length ≤ busArrayMaxSize →
    2 * (Values.wire endian A.length vs.first).length + 2 ≤ fuel → stop.any (· ≤ A.length) = false →
    (Values.Skippable vs →
      skipFields endian (A ++ Values.wire endian A.length vs.first ++ B) fuel stop A.length
        ((Values.types vs).headD []) = .ok (A.length + (Values.wire endian A.length vs.first).length)) ∧
    (¬ Values.Skippable vs → ∀ r,
      skipFields endian (A ++ Values.wire endian A.length vs.first ++ B) fuel stop A.length
        ((Values.types vs).headD []) = .ok r →
      r < A.length + (Values.wire endian A.length vs.first).length)

theorem walksFirst_leaf {b : Basic} {vs : Values} (hb : b.Valid) : WalksFirst endian (.leaf b vs) := by
  intro A B fuel stop _ hfuel hstop
  obtain ⟨fuel, rfl⟩ : ∃ f, fuel = f + 1 := ⟨fuel - 1, by omega⟩
  have hbasic : isBasic b.type = true := by
    cases b with
    | num type n => exact hb.1
    | text type s => obtain ⟨-, -, ⟨rfl, -⟩ | ⟨rfl, -⟩ | ⟨rfl, -⟩⟩ := hb <;> rfl
  have hzero : b.type ≠ 0 := by
    intro h
    rw [h] at hbasic
    exact absurd hbasic (by decide)
  simp only [Forest.first, wire, append_nil, types, headD_cons,
    Skippable] at hfuel ⊢
  have hround : ∀ r, skipBasic endian (A ++ b.wire endian A.length ++ B) b.type A.length = r →
      skipFields endian (A ++ b.wire endian A.length ++ B) (fuel + 1) stop A.length [b.type] = r := by
    rintro r rfl
    rw [skipFields, if_neg (by rw [hstop]; decide), headD_cons]
    rw [if_neg hzero, if_pos hbasic]
    cases hb : skipBasic endian (A ++ b.wire endian A.length ++ B) b.type A.length with
    | error e => rfl
    | ok r =>
      exact skipFields_nil (by omega) stop r
  refine ⟨fun hshort => hround _ (skipBasic_append hb hshort), fun hlong r hr => ?_⟩
  rw [hround _ (skipBasic_long hb hlong)] at hr
  cases hr

section Node

variable {k : Kind} {ms vs : Values}

/-- The bytes of a container: what opens it, its first member, the other members. -/
theorem wire_node_first (endian : Endian) (k : Kind) (ms vs : Values) (off : Nat) :
    Values.wire endian off (Forest.node k ms vs).first =
      k.opening endian off (Values.wire endian (off + k.openingLength off) ms).length ++
        (Values.wire endian (off + k.openingLength off) ms.first ++
          Values.wire endian (off + k.openingLength off +
            (Values.wire endian (off + k.openingLength off) ms.first).length) ms.rest) := by
  rw [← wire_split]
  simp only [Forest.first, wire, append_nil]

/-- The walk over the first member of a container. -/
theorem WalksFirst.member (hms : WalksFirst endian ms) (A B : Bytes) (fuel : Nat) (stop : Option Nat)
    (hsize : (Values.wire endian A.length (Forest.node k ms vs).first).length ≤ busArrayMaxSize)
    (hfuel : 2 * (Values.wire endian (A.length + k.openingLength A.length) ms.first).length + 2 ≤ fuel)
    (hstop : stop.any (· ≤ A.length + k.openingLength A.length) = false) :
    (Values.Skippable ms →
      skipFields endian (A ++ Values.wire endian A.length (Forest.node k ms vs).first ++ B) fuel stop
        (A.length + k.openingLength A.length) ((Values.types ms).headD []) =
      .ok (A.length + k.openingLength A.length +
        (Values.wire endian (A.length + k.openingLength A.length) ms.first).length)) ∧
    (¬ Values.Skippable ms → ∀ r,
      skipFields endian (A ++ Values.wire endian A.length (Forest.node k ms vs).first ++ B) fuel stop
        (A.length + k.openingLength A.length) ((Values.types ms).headD []) = .ok r →
      r < A.length + k.openingLength A.length +
        (Values.wire endian (A.length + k.openingLength A.length) ms.first).length) := by
  have hlen : (A ++ k.opening endian A.length
      (wire endian (A.length + k.openingLength A.length) ms).length).length =
        A.length + k.openingLength A.length := by
    rw [length_append, Kind.length_opening]
  have hwalk := hms (A ++ k.opening endian A.length
      (wire endian (A.length + k.openingLength A.length) ms).length)
    (wire endian (A.length + k.openingLength A.length +
      (wire endian (A.length + k.openingLength A.length) ms.first).length) ms.rest ++ B) fuel stop
  rw [hlen] at hwalk
  rw [wire_node_first, length_append, length_append] at hsize
  rw [wire_node_first]
  simp only [append_assoc] at hwalk ⊢
  exact hwalk (by omega) hfuel hstop

theorem walksFirst_array (hk : k.type = array) (hcontents : signatureIsSingle k.contents true = true)
    (htypes : ∀ x ∈ Values.types ms, x = k.contents) (hwell : Values.WellTyped ms)
    (hms : ms ≠ .nil → WalksFirst endian ms) : WalksFirst endian (.node k ms vs) := by
  intro A B fuel stop hsize hfuel hstop
  obtain ⟨fuel, rfl⟩ : ∃ f, fuel = f + 1 := ⟨fuel - 1, by omega⟩
  have hopening := Kind.openingLength_pos A.length (.inl hk)
  have hwire := congrArg length (wire_node_first endian k ms vs A.length)
  have hinner := congrArg length
    (wire_split endian (A.length + k.openingLength A.length) ms)
  rw [length_append, length_append, Kind.length_opening] at hwire
  rw [length_append] at hinner
  have hround : skipFields endian (A ++ wire endian A.length (Forest.node k ms vs).first ++ B)
      (fuel + 1) stop A.length ((types (.node k ms vs)).headD []) =
    skipFields endian (A ++ wire endian A.length (Forest.node k ms vs).first ++ B) fuel
      (some (A.length + k.openingLength A.length +
        (wire endian (A.length + k.openingLength A.length) ms).length))
      (A.length + k.openingLength A.length) k.contents := by
    have hsig : (types (.node k ms vs)).headD [] = array :: k.contents := by
      rw [types, headD_cons, Kind.signature, if_pos hk]
    rw [hsig, wire_node_first]
    simp only [← append_assoc]
    rw [append_assoc _ _ B, append_assoc _ _ (_ ++ B)]
    exact skipFields_array hk hcontents (by omega) (by omega) hstop
  have hskippable : Skippable (.node k ms vs) ↔ (types ms).length ≤ 1 ∧ Skippable ms := by
    rw [Skippable, hk]
    simp +decide
  rw [hround, hskippable]
  by_cases hnil : ms = .nil
  · -- the size of an empty array is zero, so that the walk stops at once
    subst hnil
    have hstart : skipFields endian (A ++ wire endian A.length (Forest.node k .nil vs).first ++ B) fuel
        (some (A.length + k.openingLength A.length + 0)) (A.length + k.openingLength A.length) k.contents =
        .ok (A.length + k.openingLength A.length) := by
      obtain ⟨fuel, rfl⟩ : ∃ f, fuel = f + 1 := ⟨fuel - 1, by omega⟩
      rw [skipFields, if_pos (by simp)]
    refine ⟨fun _ => ?_, fun hnot => absurd ⟨Nat.zero_le _, trivial⟩ hnot⟩
    rw [hwire]
    exact hstart
  · -- one round skips the first element, and the size of the array decides on the others
    have hhead : (types ms).headD [] = k.contents := by
      refine htypes _ ?_
      rw [types_ne_nil hnil]
      exact mem_cons_self ..
    have hpos := length_wire_pos_of_elements endian (A.length + k.openingLength A.length)
      hwell hnil hcontents htypes
    obtain ⟨hskip, hstuck⟩ := (hms hnil).member A B fuel
      (some (A.length + k.openingLength A.length +
        (wire endian (A.length + k.openingLength A.length) ms).length))
      hsize (by omega) (decide_eq_false (by omega))
    rw [hhead] at hskip hstuck
    have hrest : types ms.rest = [] ↔ (types ms).length ≤ 1 := by
      rw [types_ne_nil hnil, length_cons, ← length_eq_zero_iff]
      omega
    constructor
    · rintro ⟨hone, hms⟩
      have hnone := eq_nil_of_types (hrest.mpr hone)
      rw [hskip hms, hwire, hnone]
      simp only [wire, length_nil, Nat.add_zero, Nat.add_assoc]
    · intro hnot r hr
      by_cases hms : Skippable ms
      · have hmore : ms.rest ≠ .nil := fun h => hnot ⟨hrest.mp (by rw [h]; rfl), hms⟩
        have hposrest := length_wire_pos_of_elements endian
          (A.length + k.openingLength A.length +
            (wire endian (A.length + k.openingLength A.length) ms.first).length)
          hwell.rest hmore hcontents (fun x hx => htypes x (by
            rw [types_ne_nil hnil]
            exact mem_cons_of_mem _ hx))
        rw [hskip hms] at hr
        cases hr
        omega
      · have hlt := hstuck hms r hr
        omega

theorem walksFirst_variant (hk : k.type = variant) (hcontents : signatureIsSingle k.contents false = true)
    (htypes : Values.types ms = [k.contents]) (hms : WalksFirst endian ms) :
    WalksFirst endian (.node k ms vs) := by
  intro A B fuel stop hsize hfuel hstop
  obtain ⟨fuel, rfl⟩ : ∃ f, fuel = f + 1 := ⟨fuel - 1, by omega⟩
  have hopening := Kind.openingLength_pos A.length (.inr hk)
  have hwire := congrArg length (wire_node_first endian k ms vs A.length)
  rw [length_append, length_append, Kind.length_opening] at hwire
  have hnone : ms.rest = .nil := eq_nil_of_types (by rw [types_rest, htypes]; rfl)
  have hhead : (types ms).headD [] = k.contents := by rw [htypes]; rfl
  have hsig : (types (.node k ms vs)).headD [] = [variant] := by
    rw [types, headD_cons, Kind.signature, if_neg (by rw [hk]; decide), if_pos hk]
  have hskippable : Skippable (.node k ms vs) ↔ k.contents.length ≤ 254 ∧ Skippable ms := by
    rw [Skippable, hk]
    simp +decide
  have hfields : A ++ wire endian A.length (Forest.node k ms vs).first ++ B =
      A ++ k.opening endian A.length (wire endian (A.length + k.openingLength A.length) ms).length ++
        (wire endian (A.length + k.openingLength A.length) ms ++ B) := by
    simp only [Forest.first, wire, append_nil, append_assoc]
  rw [hskippable, hsig]
  by_cases hlen : k.contents.length ≤ 254
  · obtain ⟨hskip, hstuck⟩ := hms.member A B fuel none hsize (by omega) rfl
    rw [hhead] at hskip hstuck
    rw [hfields, skipFields_variant _ hk hcontents hlen (by omega) hstop, ← hfields]
    constructor
    · rintro ⟨-, hms⟩
      rw [hskip hms, hwire, hnone]
      simp only [wire, length_nil, Nat.add_zero, Nat.add_assoc]
    · intro hnot r hr
      have hlt := hstuck (fun hms => hnot ⟨hlen, hms⟩) r hr
      omega
  · refine ⟨fun h => absurd h.1 hlen, fun _ r hr => ?_⟩
    rw [hfields, skipFields_variant_long _ hk hcontents hlen hstop] at hr
    cases hr

theorem walksFirst_struct (hk : k.type = struct ∨ k.type = dictEntry) : WalksFirst endian (.node k ms vs) := by
  intro A B fuel stop _ hfuel hstop
  obtain ⟨fuel, rfl⟩ : ∃ f, fuel = f + 1 := ⟨fuel - 1, by omega⟩
  have hnot : ¬ Skippable (.node k ms vs) := by
    rw [Skippable]
    rcases hk with h | h <;> rw [h] <;> simp +decide
  refine ⟨fun h => absurd h hnot, fun _ r hr => ?_⟩
  have hsig : ∃ c s, (types (.node k ms vs)).headD [] = c :: s ∧
      (c = structBegin ∨ c = dictEntryBegin) := by
    rw [types, headD_cons, Kind.signature]
    rcases hk with h | h <;> rw [h]
    · exact ⟨_, _, rfl, .inl rfl⟩
    · exact ⟨_, _, rfl, .inr rfl⟩
  obtain ⟨c, s, hs, hc⟩ := hsig
  rw [hs, skipFields_struct hc hstop] at hr
  cases hr

end Node

/-- What the walk does over the first value of a sequence. -/
theorem walksFirst (endian : Endian) {vs : Values} (hvs : Values.WellTyped vs) (hne : vs ≠ .nil) : WalksFirst endian vs := by
  induction vs with
  | nil => exact absurd rfl hne
  | leaf b vs _ => exact walksFirst_leaf hvs.1
  | node k ms vs ihms _ =>
    obtain ⟨hholds, hms, -⟩ := hvs
    rcases hholds with ⟨hk, hc, htypes⟩ | ⟨hk, hc, htypes⟩ | ⟨hk, -, -⟩ | ⟨hk, -, -⟩
    · exact walksFirst_array hk hc htypes hms (ihms hms)
    · refine walksFirst_variant hk hc htypes (ihms hms ?_)
      rintro rfl
      cases htypes
    · exact walksFirst_struct (.inl hk)
    · exact walksFirst_struct (.inr hk)

end Walk

end Elogind
