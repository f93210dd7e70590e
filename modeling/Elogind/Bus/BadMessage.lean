/-
  Elogind.Bus.BadMessage

  A message that cannot be parsed is refused with the same error wherever it is wrong
  (bus-message.c).
-/

import Elogind.Bus.SkipFields

namespace Elogind

open BusType Lib List

/-- A part of the parser whose only error is `EBADMSG`. -/
def OnlyBadMessage {α : Type} (r : Result α) : Prop := ∀ e, r = .error e → e = Errno.EBADMSG

namespace OnlyBadMessage

variable {α β : Type}

theorem bad : OnlyBadMessage (.error Errno.EBADMSG : Result α) := by
  intro e h
  cases h
  rfl

theorem ok (a : α) : OnlyBadMessage (.ok a : Result α) := by
  intro e h
  cases h

theorem map {r : Result α} (h : OnlyBadMessage r) (f : α → β) : OnlyBadMessage (r.map f) := by
  cases r with
  | error e => exact h e rfl ▸ bad
  | ok a => exact ok (f a)

end OnlyBadMessage

/-! ## Values in the header -/

section Peek

variable (endian : Endian) (fields : Bytes) (ri : Nat)

theorem messagePeekFields_bad (align nbytes : Nat) : OnlyBadMessage (messagePeekFields fields ri align nbytes) := by
  unfold messagePeekFields
  dsimp only
  split
  · exact .bad
  split
  · exact .bad
  split
  · exact .bad
  · exact .ok _

theorem messagePeekFieldUint32_bad : OnlyBadMessage (messagePeekFieldUint32 endian fields ri) := by
  have hpeek := messagePeekFields_bad fields ri 4 4
  unfold messagePeekFieldUint32
  split
  · next e h => exact hpeek e h ▸ .bad
  · exact .ok _

theorem messagePeekFieldText_bad (validate : Bytes → Bool) (l : Nat) :
    OnlyBadMessage (messagePeekFieldText fields validate ri l) := by
  have hpeek := messagePeekFields_bad fields ri 1 (l + 1)
  unfold messagePeekFieldText
  split
  · next e h => exact hpeek e h ▸ .bad
  split
  · exact .bad
  · exact .ok _

theorem messagePeekFieldString_bad (validate : Bytes → Bool) :
    OnlyBadMessage (messagePeekFieldString endian fields validate ri) := by
  have hpeek := messagePeekFieldUint32_bad endian fields ri
  unfold messagePeekFieldString
  split
  · next e h => exact hpeek e h ▸ .bad
  split
  · exact .bad
  · exact messagePeekFieldText_bad fields _ validate _

theorem messagePeekFieldSignature_bad : OnlyBadMessage (messagePeekFieldSignature endian fields ri) := by
  have hpeek := messagePeekFields_bad fields ri 1 1
  unfold messagePeekFieldSignature
  split
  · next e h => exact hpeek e h ▸ .bad
  dsimp only
  split
  · exact .bad
  · exact messagePeekFieldText_bad fields _ _ _

/-- A signature that was read is one. -/
theorem isSequence_of_messagePeekFieldSignature {endian : Endian} {fields : Bytes} {ri ri' : Nat} {s : Bytes}
    (h : messagePeekFieldSignature endian fields ri = .ok (ri', s)) : IsSequence true s := by
  unfold messagePeekFieldSignature at h
  split at h
  · cases h
  · dsimp only at h
    split at h
    · cases h
    · obtain ⟨-, -, -, hvalid⟩ := messagePeekFieldText_eq_ok h
      exact ((signatureIsValid_iff).mp hvalid).1

theorem skipBasic_bad (t : UInt8) : OnlyBadMessage (skipBasic endian fields t ri) := by
  unfold skipBasic
  split
  · exact (messagePeekFieldString_bad endian fields ri _).map _
  split
  · exact (messagePeekFieldString_bad endian fields ri _).map _
  split
  · exact (messagePeekFieldSignature_bad endian fields ri).map _
  · exact (messagePeekFields_bad fields ri _ _).map _

/-- The type of the elements has an alignment. -/
theorem skipArraySize_bad {x : Bytes} (hx : signatureIsSingle x true = true) :
    OnlyBadMessage (skipArraySize endian fields (x.headD 0) ri) := by
  obtain ⟨a, ha⟩ := getAlignment_of_single hx
  have hpeek := messagePeekFieldUint32_bad endian fields ri
  unfold skipArraySize
  rw [ha]
  dsimp only
  split
  · next e h => exact hpeek e h ▸ .bad
  · next ri' nas _ =>
    have hpad := messagePeekFields_bad fields ri' a 0
    split
    · exact .bad
    split
    · next e h => exact hpad e h ▸ .bad
    · exact .ok _

end Peek

/-! ## The walk -/

/-- The code at the start of a type, if it is not that of an array. -/
theorem signatureIsSingle_eq_singleton {x : Bytes} (hx : signatureIsSingle x true = true)
    (hc : isBasic (x.headD 0) = true ∨ x.headD 0 = variant) : x = [x.headD 0] := by
  obtain ⟨c, r, rfl⟩ := exists_cons_of_ne_nil (signatureIsSingle_ne_nil hx)
  have hone : signatureIsSingle [c] true = true := signatureIsSingle_basic hc
  exact (eq_of_single_append (r := []) hx hone (append_nil _)).1

theorem skipFields_bad (endian : Endian) (fields : Bytes) (fuel : Nat) {stop : Option Nat} {ri : Nat} {s : Bytes}
    (hs : IsSequence true s) : OnlyBadMessage (skipFields endian fields fuel stop ri s) := by
  induction fuel generalizing stop ri s with
  | zero => exact .bad
  | succ fuel ih =>
    rw [skipFields]
    split
    · exact .ok _
    by_cases hend : s.headD 0 = 0
    · rw [if_pos hend]
      exact .ok _
    rw [if_neg hend]
    have hne : s ≠ [] := by
      rintro rfl
      exact hend rfl
    obtain ⟨x, r, rfl, hx, hr⟩ := hs.split hne
    have hhead : (x ++ r).headD 0 = x.headD 0 := by
      obtain ⟨c, y, rfl⟩ := exists_cons_of_ne_nil (signatureIsSingle_ne_nil hx)
      rfl
    rw [hhead]
    -- after a type of one code the rest of the sequence is walked
    have htail : (isBasic (x.headD 0) = true ∨ x.headD 0 = variant) → (x ++ r).tail = r := by
      intro hc
      rw [signatureIsSingle_eq_singleton hx hc]
      rfl
    by_cases hbasic : isBasic (x.headD 0) = true
    · rw [if_pos hbasic, htail (.inl hbasic)]
      have hskip := skipBasic_bad endian fields ri (x.headD 0)
      split
      · next e h => exact hskip e h ▸ .bad
      · exact ih hr
    rw [if_neg hbasic]
    by_cases harray : x.headD 0 = array
    · rw [if_pos harray]
      obtain ⟨c, y, rfl⟩ := exists_cons_of_ne_nil (signatureIsSingle_ne_nil hx)
      subst harray
      have hy := signatureIsSingle_array hx
      rw [cons_append, tail_cons, signatureElementLength_of_single hy r]
      dsimp only
      have hskip := skipArraySize_bad endian fields ri hy
      rw [take_left]
      split
      · next e h => exact hskip e h ▸ .bad
      · next ri' nas _ =>
        have hinner : OnlyBadMessage (skipFields endian fields fuel (some (ri' + nas)) ri' y) :=
          ih (append_nil y ▸ .cons hy .nil)
        split
        · next e h => exact hinner e h ▸ .bad
        · have hdrop : (array :: (y ++ r)).drop (1 + y.length) = r := by
            rw [Nat.add_comm, drop_succ_cons, drop_left]
          rw [hdrop]
          exact ih hr
    rw [if_neg harray]
    by_cases hvariant : x.headD 0 = variant
    · rw [if_pos hvariant, htail (.inr hvariant)]
      have hpeek := messagePeekFieldSignature_bad endian fields ri
      split
      · next e h => exact hpeek e h ▸ .bad
      · next ri' sig hsig =>
        have hinner : OnlyBadMessage (skipFields endian fields fuel none ri' sig) :=
          ih (isSequence_of_messagePeekFieldSignature hsig)
        split
        · next e h => exact hinner e h ▸ .bad
        · exact ih hr
    rw [if_neg hvariant]
    by_cases hstruct : x.headD 0 = struct ∨ x.headD 0 = dictEntry
    · -- no signature has these codes
      have hlen := signatureElementLength_of_single hx []
      rw [append_nil] at hlen
      rcases signatureElementLengthInternal_eq_ok hlen with ⟨hb, -⟩ | ⟨p, t, rfl, -⟩ | ⟨p, t, rfl, -⟩ |
        ⟨p, t, rfl, -⟩
      · exact absurd hb (by rcases hstruct with h | h <;> rw [h] <;> decide)
      all_goals exact absurd hstruct (by rw [headD_cons]; decide)
    rw [if_neg hstruct]
    exact .bad

/-! ## The fields -/

namespace FieldsState

variable (st : FieldsState) (fields : Bytes) (ri : Nat)

theorem parseText_bad (f : TextField) (s : Bytes) : OnlyBadMessage (st.parseText fields f ri s) := by
  have hpeek := messagePeekFieldString_bad st.m.endian fields ri f.validate
  unfold parseText
  split
  · exact .bad
  split
  · exact .bad
  split
  · next e h => exact hpeek e h ▸ .bad
  · exact .ok _

theorem parseOther_bad (code : UInt8) {s : Bytes} (hs : IsSequence true s) :
    OnlyBadMessage (st.parseOther fields code ri s) := by
  have hnum := messagePeekFieldUint32_bad st.m.endian fields ri
  unfold parseOther
  by_cases h8 : code = HeaderField.signature
  · rw [if_pos h8]
    have hpeek := messagePeekFieldSignature_bad st.m.endian fields ri
    split
    · exact .bad
    split
    · exact .bad
    split
    · next e h => exact hpeek e h ▸ .bad
    · exact .ok _
  rw [if_neg h8]
  by_cases h5 : code = HeaderField.replySerial
  · rw [if_pos h5]
    split
    · exact .bad
    split
    · exact .bad
    split
    · next e h => exact hnum e h ▸ .bad
    split
    · exact .bad
    · exact .ok _
  rw [if_neg h5]
  split
  · split
    · exact .bad
    split
    · exact .bad
    split
    · exact .bad
    · exact .ok _
  · have hskip : OnlyBadMessage (messageSkipFields st.m.endian fields ri s) := skipFields_bad _ _ _ hs
    split
    · next e h => exact hskip e h ▸ .bad
    · exact .ok _

theorem parseRound_bad : OnlyBadMessage (st.parseRound fields ri) := by
  have hcode := messagePeekFields_bad fields ri 8 1
  unfold parseRound
  split
  · next e h => exact hcode e h ▸ .bad
  · next ri' u8 _ =>
    have hpeek := messagePeekFieldSignature_bad st.m.endian fields ri'
    split
    · next e h => exact hpeek e h ▸ .bad
    · next hsig =>
      unfold parseField
      split
      · exact .bad
      split
      · exact st.parseText_bad fields _ _ _
      · exact st.parseOther_bad fields _ _ (isSequence_of_messagePeekFieldSignature hsig)

theorem parseLoop_bad (fuel : Nat) : OnlyBadMessage (parseLoop fields fuel st ri) := by
  induction fuel generalizing st ri with
  | zero => exact .bad
  | succ fuel ih =>
    rw [parseLoop]
    split
    · exact .ok _
    have hround := st.parseRound_bad fields ri
    split
    · next e h => exact hround e h ▸ .bad
    · exact ih _ _

end FieldsState

namespace BusMessage

theorem finishFields_bad (st : FieldsState) : OnlyBadMessage (finishFields st) := by
  unfold finishFields
  split
  · exact .bad
  split
  · exact .bad
  split
  · exact .bad
  · exact .ok _

theorem fromHeader_bad (buffer : Bytes) (fds : List Int) : OnlyBadMessage (fromHeader buffer fds) := by
  unfold fromHeader
  dsimp only
  generalize (if buffer.getD 0 0 = Endian.big.code then Endian.big else Endian.little) = endian
  split
  · exact .bad
  split
  · exact .bad
  split
  · exact .bad
  split
  · exact .bad
  split
  · exact .bad
  split
  · exact .bad
  · exact .ok _

/-- A message is taken, or it is bad. -/
theorem fromMalloc_bad (buffer : Bytes) (fds : List Int) : OnlyBadMessage (fromMalloc buffer fds) := by
  have hheader := fromHeader_bad buffer fds
  unfold fromMalloc
  split
  · next e h => exact hheader e h ▸ .bad
  · next m _ =>
    dsimp only
    unfold parseFields
    split
    · next e h => exact FieldsState.parseLoop_bad _ _ _ _ e h ▸ .bad
    · exact finishFields_bad _

end BusMessage

/-! ## What the parser leaves alone -/

/-- The message before its fields are parsed. -/
theorem fromHeader_eq_ok {buffer : Bytes} {fds : List Int} {m : BusMessage}
    (h : BusMessage.fromHeader buffer fds = .ok m) :
    m.fds = fds ∧ m.rindex = 0 ∧ m.containers = [] ∧ m.rootContainer = ⟨0, [], 0, none, 0⟩ := by
  unfold BusMessage.fromHeader at h
  dsimp only at h
  generalize (if buffer.getD 0 0 = Endian.big.code then Endian.big else Endian.little) = endian at h
  split at h
  · cases h
  split at h
  · cases h
  split at h
  · cases h
  split at h
  · cases h
  split at h
  · cases h
  split at h
  · cases h
  · cases h
    exact ⟨rfl, rfl, rfl, rfl⟩

section Invariant

variable {P : BusMessage → Prop}

/-- What holds whatever text, signature or cookie is set holds after a field. -/
theorem parseRound_invariant (hset : ∀ m t f, P m → P (TextField.set m t f))
    (hsignature : ∀ m t, P m → P { m with rootContainer := { m.rootContainer with signature := t } })
    (hreply : ∀ m n, P m → P { m with replyCookie := n })
    {st st' : FieldsState} {fields : Bytes} {ri ri' : Nat} (hst : P st.m)
    (h : st.parseRound fields ri = .ok (ri', st')) : P st'.m := by
  unfold FieldsState.parseRound at h
  split at h
  · cases h
  split at h
  · cases h
  unfold FieldsState.parseField at h
  split at h
  · cases h
  split at h
  · unfold FieldsState.parseText at h
    split at h
    · cases h
    split at h
    · cases h
    split at h
    · cases h
    · cases h
      exact hset _ _ _ hst
  unfold FieldsState.parseOther at h
  dsimp only at h
  split at h
  · split at h
    · cases h
    split at h
    · cases h
    split at h
    · cases h
    · cases h
      exact hsignature _ _ hst
  split at h
  · split at h
    · cases h
    split at h
    · cases h
    split at h
    · cases h
    split at h
    · cases h
    · cases h
      exact hreply _ _ hst
  split at h
  · split at h
    · cases h
    split at h
    · cases h
    split at h
    · cases h
    · cases h
      exact hst
  split at h
  · cases h
  · cases h
    exact hst

theorem parseLoop_invariant (hset : ∀ m t f, P m → P (TextField.set m t f))
    (hsignature : ∀ m t, P m → P { m with rootContainer := { m.rootContainer with signature := t } })
    (hreply : ∀ m n, P m → P { m with replyCookie := n })
    {fields : Bytes} {fuel : Nat} {st st' : FieldsState} {ri : Nat} (hst : P st.m)
    (h : FieldsState.parseLoop fields fuel st ri = .ok st') : P st'.m := by
  induction fuel generalizing st ri with
  | zero => cases h
  | succ fuel ih =>
    rw [FieldsState.parseLoop] at h
    split at h
    · cases h
      exact hst
    split at h
    · cases h
    · next hround => exact ih (parseRound_invariant hset hsignature hreply hst hround) h

/-- A message that came in: its header, its fields, and the error message that is read from it. -/
theorem fromMalloc_invariant {Q : BusMessage → Prop} (hset : ∀ m t f, P m → P (TextField.set m t f))
    (hsignature : ∀ m t, P m → P { m with rootContainer := { m.rootContainer with signature := t } })
    (hreply : ∀ m n, P m → P { m with replyCookie := n })
    (herror : ∀ m, P m → Q m.readErrorMessage) {buffer : Bytes} {fds : List Int} {t : BusMessage}
    (hheader : ∀ m, BusMessage.fromHeader buffer fds = .ok m →
      ∀ parts, P { m with parts := parts, userBodySize := m.bodySize })
    (h : BusMessage.fromMalloc buffer fds = .ok t) : Q t := by
  unfold BusMessage.fromMalloc at h
  split at h
  · cases h
  next m hm =>
  dsimp only at h
  unfold BusMessage.parseFields at h
  split at h
  · cases h
  next st hst =>
  have hloop := parseLoop_invariant hset hsignature hreply (hheader m hm _) hst
  unfold BusMessage.finishFields at h
  split at h
  · cases h
  split at h
  · cases h
  split at h
  · cases h
  cases h
  exact herror _ hloop

end Invariant

end Elogind
