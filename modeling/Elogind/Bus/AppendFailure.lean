/-
  Elogind.Bus.AppendFailure

  What a failed append leaves behind.  Opening a container checks everything before it touches the
  message, but `message_append_basic` extends the signature of the message first and looks at the
  value afterwards.
-/

import Elogind.Bus.Message

namespace Elogind

-- for what is checked for each byte
set_option maxRecDepth 2000

open BusType Lib

namespace BusMessage

variable {m : BusMessage}

/-- A call that failed without poisoning the message has left its signature, its containers and its
    body alone, so that sealing it gives the bytes it would have given before. -/
def UnchangedOnError (m : BusMessage) (r : BusMessage × Result Unit) : Prop :=
  ∀ e, r.2 = .error e → r.1.poisoned = false →
    r.1.rootContainer = m.rootContainer ∧ r.1.containers = m.containers ∧ r.1.body = m.body ∧
      ∀ cookie timeout, (r.1.messageSeal cookie timeout).1.blob = (m.messageSeal cookie timeout).1.blob

/-- The values that `message_append_basic` refuses. -/
def Refuses (dup : DupFd) (m : BusMessage) (type : UInt8) (p : Option Bytes) : Prop :=
  (type = string ∧ utf8IsValid (cString p) = false) ∨
  (type = objectPath ∧ (p = none ∨ objectPathIsValid (cString p) = false)) ∨
  (type = signature ∧ signatureIsValid (cString p) true = false) ∨
  (type = unixFd ∧ (p = none ∨ ∃ memory, p = some memory ∧
    (intAt m.endian memory < 0 ∨ m.allowFds = false ∨
      ∃ e, dup m.fds.length (intAt m.endian memory) = .error e)))

/-- The value would be the next one of the message itself, whose signature does not announce it
    yet. -/
def ExtendsSignature (m : BusMessage) : Prop :=
  m.lastContainer.next = 0 ∧ m.lastContainer.enclosing = 0

/-! ## What the steps of an append can do -/

theorem unchangedOnError_self (r : Result Unit) : UnchangedOnError m (m, r) :=
  fun _ _ _ => ⟨rfl, rfl, rfl, fun _ _ => rfl⟩

theorem unchangedOnError_of_ok {r : BusMessage × Result Unit} (h : r.2 = .ok ()) : UnchangedOnError m r := by
  intro e he
  rw [h] at he
  cases he

theorem unchangedOnError_of_poisoned {r : BusMessage × Result Unit} (h : r.1.poisoned = true) :
    UnchangedOnError m r := by
  intro e _ hp
  rw [h] at hp
  cases hp

variable {m' : BusMessage} {contents : Bytes} {e : Errno} {type : UInt8} {dup : DupFd}
  {p : Option Bytes}

/-- The body is only not extended when the message is poisoned. -/
theorem poisoned_of_extendBody {align : Nat} {bytes : Bytes} (h : m.extendBody align bytes = (m', none)) :
    m'.poisoned = true := by
  unfold extendBody at h
  split at h
  · next hp =>
    cases h
    exact hp
  · dsimp only at h
    split at h
    · cases h
      rfl
    · cases h

/-- The types are expected as they are, or the signature of the message is extended. -/
theorem expectTypes_eq_ok {types : Bytes} (h : m.expectTypes types = .ok m') :
    (m.lastContainer.next ≠ 0 ∧ m' = m) ∨
      (m.ExtendsSignature ∧ m' = m.setLastContainer
        { m.lastContainer with signature := m.lastContainer.signature ++ types }) := by
  unfold expectTypes at h
  dsimp only at h
  split at h
  · next hnext =>
    split at h
    · cases h
      exact .inl ⟨hnext, rfl⟩
    · cases h
  · next hnext =>
    split at h
    · cases h
    · next hroot =>
      cases h
      exact .inr ⟨⟨not_not.mp hnext, not_not.mp hroot⟩, rfl⟩

/-- The first byte of a type has an alignment. -/
theorem exists_getAlignment (h : signatureIsSingle contents true = true) :
    ∃ alignment, getAlignment (contents.headD 0) = some alignment := by
  have hbasic : ∀ c, isBasic c = true → (getAlignment c).isSome = true := by decide
  obtain ⟨-, hlen⟩ := (signatureIsSingle_iff).mp h
  have hlen := hlen []
  rw [List.append_nil] at hlen
  apply Option.isSome_iff_exists.mp
  rcases signatureElementLengthInternal_eq_ok hlen with ⟨hb | hb, -⟩ | ⟨p, t, rfl, -⟩ | ⟨p, t, rfl, -⟩ |
    ⟨p, t, rfl, -⟩
  · exact hbasic _ hb
  · rw [hb]
    rfl
  · rfl
  · rfl
  · rfl

theorem openArray_eq_error (h : m.openArray contents = (m', .error e)) :
    m' = m ∨ m'.poisoned = true := by
  unfold openArray at h
  split at h
  · cases h
    exact .inl rfl
  · next hsingle =>
    obtain ⟨alignment, halign⟩ := exists_getAlignment (by simpa using hsingle)
    split at h
    · cases h
      exact .inl rfl
    · rw [halign] at h
      dsimp only at h
      split at h
      · next h₁ =>
        cases h
        exact .inr (poisoned_of_extendBody h₁)
      · split at h
        · next h₂ =>
          cases h
          exact .inr (poisoned_of_extendBody h₂)
        · cases h

theorem openVariant_eq_error (h : m.openVariant contents = (m', .error e)) :
    m' = m ∨ m'.poisoned = true := by
  unfold openVariant at h
  split at h
  · cases h
    exact .inl rfl
  · split at h
    · cases h
      exact .inl rfl
    · split at h
      · cases h
        exact .inl rfl
      · split at h
        · next h₁ =>
          cases h
          exact .inr (poisoned_of_extendBody h₁)
        · cases h

theorem openStruct_eq_error (h : m.openStruct contents = (m', .error e)) :
    m' = m ∨ m'.poisoned = true := by
  unfold openStruct at h
  split at h
  · cases h
    exact .inl rfl
  · split at h
    · cases h
      exact .inl rfl
    · split at h
      · next h₁ =>
        cases h
        exact .inr (poisoned_of_extendBody h₁)
      · cases h

theorem openDictEntry_eq_error (h : m.openDictEntry contents = (m', .error e)) :
    m' = m ∨ m'.poisoned = true := by
  unfold openDictEntry at h
  dsimp only at h
  split at h
  · cases h
    exact .inl rfl
  · split at h
    · cases h
      exact .inl rfl
    · split at h
      · cases h
        exact .inl rfl
      · split at h
        · next h₁ =>
          cases h
          exact .inr (poisoned_of_extendBody h₁)
        · cases h

theorem openKind_eq_error (h : m.openKind type contents = (m', .error e)) :
    m' = m ∨ m'.poisoned = true := by
  unfold openKind at h
  split at h
  · split at h
    · next harray =>
      cases h
      exact openArray_eq_error harray
    · cases h
  · dsimp only at h
    split at h
    · next hkind =>
      cases h
      split at hkind
      · exact openVariant_eq_error hkind
      · split at hkind
        · exact openStruct_eq_error hkind
        · split at hkind
          · exact openDictEntry_eq_error hkind
          · cases hkind
            exact .inl rfl
    · cases h

/-- A container that is not opened leaves everything as it was. -/
theorem unchangedOnError_openContainer (m : BusMessage) (type : UInt8) (contents : Bytes) :
    m.UnchangedOnError (m.openContainer type contents) := by
  unfold openContainer
  split
  · exact unchangedOnError_self _
  · split
    · exact unchangedOnError_self _
    · split
      · next hkind =>
        rcases openKind_eq_error hkind with rfl | hp
        · exact unchangedOnError_self _
        · exact unchangedOnError_of_poisoned hp
      · exact unchangedOnError_of_ok rfl

/-! ## Basic values -/

theorem basicBytes_eq_error_iff : (∃ e, basicBytes dup m type p = .error e) ↔ m.Refuses dup type p := by
  unfold basicBytes Refuses
  dsimp only
  by_cases hstring : type = string
  · subst hstring
    cases utf8IsValid (cString p) <;> simp +decide
  by_cases hpath : type = objectPath
  · subst hpath
    cases p <;> cases objectPathIsValid (cString _) <;> simp +decide
  by_cases hsignature : type = signature
  · subst hsignature
    cases signatureIsValid (cString p) true <;> simp +decide
  by_cases hfd : type = unixFd
  · subst hfd
    cases p with
    | none => simp +decide
    | some memory =>
      unfold pushFd
      by_cases hneg : intAt m.endian memory < 0
      · simp +decide [hneg]
      · cases hallow : m.allowFds with
        | false => simp +decide [hneg]
        | true => cases hdup : dup m.fds.length (intAt m.endian memory) <;> simp +decide [hneg, hdup]
  rw [if_neg hstring, if_neg hpath, if_neg hsignature, if_neg hfd]
  simp only [hstring, hpath, hsignature, hfd, false_and, or_false, iff_false]
  split <;> simp

theorem refuses_setLastContainer {c : Container} :
    (m.setLastContainer c).Refuses dup type p ↔ m.Refuses dup type p := by
  unfold Refuses
  simp only [endian_setLastContainer, allowFds_setLastContainer, fds_setLastContainer]

theorem expectTypes_of_extendsSignature (h : m.ExtendsSignature) (types : Bytes) :
    m.expectTypes types = .ok (m.setLastContainer
      { m.lastContainer with signature := m.lastContainer.signature ++ types }) := by
  unfold expectTypes
  rw [if_neg (not_not.mpr h.1), if_neg (not_not.mpr h.2)]

/-- A refused value leaves the signature of the message extended. -/
theorem messageAppendBasic_of_refuses (hsealed : m.sealed = false) (hpoisoned : m.poisoned = false)
    (hbasic : isBasic type = true) (hext : m.ExtendsSignature) (hrefuses : m.Refuses dup type p) :
    ∃ e, m.messageAppendBasic dup type p = (m.setLastContainer
      { m.lastContainer with signature := m.lastContainer.signature ++ [type] }, .error e) := by
  obtain ⟨e, he⟩ := (basicBytes_eq_error_iff).mpr ((refuses_setLastContainer).mpr hrefuses)
  refine ⟨e, ?_⟩
  unfold messageAppendBasic
  rw [if_neg (by simp [hsealed]), if_neg (by simp [hbasic]), if_neg (by simp [hpoisoned]),
    expectTypes_of_extendsSignature hext]
  dsimp only
  rw [he]

/-- An unsealed message survives a failed append unchanged exactly when the value is acceptable
    (not one it `Refuses`) or its type was announced before (it does not `ExtendsSignature`). -/
theorem append_unchanged_iff {m : BusMessage} (hsealed : m.sealed = false) (hpoisoned : m.poisoned = false)
    (dup : DupFd) (type : UInt8) (p : Option Bytes) (kind : UInt8) (contents : Bytes) :
    (m.UnchangedOnError (m.messageAppendBasic dup type p) ∧
      m.UnchangedOnError (m.openContainer kind contents)) ↔
    ¬ (isBasic type = true ∧ m.ExtendsSignature ∧ m.Refuses dup type p) := by
  constructor
  · rintro ⟨hunchanged, -⟩ ⟨hbasic, hext, hrefuses⟩
    obtain ⟨e, hresult⟩ := messageAppendBasic_of_refuses hsealed hpoisoned hbasic hext hrefuses
    rw [hresult] at hunchanged
    obtain ⟨hroot, hcontainers, -⟩ := hunchanged e rfl ((poisoned_setLastContainer ..).trans hpoisoned)
    have hlast := lastContainer_setLastContainer m
      { m.lastContainer with signature := m.lastContainer.signature ++ [type] }
    rw [lastContainer, hcontainers, hroot] at hlast
    have hlen := congrArg (fun c => c.signature.length) hlast
    rw [List.length_append] at hlen
    exact absurd hlen (by simp [lastContainer])
  · intro hnot
    refine ⟨?_, unchangedOnError_openContainer m kind contents⟩
    unfold messageAppendBasic
    rw [if_neg (by simp [hsealed])]
    split
    · exact unchangedOnError_self _
    · next hbasic =>
      rw [if_neg (by simp [hpoisoned])]
      split
      · exact unchangedOnError_self _
      · next m₁ hexpect =>
        split
        · next e he =>
          rcases expectTypes_eq_ok hexpect with ⟨-, rfl⟩ | ⟨hext, rfl⟩
          · exact unchangedOnError_self _
          · have hrefuses := (refuses_setLastContainer).mp ((basicBytes_eq_error_iff).mp ⟨e, he⟩)
            exact absurd ⟨by simpa using hbasic, hext, hrefuses⟩ hnot
        · split
          · next hext => exact unchangedOnError_of_poisoned (poisoned_of_extendBody hext)
          · exact unchangedOnError_of_ok rfl

/-- Inside a variant that announces a text, one that is not UTF-8 is refused and leaves nothing behind. -/
theorem append_unchanged_variant :
    let m := (emptySignal.openContainer variant [string]).1
    let r := m.messageAppendBasic (fun _ fd => .ok fd) string (some [0xff, 0])
    r.2 = .error Errno.EINVAL ∧ r.1.rootContainer = m.rootContainer ∧ r.1.containers = m.containers ∧
      r.1.body = m.body := by
  intro m r
  have hnot : ¬ (isBasic string = true ∧ m.ExtendsSignature ∧
      m.Refuses (fun _ fd => .ok fd) string (some [0xff, 0])) := fun h =>
    absurd h.2.1.1 (by decide)
  obtain ⟨hroot, hcontainers, hbody, -⟩ :=
    ((append_unchanged_iff rfl rfl _ _ _ array []).mpr hnot).1 Errno.EINVAL rfl rfl
  exact ⟨rfl, hroot, hcontainers, hbody⟩

/-- A text that is not UTF-8 is refused, but the message announces it from then on and can be sealed
    without it. -/
theorem append_signature_without_value :
    ¬ emptySignal.UnchangedOnError (emptySignal.messageAppendBasic (fun _ fd => .ok fd) string
      (some [0xff, 0])) ∧
    ∃ m, (emptySignal.messageAppendBasic (fun _ fd => .ok fd) string (some [0xff, 0])).1.messageSeal 1 0 =
        (m, .ok ()) ∧ m.rootContainer.signature = [string] ∧ m.body = [] := by
  constructor
  · intro h
    have hroot := (h Errno.EINVAL rfl rfl).1
    exact absurd hroot (by decide)
  · exact ⟨_, rfl, rfl, rfl⟩

end BusMessage

end Elogind
