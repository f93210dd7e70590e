/-
  Elogind.Login.SetDisplay

  `SetDisplay` (logind-session-dbus.c): the controller of a graphical session
  chooses the display of the session, which `session_save` writes into the state
  file as it is.  While the text stays on its line, the other keys of the file
  do not depend on it.
-/

import Elogind.Login.SessionText

namespace Elogind

-- for what is checked for each byte
set_option maxRecDepth 2000

open Byte Errno

/-- `validate_string`, which every string of a bus message has to pass. -/
def validateString (s : Bytes) : Bool := !s.contains 0 && utf8IsValid s

/-- `session_set_display` -/
def sessionSetDisplay (s : SessionRecord) (display : Bytes) : SessionRecord :=
  { s with display := some display }

/-- `method_set_display`: the session afterwards. -/
def methodSetDisplay (s : SessionRecord) (sender display : Bytes) :
    Except MethodError SessionRecord :=
  if !validateString display then .error (.errno EBADMSG)
  else if s.controller ≠ some sender then
    .error (.bus "org.freedesktop.login1.NotInControl"
      "You must be in control of this session to set display")
  else if !s.type.isGraphical then
    .error (.bus "org.freedesktop.DBus.Error.NotSupported"
      "Setting display is only supported for graphical sessions")
  else .ok (sessionSetDisplay s display)

/-- What `parse_env_file` stores for a key of the file. -/
def readKey (k text : Bytes) : Option Bytes :=
  match parseEnvFile text with
  | .ok as => lookup k as
  | .error _ => none

/-- A display that was accepted is a valid string. -/
theorem methodSetDisplay_ok {s s' : SessionRecord} {sender d : Bytes}
    (h : methodSetDisplay s sender d = .ok s') :
    s' = sessionSetDisplay s d ∧ utf8IsValid d = true := by
  unfold methodSetDisplay at h
  split at h
  · cases h
  rename_i hvalid
  split at h
  · cases h
  split at h
  · cases h
  cases h
  simp only [validateString, Bool.not_eq_true, Bool.not_eq_false', Bool.and_eq_true] at hvalid
  exact ⟨rfl, hvalid.2⟩

theorem rawTexts_sessionSetDisplay {s : SessionRecord} {d : Bytes}
    (hothers : ∀ w ∈ { s with display := none }.rawTexts, LineText w) (hd : LineText d) :
    ∀ w ∈ (sessionSetDisplay s d).rawTexts, LineText w := by
  intro w hw
  simp only [SessionRecord.rawTexts, sessionSetDisplay, List.mem_append] at hw hothers
  rcases hw with (hw | hw) | hw
  · exact hothers w (.inl (.inl hw))
  · have heq : w = d := by simpa using hw
    exact heq ▸ hd
  · exact hothers w (.inr hw)

/-- Two displays make a difference in one line only. -/
theorem mem_entries_sessionSetDisplay {s : SessionRecord} {d₁ d₂ : Bytes} {e : FileEntry}
    (he : e ∈ (sessionSetDisplay s d₁).entries) (hk : e.key ≠ ascii "DISPLAY") :
    e ∈ (sessionSetDisplay s d₂).entries := by
  have hsplit : ∀ d, (sessionSetDisplay s d).entries =
      s.entries.take 15 ++ ⟨ascii "DISPLAY", some d⟩ :: s.entries.drop 16 := fun _ => rfl
  rw [hsplit, List.mem_append, List.mem_cons] at he ⊢
  rcases he with he | rfl | he
  · exact .inl he
  · exact absurd rfl hk
  · exact .inr (.inr he)

theorem lookup_sessionSetDisplay (s : SessionRecord) (d₁ d₂ : Bytes) {k : Bytes}
    (hk : k ≠ ascii "DISPLAY") :
    lookup k (sessionSetDisplay s d₁).assignments = lookup k (sessionSetDisplay s d₂).assignments := by
  by_cases hmem : k ∈ sessionKeys
  · have hkeys := entries_keys (sessionSetDisplay s d₁)
    rw [← hkeys] at hmem
    obtain ⟨e, he, rfl⟩ := List.mem_map.mp hmem
    have he₂ : e ∈ (sessionSetDisplay s d₂).entries := mem_entries_sessionSetDisplay he hk
    have hnodup : ∀ d, ((sessionSetDisplay s d).entries.map FileEntry.key).Nodup := fun d => by
      rw [entries_keys]
      exact sessionKeys_nodup
    have h₁ := lookup_assignments (hnodup d₁) he
    have h₂ := lookup_assignments (hnodup d₂) he₂
    exact h₁.trans h₂.symm
  · have hnone : ∀ d, lookup k (sessionSetDisplay s d).assignments = none := fun d =>
      lookup_eq_none_of_not_mem fun h => hmem (entries_keys _ ▸ mem_keys_assignments h)
    rw [hnone, hnone]

/-- The values of the other keys do not depend on a display that stays on its
    line. -/
theorem readKey_of_setDisplay (s s₁ s₂ : SessionRecord) (sender d₁ d₂ text₁ text₂ k : Bytes)
    (hset₁ : methodSetDisplay s sender d₁ = .ok s₁) (hset₂ : methodSetDisplay s sender d₂ = .ok s₂)
    (hsave₁ : sessionSave s₁ = .ok (some text₁)) (hsave₂ : sessionSave s₂ = .ok (some text₂))
    (hothers : ∀ w ∈ { s with display := none }.rawTexts, LineText w)
    (hd₁ : staysOnLine d₁ = true) (hd₂ : staysOnLine d₂ = true) (hk : k ≠ ascii "DISPLAY") :
    readKey k text₁ = readKey k text₂ := by
  have hread : ∀ {s' : SessionRecord} {d text : Bytes}, methodSetDisplay s sender d = .ok s' →
      sessionSave s' = .ok (some text) → staysOnLine d = true →
        readKey k text = lookup k (sessionSetDisplay s d).assignments := by
    intro s' d text hset hsave hd
    obtain ⟨rfl, hutf8⟩ := methodSetDisplay_ok hset
    have hparse := parseEnvFile_sessionSave (rawTexts_sessionSetDisplay hothers ⟨hd, hutf8⟩)
    unfold sessionSave at hsave
    split at hsave
    · cases hsave
    split at hsave
    · cases hsave
    cases hsave
    rw [readKey, hparse]
  rw [hread hset₁ hsave₁ hd₁, hread hset₂ hsave₂ hd₂]
  exact lookup_sessionSetDisplay s d₁ d₂ hk

/-- A session with a display server that is in control of it. -/
def displaySession : SessionRecord :=
  { sampleSession (ascii "GNOME") with type := .x11, originalType := .x11 }

theorem displaySession_others :
    ∀ w ∈ { displaySession with display := none }.rawTexts, LineText w := by
  have hwords : ({ displaySession with display := none }.rawTexts.all fun w =>
      staysOnLine w && utf8IsValid w) = true := by
    decide
  intro w hw
  have h := List.all_eq_true.mp hwords w hw
  rw [Bool.and_eq_true] at h
  exact ⟨h.1, h.2⟩

/-- The text of the file after `SetDisplay`. -/
def displayText (d : Bytes) : Bytes :=
  comment ++ (sessionSetDisplay displaySession d).entries.flatMap FileEntry.line

theorem readKey_uid_of_setDisplay :
    readKey (ascii "UID") (displayText (ascii ":0")) =
      readKey (ascii "UID") (displayText (ascii ":1")) :=
  readKey_of_setDisplay displaySession _ _ (ascii ":1.20") (ascii ":0") (ascii ":1") _ _ _
    rfl rfl rfl rfl displaySession_others (by decide) (by decide)
    (by decide)

/-- A newline in the display starts a line of its own: the controller of a
    session can make the session root's. -/
theorem setDisplay_forges_uid :
    methodSetDisplay displaySession (ascii ":1.20") (ascii ":0") =
        .ok (sessionSetDisplay displaySession (ascii ":0")) ∧
      methodSetDisplay displaySession (ascii ":1.20") (ascii "x\nUID=0") =
        .ok (sessionSetDisplay displaySession (ascii "x\nUID=0")) ∧
      readKey (ascii "UID") (displayText (ascii ":0")) = some (ascii "1000") ∧
      readKey (ascii "UID") (displayText (ascii "x\nUID=0")) = some (ascii "0") := by
  refine ⟨rfl, rfl, ?_, ?_⟩ <;> decide

end Elogind
