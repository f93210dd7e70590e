/-
  Elogind.Login.SessionText

  What the reader of environment files makes of the state file of a session.
  The texts that `session_save` writes without escaping them decide: when each
  of them stays on its line, the file is read line by line.
-/

import Elogind.Login.SessionFile

namespace Elogind

open List

-- for what is checked for each byte
set_option maxRecDepth 2000

open Byte EnvParser

/-- A text that can stand on a line of its own. -/
structure LineText (w : Bytes) : Prop where
  stays : staysOnLine w = true
  utf8 : utf8IsValid w = true

/-- The texts of the file that are written as they are. -/
def SessionRecord.rawTexts (s : SessionRecord) : List Bytes :=
  (s.user.map Prod.snd).toList ++ s.scope.toList ++ s.fifoPath.toList ++
    (s.seat.map SeatRef.id).toList ++ s.tty.toList ++ s.display.toList ++ s.controller.toList

/-! ## Texts the daemon makes up -/

theorem LineText.of_word {w : Bytes} (hne : w ≠ [])
    (h : w.all (fun c => isWordChar c && c < 0x80) = true) : LineText w := by
  simp only [all_eq_true, Bool.and_eq_true, decide_eq_true_eq] at h
  exact ⟨(PlainText.of_word hne fun c hc => (h c hc).1).staysOnLine,
    utf8IsValid_of_ascii fun c hc => (h c hc).2⟩

theorem isWordChar_of_isDigit {c : UInt8} (h : isDigit 10 c = true) :
    isWordChar c = true ∧ c < 0x80 := by
  have hall : ∀ c, isDigit 10 c = true → isWordChar c = true ∧ c < 0x80 := by decide
  exact hall c h

theorem plainText_decimal (n : Nat) : PlainText (decimal n) :=
  .of_word (decimal_ne_nil n) fun _ hc => (isWordChar_of_isDigit (isDigit_of_mem_decimal hc)).1

theorem lineText_decimal (n : Nat) : LineText (decimal n) :=
  ⟨(plainText_decimal n).staysOnLine,
    utf8IsValid_of_ascii fun _ hc => (isWordChar_of_isDigit (isDigit_of_mem_decimal hc)).2⟩

theorem lineText_oneZero (b : Bool) : LineText (oneZero b) :=
  .of_word (by cases b <;> decide) (by cases b <;> decide)

theorem lineText_sessionState (st : SessionState) : LineText (sessionStateTable.toText st) :=
  .of_word (by cases st <;> decide) (by cases st <;> decide)

theorem lineText_sessionType (t : SessionType) : LineText (sessionTypeTable.toText t) :=
  .of_word (by cases t <;> decide) (by cases t <;> decide)

theorem lineText_sessionClass (c : SessionClass) : LineText (sessionClassTable.toText c) :=
  .of_word (by cases c <;> decide) (by cases c <;> decide)

theorem lineText_ttyValidity (v : TTYValidity) : LineText (ttyValidityTable.toText v) :=
  .of_word (by cases v <;> decide) (by cases v <;> decide)

theorem lineText_cescape (v : Bytes) : LineText (cescape v) := by
  refine ⟨staysOnLine_cescape v, utf8IsValid_of_ascii ?_⟩
  intro c hc
  obtain ⟨d, _, hd⟩ := mem_flatMap.mp hc
  have hall : ∀ c, isPrintable c = true → c < 0x80 := by decide
  exact hall c (isPrintable_of_mem_cescapeChar hd)

/-- A byte of the list of devices. -/
theorem mem_devicesText {devices : List (Nat × Nat)} {c : UInt8} (h : c ∈ devicesText devices) :
    isDigit 10 c = true ∨ c = 58 ∨ c = space := by
  obtain ⟨d, _, hd⟩ := mem_flatMap.mp h
  simp only [mem_append, mem_cons, not_mem_nil, or_false] at hd
  rcases hd with (hd | rfl | hd) | rfl
  · exact .inl (isDigit_of_mem_decimal hd)
  · exact .inr (.inl rfl)
  · exact .inl (isDigit_of_mem_decimal hd)
  · exact .inr (.inr rfl)

theorem lineText_devicesText {devices : List (Nat × Nat)} (hne : devices ≠ []) :
    LineText (devicesText devices) := by
  have hchars : ∀ c ∈ devicesText devices,
      isNewline c = false ∧ c ≠ backslash ∧ c < 0x80 := by
    intro c hc
    rcases mem_devicesText hc with hd | rfl | rfl
    · have hw := isWordChar_of_isDigit hd
      exact ⟨(isWordChar_iff hw.1).2.1, (isWordChar_iff hw.1).2.2.2.2, hw.2⟩
    · decide
    · decide
  -- the text starts with the digits of a device number
  obtain ⟨d, ds, rfl⟩ := exists_cons_of_ne_nil hne
  have hhead : ∃ c cs, devicesText (d :: ds) = c :: cs ∧ isDigit 10 c = true := by
    obtain ⟨c, cs, hcs⟩ := exists_cons_of_ne_nil (decimal_ne_nil d.1)
    have hc : c ∈ decimal d.1 := hcs ▸ mem_cons_self
    refine ⟨c, cs ++ 58 :: decimal d.2 ++ [space] ++ devicesText ds, ?_, isDigit_of_mem_decimal hc⟩
    simp [devicesText, hcs]
  obtain ⟨c, cs, hcs, hdigit⟩ := hhead
  have hword := isWordChar_iff (isWordChar_of_isDigit hdigit).1
  obtain ⟨last, hrun, _⟩ := run_atValue_encodes
    (Encodes.self fun e he => ⟨(hchars e he).1, (hchars e he).2.1⟩) (by simp [hcs]) []
    (fun e he => by
      have he' : c = e := by simpa [hcs] using he
      subst he'
      exact ⟨hword.1, hword.2.2.1, hword.2.2.2.1⟩)
  exact ⟨(staysOnLine_of_run hrun).1, utf8IsValid_of_ascii fun e he => (hchars e he).2.2⟩

/-! ## The file -/

theorem forall_mem_option {α : Type} {P : α → Prop} {o : Option α} (h : ∀ a ∈ o.toList, P a) :
    ∀ a, o = some a → P a := fun a ha => h a (by simp [ha])

/-- Every text of the file can stand on a line of its own. -/
theorem entries_lineText {s : SessionRecord} (hraw : ∀ w ∈ s.rawTexts, LineText w) :
    ∀ e ∈ s.entries, ∀ w, e.text = some w → LineText w := by
  simp only [SessionRecord.rawTexts, mem_append, or_imp, forall_and] at hraw
  obtain ⟨⟨⟨⟨⟨⟨huser, hscope⟩, hfifo⟩, hseat⟩, htty⟩, hdisplay⟩, hcontroller⟩ := hraw
  have hmap : ∀ {α : Type} {f : α → Bytes} {o : Option α}, (∀ a, LineText (f a)) →
      ∀ w, o.map f = some w → LineText w := by
    intro α f o hf w hw
    obtain ⟨a, _, rfl⟩ := Option.map_eq_some_iff.mp hw
    exact hf a
  have hsome : ∀ {v : Bytes}, LineText v → ∀ w, some v = some w → LineText w := by
    intro v hv w hw
    exact Option.some.inj hw ▸ hv
  have hite : ∀ {b : Bool} {v : Bytes}, (b = true → LineText v) →
      ∀ w, (if b then some v else none) = some w → LineText w := by
    intro b v hv w hw
    split at hw
    · rename_i hb
      exact Option.some.inj hw ▸ hv hb
    · cases hw
  simp only [SessionRecord.entries, forall_mem_cons]
  refine ⟨hmap fun u => lineText_decimal u.1, forall_mem_option huser, hsome (lineText_oneZero _),
    hsome (lineText_oneZero _), hsome (lineText_sessionState _), hsome (lineText_oneZero _),
    hsome (lineText_oneZero _), hsome (lineText_sessionType _), hsome (lineText_sessionType _),
    hsome (lineText_sessionClass _), forall_mem_option hscope, forall_mem_option hfifo,
    forall_mem_option hseat, forall_mem_option htty, hmap lineText_ttyValidity,
    forall_mem_option hdisplay, hmap lineText_cescape, hmap lineText_cescape,
    hmap lineText_cescape, hmap lineText_cescape, hite fun _ => lineText_decimal _, ?_,
    hmap lineText_decimal, hite fun _ => lineText_decimal _, hite fun _ => lineText_decimal _,
    hite fun _ => lineText_decimal _, forall_mem_option hcontroller, hite ?_, by simp⟩
  · intro w hw
    split at hw
    · exact Option.some.inj hw ▸ lineText_decimal _
    · cases hw
  · intro hb
    simp only [Bool.and_eq_true, Bool.not_eq_true', isEmpty_eq_false_iff] at hb
    exact lineText_devicesText hb.2

/-- The keys of the file. -/
def sessionKeys : List Bytes :=
  ["UID", "USER", "ACTIVE", "IS_DISPLAY", "STATE", "REMOTE", "LEADER_FD_SAVED", "TYPE",
    "ORIGINAL_TYPE", "CLASS", "SCOPE", "FIFO", "SEAT", "TTY", "TTY_VALIDITY", "DISPLAY",
    "REMOTE_HOST", "REMOTE_USER", "SERVICE", "DESKTOP", "VTNR", "POSITION", "LEADER", "AUDIT",
    "REALTIME", "MONOTONIC", "CONTROLLER", "DEVICES"].map ascii

theorem entries_keys (s : SessionRecord) : s.entries.map FileEntry.key = sessionKeys := rfl

theorem sessionKeys_nodup : sessionKeys.Nodup := by decide

theorem sessionKeys_chars :
    ∀ k ∈ sessionKeys, k ≠ [] ∧ ∀ c ∈ k, isKeyChar c = true ∧ c < 0x80 := by
  have h : sessionKeys.all (fun k =>
      !k.isEmpty && k.all fun c => isKeyChar c && decide (c < 0x80)) = true := by
    decide
  simpa using h

/-- The assignments that are read from the file. -/
def SessionRecord.assignments (s : SessionRecord) : List Assignment :=
  s.entries.flatMap FileEntry.assignments

theorem run_comment : EnvParser.init.run comment = (EnvParser.init, []) := by decide

/-- The file is read line by line. -/
theorem parseEnvFile_sessionSave {s : SessionRecord} (hraw : ∀ w ∈ s.rawTexts, LineText w) :
    parseEnvFile (comment ++ s.entries.flatMap FileEntry.line) = .ok s.assignments := by
  have htexts := entries_lineText hraw
  have hkey : ∀ e ∈ s.entries, e.key ∈ sessionKeys := fun e he =>
    entries_keys s ▸ mem_map_of_mem he
  have hgood : ∀ e ∈ s.entries, e.Good := fun e he =>
    { key_ne_nil := (sessionKeys_chars e.key (hkey e he)).1
      key_chars := fun c hc => ((sessionKeys_chars e.key (hkey e he)).2 c hc).1
      stays := fun w hw => (htexts e he w hw).stays }
  have hutf8 : ∀ e ∈ s.entries, utf8IsValid e.key = true ∧
      ∀ w, e.text = some w → utf8IsValid w = true := fun e he =>
    ⟨utf8IsValid_of_ascii fun c hc => ((sessionKeys_chars e.key (hkey e he)).2 c hc).2,
      fun w hw => (htexts e he w hw).utf8⟩
  exact parseEnvFile_lines run_comment hgood hutf8

/-- The value of the line number `i`. -/
theorem lookup_entry (s : SessionRecord) {i : Nat} {e : FileEntry} (h : s.entries[i]? = some e) :
    lookup e.key s.assignments = e.value :=
  lookup_assignments (entries_keys s ▸ sessionKeys_nodup) (mem_of_getElem? h)

end Elogind
