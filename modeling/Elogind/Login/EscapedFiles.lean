/-
  Elogind.Login.EscapedFiles

  Two state files whose writers escape texts and whose readers unescape them:
  the file of an inhibitor (`inhibitor_save` and `inhibitor_load`,
  logind-inhibit.c), and the file of the scheduled shutdown
  (`update_schedule_file` and `manager_load_scheduled_shutdown`, logind-dbus.c).

  Of the reader of inhibitors only what it does with `WHO` and `WHY` is
  modelled.  The other lines are read independently of them: errors in them are
  logged and ignored, and the FIFO is opened after all texts have been read.
-/

import Elogind.Basic.EscapedText
import Elogind.Login.Action
import Elogind.Login.SessionText

namespace Elogind

open List FileEntry

-- for what is checked for each byte
set_option maxRecDepth 2000

open Byte EnvParser

/-! ## Inhibitors -/

/-- What `inhibitor_save` reads of an inhibitor. -/
structure InhibitorRecord where
  id : Nat
  what : InhibitWhat
  mode : InhibitMode
  uid : Nat
  pid : Nat
  who : Option Bytes
  why : Option Bytes
  /-- There is a `fifo_path`. -/
  fifo : Bool
  deriving DecidableEq, Repr

/-- The names of the bits of a mask. -/
def inhibitWhatNames : List (InhibitWhat × Bytes) :=
  [(.shutdown, ascii "shutdown"), (.sleep, ascii "sleep"), (.idle, ascii "idle"),
    (.handlePowerKey, ascii "handle-power-key"), (.handleSuspendKey, ascii "handle-suspend-key"),
    (.handleHibernateKey, ascii "handle-hibernate-key"),
    (.handleLidSwitch, ascii "handle-lid-switch"), (.handleRebootKey, ascii "handle-reboot-key")]

/-- `inhibit_what_to_string` -/
def inhibitWhatToString (w : InhibitWhat) : Option Bytes :=
  if !w.isValid then none
  else some ((((inhibitWhatNames.filter fun e => w &&& e.1 != 0).map Prod.snd).intersperse
    [58]).flatten)

def inhibitModeTable : StringTable InhibitMode :=
  [(.block, ascii "block"), (.blockWeak, ascii "block-weak"), (.delay, ascii "delay")]

namespace InhibitorRecord

/-- The path `inhibitor_create_fifo` has made up. -/
def fifoPath (i : InhibitorRecord) : Bytes :=
  ascii "/run/systemd/inhibit/" ++ decimal i.id ++ ascii ".ref"

/-- The lines of the file; for an invalid mask `printf` is given a null pointer. -/
def entries (i : InhibitorRecord) : List FileEntry :=
  [⟨ascii "WHAT", some ((inhibitWhatToString i.what).getD (ascii "(null)"))⟩,
    ⟨ascii "MODE", some (inhibitModeTable.toText i.mode)⟩,
    ⟨ascii "UID", some (decimal i.uid)⟩,
    ⟨ascii "PID", some (decimal i.pid)⟩,
    ⟨ascii "WHO", i.who.map cescape⟩,
    ⟨ascii "WHY", i.why.map cescape⟩,
    ⟨ascii "FIFO", if i.fifo then some i.fifoPath else none⟩]

end InhibitorRecord

/-- `inhibitor_save` -/
def inhibitorSave (i : InhibitorRecord) : Bytes := comment ++ i.entries.flatMap FileEntry.line

/-- `who` and `why` of an inhibitor. -/
structure InhibitorTexts where
  who : Option Bytes
  why : Option Bytes
  deriving DecidableEq, Repr

/-- What `inhibitor_load` stores in a new inhibitor.  The function returns when the
    file cannot be read or a text cannot be unescaped. -/
def inhibitorLoad (text : Bytes) : InhibitorTexts :=
  match parseEnvFile text with
  | .error _ => ⟨none, none⟩
  | .ok as =>
    let why (who : Option Bytes) : InhibitorTexts :=
      match lookup (ascii "WHY") as with
      | none => ⟨who, none⟩
      | some v => ⟨who, cunescape v⟩
    match lookup (ascii "WHO") as with
    | none => why none
    | some v =>
      match cunescape v with
      | none => ⟨none, none⟩
      | some who => why (some who)

/-- The texts of an inhibitor are restored from its file. -/
def InhibitorRecord.Restored (i : InhibitorRecord) : Prop :=
  inhibitorLoad (inhibitorSave i) = ⟨i.who, i.why⟩

/-! ## The scheduled shutdown -/

/-- What `update_schedule_file` reads of the manager. -/
structure ScheduleRecord where
  timeout : Nat
  enableWallMessages : Bool
  action : HandleAction
  uid : Nat
  tty : Option Bytes
  wallMessage : Option Bytes
  deriving DecidableEq, Repr

/-- The line fits into `LONG_LINE_MAX`. -/
def serializable (k w : Bytes) : Bool := k.length + 1 + w.length + 1 ≤ longLineMax

/-- `serialize_item_format`, which leaves out a line that is too long. -/
def serializeItem (k w : Bytes) : FileEntry := ⟨k, if serializable k w then some w else none⟩

namespace ScheduleRecord

/-- The lines of the file before the message. -/
def entries (m : ScheduleRecord) : List FileEntry :=
  [if m.timeout = usecInfinity then ⟨ascii "USEC", none⟩
    else serializeItem (ascii "USEC") (decimal m.timeout),
    serializeItem (ascii "WARN_WALL") (oneZero m.enableWallMessages),
    serializeItem (ascii "MODE") (ascii m.action.toString),
    serializeItem (ascii "UID") (decimal m.uid),
    match m.tty with
    | none => ⟨ascii "TTY", none⟩
    | some tty => serializeItem (ascii "TTY") tty]

/-- The message as it is written, unless it is empty. -/
def escapedMessage (m : ScheduleRecord) : Option Bytes :=
  match m.wallMessage with
  | none => none
  | some [] => none
  | some x => some (xescape x [space])

end ScheduleRecord

/-- `update_schedule_file`: the text of the file.  When the message is too long there
    is no file. -/
def updateScheduleFile (m : ScheduleRecord) : Option Bytes :=
  match m.escapedMessage with
  | none => some (m.entries.flatMap FileEntry.line)
  | some w =>
    if serializable (ascii "WALL_MESSAGE") w then
      some (m.entries.flatMap FileEntry.line ++ envLine (ascii "WALL_MESSAGE") w)
    else none

/-- `handle_action_from_string` -/
def handleActionFromString (s : Bytes) : Option HandleAction :=
  [.ignore, .poweroff, .reboot, .halt, .kexec, .suspend, .hibernate, .hybridSleep,
    .suspendThenHibernate, .sleep, .factoryReset, .lock, .secureAttentionKey].find?
    fun a : HandleAction => ascii a.toString = s

/-- The message a manager that has none gets from `manager_load_scheduled_shutdown`. -/
def managerLoadScheduledShutdown (file : Option Bytes) : Option Bytes :=
  match file.map parseEnvFile with
  | none => none
  | some (.error _) => none
  | some (.ok as) =>
    match (lookup (ascii "MODE") as).bind handleActionFromString with
    | none => none
    | some _ =>
      match (lookup (ascii "USEC") as).map safeAtou64 with
      | none => none
      | some (.error _) => none
      | some (.ok _) => (lookup (ascii "WALL_MESSAGE") as).bind cunescape

/-- The message is restored from the file. -/
def ScheduleRecord.Restored (m : ScheduleRecord) : Prop :=
  managerLoadScheduledShutdown (updateScheduleFile m) = m.wallMessage

/-! ## Reading the file of an inhibitor -/

/-- The keys of both files are keys the reader accepts. -/
theorem envKey_of_mem (keys : List Bytes) (h : keys.all (fun k =>
    !k.isEmpty && k.all fun c => isKeyChar c && decide (c < 0x80)) = true) {k : Bytes}
    (hk : k ∈ keys) : EnvKey k := by
  have hchars : k ≠ [] ∧ ∀ c ∈ k, isKeyChar c = true ∧ c < 0x80 := by
    have hall := all_eq_true.mp h k hk
    simpa using hall
  exact ⟨hchars.1, fun c hc => (hchars.2 c hc).1, fun c hc => (hchars.2 c hc).2⟩

/-- A file of lines whose texts can stand on lines of their own. -/
theorem parseEnvFile_entries {head : Bytes} (hhead : init.run head = (init, []))
    {es : List FileEntry} (hkeys : ∀ e ∈ es, EnvKey e.key)
    (htexts : ∀ e ∈ es, ∀ w, e.text = some w → LineText w) :
    parseEnvFile (head ++ es.flatMap FileEntry.line) = .ok (es.flatMap FileEntry.assignments) := by
  refine parseEnvFile_lines hhead ?_ ?_
  · intro e he
    exact ⟨(hkeys e he).ne_nil, (hkeys e he).chars, fun w hw => (htexts e he w hw).stays⟩
  · intro e he
    exact ⟨utf8IsValid_of_ascii (hkeys e he).ascii, fun w hw => (htexts e he w hw).utf8⟩

theorem lineText_some {v : Bytes} (h : LineText v) : ∀ w, some v = some w → LineText w := by
  intro w hw
  exact Option.some.inj hw ▸ h

theorem lineText_map_cescape (o : Option Bytes) : ∀ w, o.map cescape = some w → LineText w := by
  intro w hw
  obtain ⟨x, -, rfl⟩ := Option.map_eq_some_iff.mp hw
  exact lineText_cescape x

theorem lineText_what (w : InhibitWhat) :
    LineText ((inhibitWhatToString w).getD (ascii "(null)")) := by
  cases hw : w.isValid with
  | false =>
    have hnone : inhibitWhatToString w = none := by
      unfold inhibitWhatToString
      rw [hw]
      rfl
    rw [hnone]
    exact .of_word (by decide) (by decide)
  | true =>
    have hall : ∀ w < 256, InhibitWhat.isValid w = true →
        (inhibitWhatToString w).getD (ascii "(null)") ≠ [] ∧
          ((inhibitWhatToString w).getD (ascii "(null)")).all
            (fun c => isWordChar c && c < 0x80) = true := by
      decide
    have hlt : w < 256 := by
      have hbounds : 0 < w ∧ w < 1 <<< 8 := by simpa [InhibitWhat.isValid] using hw
      exact hbounds.2
    obtain ⟨hne, hchars⟩ := hall w hlt hw
    exact .of_word hne hchars

namespace InhibitorRecord

variable (i : InhibitorRecord)

theorem lineText_fifoPath : LineText i.fifoPath := by
  unfold fifoPath
  refine .of_word ?_ ?_
  · have hne : ascii "/run/systemd/inhibit/" ≠ [] := by decide
    simp [hne]
  · rw [all_append, all_append, Bool.and_eq_true, Bool.and_eq_true]
    refine ⟨⟨by decide, ?_⟩, by decide⟩
    rw [all_eq_true]
    intro c hc
    have hword := isWordChar_of_isDigit (isDigit_of_mem_decimal hc)
    simp [hword.1, hword.2]

theorem entries_keys : i.entries.map FileEntry.key =
    ["WHAT", "MODE", "UID", "PID", "WHO", "WHY", "FIFO"].map ascii := rfl

theorem entries_nodup : (i.entries.map FileEntry.key).Nodup := by
  rw [entries_keys]
  decide

theorem entries_texts : ∀ e ∈ i.entries, ∀ w, e.text = some w → LineText w := by
  simp only [entries, forall_mem_cons]
  refine ⟨lineText_some (lineText_what _), lineText_some ?_, lineText_some (lineText_decimal _),
    lineText_some (lineText_decimal _), lineText_map_cescape _, lineText_map_cescape _, ?_, by simp⟩
  · exact .of_word (by cases i.mode <;> decide) (by cases i.mode <;> decide)
  · intro w hw
    split at hw
    · exact Option.some.inj hw ▸ i.lineText_fifoPath
    · cases hw

theorem parseEnvFile_inhibitorSave :
    parseEnvFile (inhibitorSave i) = .ok (i.entries.flatMap FileEntry.assignments) := by
  refine parseEnvFile_entries run_comment ?_ i.entries_texts
  intro e he
  refine envKey_of_mem (["WHAT", "MODE", "UID", "PID", "WHO", "WHY", "FIFO"].map ascii)
    (by decide) ?_
  exact mem_map_of_mem he

/-- What is read from the line of a text. -/
def readText (o : Option Bytes) : Option Bytes := (o.map cescape).bind readBack

theorem inhibitorLoad_eq : inhibitorLoad (inhibitorSave i) =
    match readText i.who with
    | none => ⟨none, (readText i.why).bind cunescape⟩
    | some v =>
      match cunescape v with
      | none => ⟨none, none⟩
      | some who => ⟨some who, (readText i.why).bind cunescape⟩ := by
  have hwho : lookup (ascii "WHO") (i.entries.flatMap assignments) = readText i.who :=
    lookup_assignments i.entries_nodup (e := ⟨ascii "WHO", i.who.map cescape⟩) (by simp [entries])
  have hwhy : lookup (ascii "WHY") (i.entries.flatMap assignments) = readText i.why :=
    lookup_assignments i.entries_nodup (e := ⟨ascii "WHY", i.why.map cescape⟩) (by simp [entries])
  unfold inhibitorLoad
  rw [i.parseEnvFile_inhibitorSave]
  dsimp only
  rw [hwho, hwhy]
  cases readText i.who with
  | none => cases readText i.why <;> rfl
  | some v =>
    dsimp only
    cases cunescape v with
    | none => rfl
    | some who => cases readText i.why <;> rfl

/-- The text is restored: it is missing, or survives. -/
theorem readText_bind_eq_iff (o : Option Bytes) :
    (readText o).bind cunescape = o ↔ ∀ x, o = some x → PrintableText x ∧ backslash ∉ x := by
  cases o with
  | none => exact ⟨fun _ x hx => (nomatch hx), fun _ => rfl⟩
  | some x =>
    show (readBack (cescape x)).bind cunescape = some x ↔ _
    rw [cunescape_readBack_cescape_iff]
    exact ⟨fun h y hy => Option.some.inj hy ▸ h, fun h => h x rfl⟩

/-- An inhibitor is restored exactly when both of its texts survive. -/
theorem restored_iff : i.Restored ↔
    (∀ x, i.who = some x → PrintableText x ∧ backslash ∉ x) ∧
      ∀ x, i.why = some x → PrintableText x ∧ backslash ∉ x := by
  rw [← readText_bind_eq_iff, ← readText_bind_eq_iff, Restored, inhibitorLoad_eq]
  cases hwho : readText i.who with
  | none => exact InhibitorTexts.mk.injEq _ _ _ _ ▸ Iff.rfl
  | some v =>
    dsimp only [Option.bind_some]
    cases hv : cunescape v with
    | some who => exact InhibitorTexts.mk.injEq _ _ _ _ ▸ Iff.rfl
    | none =>
      -- the file has the text, but it cannot be unescaped
      have hsome : i.who ≠ none := by
        intro hnone
        rw [hnone] at hwho
        cases hwho
      constructor
      · intro h
        exact absurd (InhibitorTexts.mk.inj h).1.symm hsome
      · rintro ⟨h, -⟩
        exact absurd h.symm hsome

end InhibitorRecord

/-! ## Reading the file of the scheduled shutdown -/

namespace ScheduleRecord

/-- The timeout is a number of 64 bits, and the name of the terminal, which comes
    from the kernel, can stand on a line of its own. -/
structure Valid (m : ScheduleRecord) : Prop where
  timeout_lt : m.timeout < 2 ^ 64
  tty : ∀ tty, m.tty = some tty → LineText tty

variable {m : ScheduleRecord}

theorem lineText_serializeItem {k v : Bytes} (h : LineText v) :
    ∀ w, (serializeItem k v).text = some w → LineText w := by
  intro w hw
  unfold serializeItem at hw
  split at hw
  · exact Option.some.inj hw ▸ h
  · cases hw

theorem lineText_action (a : HandleAction) : LineText (ascii a.toString) :=
  .of_word (by cases a <;> decide) (by cases a <;> decide)

theorem entries_texts (hm : m.Valid) : ∀ e ∈ m.entries, ∀ w, e.text = some w → LineText w := by
  simp only [entries, forall_mem_cons]
  refine ⟨?_, lineText_serializeItem (lineText_oneZero _),
    lineText_serializeItem (lineText_action _), lineText_serializeItem (lineText_decimal _), ?_,
    by simp⟩
  · intro w hw
    split at hw
    · cases hw
    · exact lineText_serializeItem (lineText_decimal _) w hw
  · intro w hw
    cases htty : m.tty with
    | none =>
      rw [htty] at hw
      cases hw
    | some tty =>
      rw [htty] at hw
      exact lineText_serializeItem (hm.tty tty htty) w hw

theorem entries_keys (m : ScheduleRecord) : m.entries.map FileEntry.key =
    ["USEC", "WARN_WALL", "MODE", "UID", "TTY"].map ascii := by
  unfold entries
  by_cases h : m.timeout = usecInfinity
  · rw [if_pos h]
    cases m.tty <;> rfl
  · rw [if_neg h]
    cases m.tty <;> rfl

/-- The lines of the file, with the one of the message. -/
def allEntries (m : ScheduleRecord) (message : Option Bytes) : List FileEntry :=
  m.entries ++ [⟨ascii "WALL_MESSAGE", message⟩]

theorem allEntries_keys (m : ScheduleRecord) (message : Option Bytes) :
    (m.allEntries message).map FileEntry.key =
      ["USEC", "WARN_WALL", "MODE", "UID", "TTY", "WALL_MESSAGE"].map ascii := by
  unfold allEntries
  rw [map_append, entries_keys]
  rfl

theorem envKey_allEntries (message : Option Bytes) : ∀ e ∈ m.allEntries message, EnvKey e.key := by
  intro e he
  refine envKey_of_mem (["USEC", "WARN_WALL", "MODE", "UID", "TTY", "WALL_MESSAGE"].map ascii)
    (by decide) ?_
  rw [← m.allEntries_keys message]
  exact mem_map_of_mem he

theorem serializable_decimal {n : Nat} (h : n < 2 ^ 64) : serializable (ascii "USEC") (decimal n) := by
  have hlen : (decimal n).length ≤ 20 := by
    unfold decimal
    rw [length_map, Nat.length_toDigits_le_iff (by decide) (by decide)]
    exact Nat.lt_trans h (by decide)
  have hkey : (ascii "USEC").length = 4 := by decide
  unfold serializable longLineMax
  rw [hkey, decide_eq_true_eq]
  omega

theorem handleActionFromString_toString (a : HandleAction) :
    handleActionFromString (ascii a.toString) = some a := by
  cases a <;> decide

/-- What is read from the file when the message stays on its line. -/
theorem managerLoadScheduledShutdown_eq (hm : m.Valid) {message : Option Bytes}
    (hmessage : ∀ w, message = some w → LineText w) :
    managerLoadScheduledShutdown (some ((m.allEntries message).flatMap FileEntry.line)) =
      if m.timeout = usecInfinity then none else (message.bind readBack).bind cunescape := by
  have hparse : parseEnvFile ([] ++ (m.allEntries message).flatMap line) =
      .ok ((m.allEntries message).flatMap assignments) := by
    refine parseEnvFile_entries rfl (envKey_allEntries message) ?_
    intro e he w hw
    rcases mem_append.mp he with he | he
    · exact entries_texts hm e he w hw
    · rw [mem_singleton.mp he] at hw
      exact hmessage w hw
  have hnodup : ((m.allEntries message).map FileEntry.key).Nodup := by
    rw [allEntries_keys]
    decide
  have hmode : lookup (ascii "MODE") ((m.allEntries message).flatMap assignments) =
      readBack (ascii m.action.toString) := by
    have hin : serializeItem (ascii "MODE") (ascii m.action.toString) ∈ m.allEntries message := by
      simp [allEntries, entries]
    have hshort : serializable (ascii "MODE") (ascii m.action.toString) = true := by
      cases m.action <;> decide
    have hlookup := lookup_assignments hnodup hin
    rw [serializeItem, hshort] at hlookup
    exact hlookup
  have hmodeText : readBack (ascii m.action.toString) = some (ascii m.action.toString) := by
    have hplain : ∀ a : HandleAction, PlainText (ascii a.toString) := by
      intro a
      refine .of_word (by cases a <;> decide) ?_
      have hall : (ascii a.toString).all isWordChar = true := by cases a <;> decide
      exact all_eq_true.mp hall
    exact (hplain m.action).readBack_eq
  have hwall : lookup (ascii "WALL_MESSAGE")
      ((m.allEntries message).flatMap assignments) = message.bind readBack :=
    lookup_assignments hnodup (e := ⟨ascii "WALL_MESSAGE", message⟩) (by simp [allEntries])
  rw [nil_append] at hparse
  unfold managerLoadScheduledShutdown
  rw [Option.map_some, hparse]
  dsimp only
  rw [hmode, hmodeText, Option.bind_some, handleActionFromString_toString]
  by_cases hinf : m.timeout = usecInfinity
  · have husec : lookup (ascii "USEC") ((m.allEntries message).flatMap assignments) =
        none := by
      refine lookup_assignments hnodup (e := ⟨ascii "USEC", none⟩) ?_
      simp [allEntries, entries, hinf]
    rw [husec, if_pos hinf]
    rfl
  · have husec : lookup (ascii "USEC") ((m.allEntries message).flatMap assignments) =
        some (decimal m.timeout) := by
      have hin : serializeItem (ascii "USEC") (decimal m.timeout) ∈ m.allEntries message := by
        simp [allEntries, entries, hinf]
      have hlookup := lookup_assignments hnodup hin
      rw [serializeItem, serializable_decimal hm.timeout_lt] at hlookup
      exact hlookup.trans (plainText_decimal m.timeout).readBack_eq
    rw [husec, if_neg hinf, Option.map_some, safeAtou64_decimal hm.timeout_lt, hwall]

/-- A message that starts with a quote is not restored. -/
theorem managerLoadScheduledShutdown_quote (hm : m.Valid) {c : UInt8} (hc : isQuote c = true)
    (x : Bytes) :
    managerLoadScheduledShutdown (some (m.entries.flatMap FileEntry.line ++
      envLine (ascii "WALL_MESSAGE") (xescape (c :: x) [space]))) ≠ some (c :: x) := by
  have hgood : ∀ e ∈ m.entries, e.Good := by
    intro e he
    have hkey := envKey_allEntries none e (mem_append_left _ he)
    exact ⟨hkey.ne_nil, hkey.chars, fun w hw => (entries_texts hm e he w hw).stays⟩
  obtain ⟨q, hrun, hclean⟩ := run_lines init_clean hgood
  have hkey : EnvKey (ascii "WALL_MESSAGE") :=
    envKey_of_mem [ascii "WALL_MESSAGE"] (by decide) (by simp)
  obtain ⟨value, hlast, hne⟩ := lastLine_quote hclean hkey hc x
  have hparse : parseEnvFileInternal (m.entries.flatMap line ++
      envLine (ascii "WALL_MESSAGE") (xescape (c :: x) [space])) =
        m.entries.flatMap assignments ++
          [{ key := ascii "WALL_MESSAGE", value := value }] := by
    rw [parseEnvFileInternal, run_append, hrun]
    dsimp only
    rw [append_assoc]
    congr 1
  intro h
  unfold managerLoadScheduledShutdown parseEnvFile at h
  rw [Option.map_some, hparse] at h
  dsimp only at h
  split at h
  · cases h
  · cases h
  · next as has =>
    split at has
    · have hwall : (lookup (ascii "WALL_MESSAGE") as).bind cunescape = some (c :: x) := by
        split at h
        · cases h
        · split at h
          · cases h
          · cases h
          · exact h
      cases has
      rw [lookup_append, if_pos (by simp)] at hwall
      exact hne hwall
    · cases has

theorem xescape_of_plain {x : Bytes} (h : ∀ c ∈ x, isSpecial c = false) :
    xescape x [space] = x := by
  unfold xescape
  induction x with
  | nil => rfl
  | cons c x ih =>
    rw [flatMap_cons, xescapeChar_of_plain (h c mem_cons_self),
      ih fun d hd => h d (mem_cons_of_mem c hd)]
    rfl

theorem lineText_xescape {c : UInt8} (hc : isQuote c = false) (x : Bytes) :
    LineText (xescape (c :: x) [space]) :=
  ⟨(readBack_xescape hc).1, utf8IsValid_of_ascii fun _ h => ascii_xescape h⟩

/-- The file without a message. -/
theorem updateScheduleFile_none (h : m.escapedMessage = none) :
    updateScheduleFile m = some ((m.allEntries none).flatMap FileEntry.line) := by
  unfold updateScheduleFile allEntries
  rw [h, flatMap_append]
  simp [line]

/-- The file with a message. -/
theorem updateScheduleFile_some {w : Bytes} (h : m.escapedMessage = some w)
    (hw : serializable (ascii "WALL_MESSAGE") w = true) :
    updateScheduleFile m = some ((m.allEntries (some w)).flatMap FileEntry.line) := by
  unfold updateScheduleFile allEntries
  rw [h, flatMap_append]
  simp [line, hw]

theorem updateScheduleFile_long {w : Bytes} (h : m.escapedMessage = some w)
    (hw : serializable (ascii "WALL_MESSAGE") w = false) : updateScheduleFile m = none := by
  unfold updateScheduleFile
  rw [h]
  simp [hw]

/-- The conditions under which a message survives. -/
structure MessageSurvives (m : ScheduleRecord) (x : Bytes) : Prop where
  text : UnquotedText x
  short : serializable (ascii "WALL_MESSAGE") x = true
  timeout : m.timeout ≠ usecInfinity

/-- The message of a manager is restored exactly when it survives. -/
theorem restored_iff (hm : m.Valid) :
    m.Restored ↔ ∀ x, m.wallMessage = some x → m.MessageSurvives x := by
  unfold Restored
  cases hwall : m.wallMessage with
  | none =>
    have hnone : m.escapedMessage = none := by simp [escapedMessage, hwall]
    rw [updateScheduleFile_none hnone, managerLoadScheduledShutdown_eq hm (by simp)]
    simp
  | some x =>
    cases x with
    | nil =>
      have hnone : m.escapedMessage = none := by simp [escapedMessage, hwall]
      rw [updateScheduleFile_none hnone, managerLoadScheduledShutdown_eq hm (by simp)]
      constructor
      · intro h
        simp at h
      · intro h
        exact absurd rfl (h [] rfl).text.ne_nil
    | cons c x =>
      have hsome : m.escapedMessage = some (xescape (c :: x) [space]) := by
        simp [escapedMessage, hwall]
      cases hlong : serializable (ascii "WALL_MESSAGE") (xescape (c :: x) [space]) with
      | false =>
        rw [updateScheduleFile_long hsome hlong]
        constructor
        · intro h
          cases h
        · intro h
          have hsurvives := h (c :: x) rfl
          rw [xescape_of_plain hsurvives.text.chars, hsurvives.short] at hlong
          cases hlong
      | true =>
        rw [updateScheduleFile_some hsome hlong]
        cases hc : isQuote c with
        | true =>
          constructor
          · intro h
            refine absurd ?_ (managerLoadScheduledShutdown_quote hm hc x)
            simpa [allEntries, line] using h
          · intro h
            have hfirst := (h (c :: x) rfl).text.first c rfl
            rw [hc] at hfirst
            cases hfirst
        | false =>
          rw [managerLoadScheduledShutdown_eq hm (lineText_some (lineText_xescape hc x))]
          by_cases hinf : m.timeout = usecInfinity
          · rw [if_pos hinf]
            constructor
            · intro h
              cases h
            · intro h
              exact absurd hinf (h (c :: x) rfl).timeout
          · rw [if_neg hinf, Option.bind_some, cunescape_readBack_xescape_iff hc]
            constructor
            · intro h y hy
              cases hy
              refine ⟨h, ?_, hinf⟩
              rwa [xescape_of_plain h.chars] at hlong
            · intro h
              exact (h (c :: x) rfl).text

end ScheduleRecord

/-! ## Which texts survive -/

/-- A text survives `cescape` and the file exactly when it is printable and has no
    backslash; it survives `serialize_item_escaped` exactly when nothing in it has to
    be escaped and it starts with no quote.  The texts of inhibitors and the message
    of a scheduled shutdown are restored accordingly. -/
theorem escapedTexts_survive_iff {k : Bytes} (hk : EnvKey k) (x : Bytes) (i : InhibitorRecord)
    {m : ScheduleRecord} (hm : m.Valid) :
    (unescapedLine k (cescape x) = some x ↔ PrintableText x ∧ backslash ∉ x) ∧
    (unescapedLine k (xescape x [space]) = some x ↔ UnquotedText x) ∧
    (i.Restored ↔
      (∀ x, i.who = some x → PrintableText x ∧ backslash ∉ x) ∧
        ∀ x, i.why = some x → PrintableText x ∧ backslash ∉ x) ∧
    (m.Restored ↔ ∀ x, m.wallMessage = some x → m.MessageSurvives x) :=
  ⟨unescapedLine_cescape_iff hk x, unescapedLine_xescape_iff hk x, i.restored_iff,
    ScheduleRecord.restored_iff hm⟩

/-- An inhibitor and a message that are restored. -/
theorem escapedTexts_survive_backup :
    (⟨1, .shutdown, .block, 0, 1, some (ascii "backup"), some (ascii "writing tapes"), true⟩ :
      InhibitorRecord).Restored ∧
    (⟨1000, true, .reboot, 0, some (ascii "tty1"), some (ascii "rebooting")⟩ :
      ScheduleRecord).Restored := by
  have hkey := envKey_of_mem [ascii "WHO"] (by decide) (mem_singleton_self _)
  have hvalid : (⟨1000, true, .reboot, 0, some (ascii "tty1"), some (ascii "rebooting")⟩ :
      ScheduleRecord).Valid := by
    refine ⟨by decide, ?_⟩
    intro tty htty
    cases htty
    exact .of_word (by decide) (by decide)
  obtain ⟨-, -, hinhibitor, hschedule⟩ := escapedTexts_survive_iff hkey (ascii "backup")
    ⟨1, .shutdown, .block, 0, 1, some (ascii "backup"), some (ascii "writing tapes"), true⟩ hvalid
  have hwords : ∀ w : Bytes, w ≠ [] → w.all isPrintable = true → w.head? ≠ some space →
      w.getLast? ≠ some space → PrintableText w := fun w hne hall hfirst hlast =>
    ⟨hne, all_eq_true.mp hall, hfirst, hlast⟩
  constructor
  · refine hinhibitor.mpr ⟨?_, ?_⟩
    · intro x hx
      cases hx
      exact ⟨hwords _ (by decide) (by decide) (by decide) (by decide), by decide⟩
    · intro x hx
      cases hx
      exact ⟨hwords _ (by decide) (by decide) (by decide) (by decide), by decide⟩
  · refine hschedule.mpr ?_
    intro x hx
    cases hx
    have hall : (ascii "rebooting").all (fun c => !isSpecial c) = true := by decide
    refine ⟨⟨by decide, ?_, ?_⟩, by decide, by decide⟩
    · intro c hc
      simpa using all_eq_true.mp hall c hc
    · intro c hc
      cases hc
      decide

/-- The bytes of an accented letter in the name of an inhibitor do not survive, and
    neither does the space between two words of a message. -/
theorem escapedTexts_do_not_survive :
    unescapedLine (ascii "WHO") (cescape [0xc3, 0xa9]) ≠ some [0xc3, 0xa9] ∧
    ¬ (⟨1, .shutdown, .block, 0, 1, some [0xc3, 0xa9], some (ascii "tapes"), true⟩ :
      InhibitorRecord).Restored ∧
    ¬ (⟨1000, true, .reboot, 0, none, some (ascii "see you")⟩ : ScheduleRecord).Restored := by
  have haccent : ¬ PrintableText [0xc3, 0xa9] := fun h => by
    have hc := h.chars 0xc3 (by simp)
    revert hc
    decide
  refine ⟨?_, ?_, ?_⟩
  · intro h
    have hkey := envKey_of_mem [ascii "WHO"] (by decide) (mem_singleton_self _)
    exact haccent ((unescapedLine_cescape_iff hkey _).mp h).1
  · intro h
    exact haccent (((InhibitorRecord.restored_iff _).mp h).1 _ rfl).1
  · intro h
    have hvalid : (⟨1000, true, .reboot, 0, none, some (ascii "see you")⟩ :
        ScheduleRecord).Valid := ⟨by decide, fun tty htty => (nomatch htty)⟩
    have hchars := (((ScheduleRecord.restored_iff hvalid).mp h) _ rfl).text.chars space (by decide)
    revert hchars
    decide

end Elogind
