/-
  Elogind.Login.Brightness

  The writer of brightness attributes (logind-brightness.c).

  Writing such an attribute is slow, and so it is done in a child process.  A
  device has at most one writer.  The messages in `current_messages` wait for
  its child; requests that come in the meantime are put into
  `pending_messages`, and their value is written by the next child.

  The manager also has a history here, which says what has been asked for, what
  the children have done and what has been answered.  Nothing reads it.  A reply
  that cannot be sent is only logged, so that "answered" means that the reply
  has been handed to the bus.
-/

import Elogind.Basic.Bytes
import Elogind.Basic.Errno
import Elogind.Lib.History
import Elogind.Lib.Run

namespace Elogind

open Function Lib List

/-! ## Data -/

/-- A method call on the bus. -/
structure Message where
  id : Nat
  expectReply : Bool
  deriving DecidableEq, Repr

/-- `BrightnessWriter`.  A child is a number that is never used twice. -/
structure BrightnessWriter where
  child : Option Nat
  brightness : UInt32
  again : Bool
  currentMessages : List Message
  pendingMessages : List Message
  deriving DecidableEq, Repr

/-- An entry of the history. -/
inductive BrightnessEntry where
  /-- `manager_write_brightness` is called. -/
  | received (path : Bytes) (brightness : UInt32) (message : Message)
  /-- The writer of the device has the value.  Only a request for which there is
      no memory is refused before that. -/
  | taken (path : Bytes) (brightness : UInt32)
  /-- `manager_write_brightness` fails, and the bus answers with the error. -/
  | refused (message : Message) (error : Errno)
  | forked (path : Bytes) (child : Nat) (brightness : UInt32)
  | forkFailed (path : Bytes) (brightness : UInt32)
  | exited (path : Bytes) (child : Nat)
  /-- A reply, with an error number unless it reports success. -/
  | answered (message : Message) (error : Option Errno)
  deriving DecidableEq, Repr

/-- The writers by the path of their device, and the history. -/
structure BrightnessManager where
  brightnessWriters : Bytes → Option BrightnessWriter
  children : Nat
  history : List BrightnessEntry

/-- What becomes of `safe_fork` and `sd_event_add_child`. -/
inductive ForkAnswer where
  | failed (e : Errno)
  /-- There is a child, but it cannot be watched. -/
  | unwatched (e : Errno)
  | watched
  deriving DecidableEq, Repr

/-- The answers one call of `manager_write_brightness` gets. -/
structure BrightnessEnv where
  /-- `sd_device_get_syspath` -/
  syspath : Result Unit
  /-- Memory for a new writer and its path. -/
  alloc : Bool
  putWriter : Result Unit
  /-- `sd_bus_message_get_expect_reply` and memory for the message. -/
  addMessage : Result Unit
  fork : ForkAnswer

/-- There is all that a writer needs to take the value of a request. -/
def BrightnessEnv.grants (env : BrightnessEnv) : Bool :=
  env.syspath.isOk && env.alloc && env.putWriter.isOk && env.addMessage.isOk

namespace BrightnessManager

def init : BrightnessManager where
  brightnessWriters := fun _ => none
  children := 0
  history := []

/-! ## Functions -/

/-- The history goes on. -/
def record (m : BrightnessManager) (entries : List BrightnessEntry) : BrightnessManager :=
  { m with history := m.history ++ entries }

/-- The writer of a device, or that there is none. -/
def putWriter (m : BrightnessManager) (path : Bytes) (w : Option BrightnessWriter) :
    BrightnessManager :=
  { m with brightnessWriters := update m.brightnessWriters path w }

/-- `set_add_message` -/
def setAddMessage (answer : Result Unit) (set : List Message) (message : Message) :
    Result (List Message) :=
  match answer with
  | .error e => .error e
  | .ok _ =>
    if !message.expectReply then .ok set
    else if message ∈ set then .ok set
    else .ok (message :: set)

/-- `brightness_writer_reply` -/
def brightnessWriterReply (m : BrightnessManager) (w : BrightnessWriter) (error : Option Errno) :
    BrightnessManager × BrightnessWriter :=
  (m.record (w.currentMessages.map fun message => .answered message error),
    { w with currentMessages := [] })

/-- `brightness_writer_fork`; the child writes the value the writer has now. -/
def brightnessWriterFork (answer : ForkAnswer) (m : BrightnessManager) (path : Bytes)
    (w : BrightnessWriter) : Result Unit × BrightnessManager × BrightnessWriter :=
  let child : BrightnessManager × BrightnessWriter :=
    ({ m with children := m.children + 1 }.record [.forked path m.children w.brightness],
      { w with child := some m.children })
  match answer with
  | .failed e => (.error e, m.record [.forkFailed path w.brightness], w)
  | .unwatched e => (.error e, child)
  | .watched => (.ok (), child)

/-- `on_brightness_writer_exit`; `success` says that the child has exited with
    `EXIT_SUCCESS`. -/
def onBrightnessWriterExit (answer : ForkAnswer) (m : BrightnessManager) (path : Bytes)
    (w : BrightnessWriter) (success : Bool) : BrightnessManager :=
  let m := m.record (w.child.toList.map (.exited path))
  let w := { w with child := none }
  let (m, w) := m.brightnessWriterReply w (if success then none else some .EPROTO)
  if w.again then
    let w :=
      { w with again := false, currentMessages := w.pendingMessages, pendingMessages := [] }
    match brightnessWriterFork answer m path w with
    | (.ok _, m, w) => m.putWriter path (some w)
    | (.error e, m, w) => (m.brightnessWriterReply w (some e)).1.putWriter path none
  else m.putWriter path none

/-- `manager_write_brightness` for a device that has a writer. -/
def brightnessWriterAppend (env : BrightnessEnv) (m : BrightnessManager) (path : Bytes)
    (existing : BrightnessWriter) (brightness : UInt32) (message : Message) :
    Result Unit × BrightnessManager :=
  match setAddMessage env.addMessage existing.pendingMessages message with
  | .error e => (.error e, m)
  | .ok pending =>
    (.ok (), (m.record [.taken path brightness]).putWriter path
      (some { existing with brightness := brightness, again := true, pendingMessages := pending }))

/-- `manager_write_brightness` for a device that has no writer.  When it fails the
    writer is freed together with its messages. -/
def brightnessWriterNew (env : BrightnessEnv) (m : BrightnessManager) (path : Bytes)
    (brightness : UInt32) (message : Message) : Result Unit × BrightnessManager :=
  if !env.alloc then (.error .ENOMEM, m)
  else
    match env.putWriter, setAddMessage env.addMessage [] message with
    | .error e, _ => (.error e, m)
    | .ok _, .error e => (.error e, m)
    | .ok _, .ok current =>
      let w : BrightnessWriter :=
        { child := none, brightness := brightness, again := false, currentMessages := current,
          pendingMessages := [] }
      match brightnessWriterFork env.fork (m.record [.taken path brightness]) path w with
      | (.error e, m, _) => (.error e, m)
      | (.ok _, m, w) => (.ok (), m.putWriter path (some w))

/-- `manager_write_brightness` -/
def managerWriteBrightness (env : BrightnessEnv) (m : BrightnessManager) (path : Bytes)
    (brightness : UInt32) (message : Message) : Result Unit × BrightnessManager :=
  match env.syspath with
  | .error e => (.error e, m)
  | .ok _ =>
    match m.brightnessWriters path with
    | some existing => m.brightnessWriterAppend env path existing brightness message
    | none => m.brightnessWriterNew env path brightness message

/-- `method_set_brightness`, after its checks. -/
def methodSetBrightness (env : BrightnessEnv) (m : BrightnessManager) (path : Bytes)
    (brightness : UInt32) (message : Message) : BrightnessManager :=
  match (m.record [.received path brightness message]).managerWriteBrightness env path brightness
    message with
  | (.ok _, m) => m
  | (.error e, m) => m.record [.refused message e]

/-- The event loop finds that the child of a writer has exited. -/
def exit (m : BrightnessManager) (path : Bytes) (answer : ForkAnswer) (success : Bool) :
    BrightnessManager :=
  match m.brightnessWriters path with
  | none => m
  | some w => m.onBrightnessWriterExit answer path w success

end BrightnessManager

/-! ## Reading the history -/

namespace BrightnessEntry

/-- The entry is the answer to a message. -/
def answers (message : Message) : BrightnessEntry → Bool
  | .answered m _ => m = message
  | .refused m _ => m = message
  | _ => false

/-- The value a request for the device has brought to its writer. -/
def takenValue (path : Bytes) : BrightnessEntry → Option UInt32
  | .taken p v => if p = path then some v else none
  | _ => none

/-- The value for which a child of the device has been forked, or could not be. -/
def attemptValue (path : Bytes) : BrightnessEntry → Option UInt32
  | .forked p _ v => if p = path then some v else none
  | .forkFailed p v => if p = path then some v else none
  | _ => none

/-- The request that was received. -/
def request : BrightnessEntry → Option (Bytes × UInt32 × Message)
  | .received path v message => some (path, v, message)
  | _ => none

/-- The value that was taken, for whichever device. -/
def value : BrightnessEntry → Option (Bytes × UInt32)
  | .taken path v => some (path, v)
  | _ => none

/-- A child of the device has been forked after the message was received. -/
def Waited (past : List BrightnessEntry) (path : Bytes) (message : Message) (child : Nat)
    (rest : List BrightnessEntry) : Prop :=
  ∃ before between v v', past =
    before ++ .received path v message :: (between ++ .forked path child v' :: rest)

/-- What must have happened before an entry: before success is reported, a child
    forked at the time of the request or later has exited; and a child is forked
    for the value that was brought to the writer last. -/
def Earned (past : List BrightnessEntry) : BrightnessEntry → Prop
  | .answered message none =>
    ∃ path child rest, Waited past path message child rest ∧ .exited path child ∈ rest
  | .forked path _ v => latest (takenValue path) past = some v
  | .forkFailed path v => latest (takenValue path) past = some v
  | _ => True

end BrightnessEntry

namespace BrightnessManager

open BrightnessEntry

/-- How often a message has been answered. -/
def answers (m : BrightnessManager) (message : Message) : Nat :=
  m.history.countP (·.answers message)

/-- The messages that wait for the child of a device. -/
def current (m : BrightnessManager) (path : Bytes) : List Message :=
  (m.brightnessWriters path).elim [] BrightnessWriter.currentMessages

/-- The messages that wait for the next child of a device. -/
def pending (m : BrightnessManager) (path : Bytes) : List Message :=
  (m.brightnessWriters path).elim [] BrightnessWriter.pendingMessages

/-- Where a message can be. -/
inductive Place where
  | current
  | pending
  | answered
  deriving DecidableEq, Repr

def InPlace (m : BrightnessManager) (path : Bytes) (message : Message) : Place → Prop
  | .current => message ∈ m.current path
  | .pending => message ∈ m.pending path
  | .answered => 0 < m.answers message

/-- The writer of the device has a value for which no child has been forked. -/
def Owes (m : BrightnessManager) (path : Bytes) : Prop :=
  ∃ w, m.brightnessWriters path = some w ∧ w.again = true

/-- What the writers promise about the messages they have got. -/
structure Kept (m : BrightnessManager) : Prop where
  place : ∀ path v message, .received path v message ∈ m.history → message.expectReply = true →
    ∃! place, m.InPlace path message place
  once : ∀ message, m.answers message ≤ 1
  /-- Two children later at the latest there is an answer. -/
  served : ∀ path v message, .received path v message ∈ m.history → message.expectReply = true →
    ∀ answer success answer' success',
      ((m.exit path answer success).exit path answer' success').answers message = 1
  earned : Justified Earned m.history
  /-- Either a further child is due, or the last one that was forked (or could not
      be) was for the value requested last. -/
  written : ∀ path, ¬ m.Owes path →
    latest (attemptValue path) m.history = latest (takenValue path) m.history
  freed : ∀ path, m.brightnessWriters path = none → ∀ v message,
    .received path v message ∈ m.history → message.expectReply = true → m.answers message = 1

/-! ## The outcomes of the two handlers -/

/-- The messages one more request leaves in a set. -/
def withMessage (message : Message) (set : List Message) : List Message :=
  if message.expectReply then message :: set else set

/-- What `manager_write_brightness` has done when it fails: nothing, as something
    was missing, or a child could not be forked or watched. -/
inductive Attempt (env : BrightnessEnv) (m : BrightnessManager) (path : Bytes) (v : UInt32) :
    List BrightnessEntry → Prop where
  | none (hmissing : env.grants = false) : Attempt env m path v []
  | failed (h : m.brightnessWriters path = none) :
      Attempt env m path v [.taken path v, .forkFailed path v]
  | unwatched (h : m.brightnessWriters path = none) :
      Attempt env m path v [.taken path v, .forked path m.children v]

/-- The outcomes of a request. -/
inductive RequestOutcome (env : BrightnessEnv) (m : BrightnessManager) (path : Bytes) (v : UInt32)
    (message : Message) : BrightnessManager → Prop where
  | refused {m' : BrightnessManager} {entries : List BrightnessEntry} (e : Errno)
      (hentries : Attempt env m path v entries)
      (hwriters : m'.brightnessWriters = m.brightnessWriters)
      (hhistory : m'.history =
        m.history ++ .received path v message :: (entries ++ [.refused message e])) :
      RequestOutcome env m path v message m'
  | appended {m' : BrightnessManager} {w : BrightnessWriter} (hw : m.brightnessWriters path = some w)
      (hwriters : m'.brightnessWriters = update m.brightnessWriters path (some { w with
        brightness := v, again := true
        pendingMessages := withMessage message w.pendingMessages }))
      (hhistory : m'.history = m.history ++ [.received path v message, .taken path v]) :
      RequestOutcome env m path v message m'
  | started {m' : BrightnessManager} (hw : m.brightnessWriters path = none)
      (hwriters : m'.brightnessWriters = update m.brightnessWriters path (some
        { child := some m.children, brightness := v, again := false
          currentMessages := withMessage message [], pendingMessages := [] }))
      (hhistory : m'.history = m.history ++
        [.received path v message, .taken path v, .forked path m.children v]) :
      RequestOutcome env m path v message m'

variable {message : Message} {m m' : BrightnessManager} {path : Bytes}
  {entries : List BrightnessEntry} {v : UInt32} {w : BrightnessWriter} {error : Option Errno}
  {env : BrightnessEnv}

theorem setAddMessage_ok {answer : Result Unit} {set set' : List Message} (hfresh : message ∉ set)
    (h : setAddMessage answer set message = .ok set') : set' = withMessage message set := by
  unfold setAddMessage at h
  unfold withMessage
  cases answer with
  | error e => cases h
  | ok _ =>
    cases hreply : message.expectReply with
    | false => simpa [hreply] using h.symm
    | true => simpa [hreply, hfresh] using h.symm

theorem methodSetBrightness_outcome (env : BrightnessEnv) (v : UInt32)
    (hfresh : message ∉ m.pending path) :
    RequestOutcome env m path v message (m.methodSetBrightness env path v message) := by
  unfold methodSetBrightness managerWriteBrightness
  cases hpath : env.syspath with
  | error e =>
    have hmissing : env.grants = false := by simp [BrightnessEnv.grants, hpath, Except.isOk, Except.toBool]
    exact .refused e (.none hmissing) rfl (by simp [record])
  | ok _ =>
    show RequestOutcome env m path v message (match (match m.brightnessWriters path with
      | some existing => brightnessWriterAppend env _ path existing v message
      | none => brightnessWriterNew env _ path v message) with
      | (.ok _, m) => m
      | (.error e, m) => m.record [.refused message e])
    -- a message that cannot be added has not been granted
    have hadded : ∀ {set : List Message} {e : Errno},
        setAddMessage env.addMessage set message = .error e → env.grants = false := by
      intro set e hadd
      unfold setAddMessage at hadd
      cases hmessage : env.addMessage with
      | error e => simp [BrightnessEnv.grants, hmessage, Except.isOk, Except.toBool]
      | ok _ =>
        rw [hmessage] at hadd
        split_ifs at hadd
    cases hw : m.brightnessWriters path with
    | some w =>
      unfold brightnessWriterAppend
      dsimp only
      cases hadd : setAddMessage env.addMessage w.pendingMessages message with
      | error e => exact .refused e (.none (hadded hadd)) rfl (by simp [record])
      | ok set =>
        have hpending : message ∉ w.pendingMessages := by simpa [pending, hw] using hfresh
        rw [setAddMessage_ok hpending hadd]
        exact .appended hw rfl (by simp [record, putWriter])
    | none =>
      unfold brightnessWriterNew
      by_cases halloc : env.alloc = true
      · rw [halloc]
        cases hput : env.putWriter with
        | error e =>
          refine .refused e (.none ?_) rfl (by simp [record])
          simp [BrightnessEnv.grants, hput, Except.isOk, Except.toBool]
        | ok _ =>
          cases hadd : setAddMessage env.addMessage [] message with
          | error e => exact .refused e (.none (hadded hadd)) rfl (by simp [record])
          | ok set =>
            rw [setAddMessage_ok (by simp) hadd]
            unfold brightnessWriterFork
            cases env.fork with
            | failed e => exact .refused e (.failed hw) rfl (by simp [record])
            | unwatched e => exact .refused e (.unwatched hw) rfl (by simp [record])
            | watched => exact .started hw rfl (by simp [record, putWriter])
      · have hno : env.alloc = false := by simpa using halloc
        rw [hno]
        exact .refused .ENOMEM (.none (by simp [BrightnessEnv.grants, hno])) rfl (by simp [record])

/-- The outcomes of the exit of a child. -/
inductive ExitOutcome (m : BrightnessManager) (path : Bytes) (w : BrightnessWriter)
    (error : Option Errno) : BrightnessManager → Prop where
  | done {m' : BrightnessManager} (hagain : w.again = false)
      (hwriters : m'.brightnessWriters = update m.brightnessWriters path none)
      (hhistory : m'.history = m.history ++ w.child.toList.map (.exited path) ++
        w.currentMessages.map (.answered · error)) :
      ExitOutcome m path w error m'
  | next {m' : BrightnessManager} (hagain : w.again = true)
      (hwriters : m'.brightnessWriters = update m.brightnessWriters path (some
        { child := some m.children, brightness := w.brightness, again := false
          currentMessages := w.pendingMessages, pendingMessages := [] }))
      (hhistory : m'.history = m.history ++ w.child.toList.map (.exited path) ++
        w.currentMessages.map (.answered · error) ++ [.forked path m.children w.brightness]) :
      ExitOutcome m path w error m'
  | failed {m' : BrightnessManager} {entry : BrightnessEntry} (e : Errno)
      (hagain : w.again = true)
      (hentry : entry = .forkFailed path w.brightness ∨
        entry = .forked path m.children w.brightness)
      (hwriters : m'.brightnessWriters = update m.brightnessWriters path none)
      (hhistory : m'.history = m.history ++ w.child.toList.map (.exited path) ++
        w.currentMessages.map (.answered · error) ++ [entry] ++
          w.pendingMessages.map (.answered · (some e))) :
      ExitOutcome m path w error m'

theorem onBrightnessWriterExit_outcome (answer : ForkAnswer) (m : BrightnessManager)
    (path : Bytes) (w : BrightnessWriter) (success : Bool) :
    ExitOutcome m path w (if success then none else some .EPROTO)
      (m.onBrightnessWriterExit answer path w success) := by
  unfold onBrightnessWriterExit
  dsimp only [brightnessWriterReply]
  by_cases hagain : w.again = true
  case neg =>
    rw [if_neg hagain]
    exact .done (by simpa using hagain) rfl (by simp [record, putWriter])
  case pos =>
    rw [if_pos hagain]
    unfold brightnessWriterFork
    cases answer with
    | failed e => exact .failed e hagain (.inl rfl) rfl (by simp [record, putWriter])
    | unwatched e => exact .failed e hagain (.inr rfl) rfl (by simp [record, putWriter])
    | watched => exact .next hagain rfl (by simp [record, putWriter])

/-! ## Accounts -/

theorem countP_answered (message : Message) (e : Option Errno) (set : List Message) :
    (set.map (BrightnessEntry.answered · e)).countP (·.answers message) = set.count message := by
  rw [countP_map, count]
  rfl

theorem countP_exited (message : Message) (path : Bytes) (children : List Nat) :
    (children.map (BrightnessEntry.exited path)).countP (·.answers message) = 0 := by
  rw [countP_map, countP_eq_zero]
  intro child _
  simp [BrightnessEntry.answers]

/-- Every message is accounted for: a message that has been received and expects a
    reply is once in a set or once in an answer. -/
structure Accounts (m : BrightnessManager) : Prop where
  heard : ∀ path v message, .received path v message ∈ m.history → message.expectReply = true →
    m.answers message + (m.current path).count message + (m.pending path).count message = 1
  silent : ∀ path v message, .received path v message ∈ m.history → message.expectReply = false →
    m.answers message ≤ 1
  unheard : ∀ message, (∀ path v, .received path v message ∉ m.history) → m.answers message = 0
  waiting : ∀ path message, message ∈ m.current path ∨ message ∈ m.pending path →
    message.expectReply = true ∧ ∃ v, .received path v message ∈ m.history
  single : ∀ path path' v v' message, .received path v message ∈ m.history →
    .received path' v' message ∈ m.history → path = path'

/-- A message that expects no reply, or that no request has brought to the device, is in
    none of its sets. -/
theorem Accounts.not_waiting (h : m.Accounts)
    (hnot : message.expectReply = true → ∀ v, .received path v message ∉ m.history) :
    message ∉ m.current path ∧ message ∉ m.pending path := by
  rw [← not_or]
  intro hin
  obtain ⟨hreply, v, hv⟩ := h.waiting path message hin
  exact hnot hreply v hv

/-- Messages only move from a set of one device to another or to the answers. -/
theorem Accounts.move (h : m.Accounts) (hhistory : m'.history = m.history ++ entries)
    (hreceived : ∀ path v message, .received path v message ∉ entries)
    (hother : ∀ path', path' ≠ path → m'.brightnessWriters path' = m.brightnessWriters path')
    (hcount : ∀ message, entries.countP (·.answers message) +
      (m'.current path).count message + (m'.pending path).count message =
        (m.current path).count message + (m.pending path).count message) : m'.Accounts := by
  have hmem : ∀ path v message,
      .received path v message ∈ m'.history ↔ .received path v message ∈ m.history := by
    intro path v message
    rw [hhistory, mem_append]
    exact or_iff_left (hreceived path v message)
  have hanswers : ∀ message,
      m'.answers message = m.answers message + entries.countP (·.answers message) := by
    intro message
    unfold answers
    rw [hhistory, countP_append]
  -- an answer is given only to messages that were in the sets of this device
  have helsewhere : ∀ path' v message, path' ≠ path → .received path' v message ∈ m.history →
      entries.countP (·.answers message) = 0 := by
    intro path' v message hne hv
    have hnot := h.not_waiting fun _ v' hv' => hne (h.single path' path v v' message hv hv')
    have hsum := hcount message
    rw [count_eq_zero.mpr hnot.1, count_eq_zero.mpr hnot.2] at hsum
    omega
  refine ⟨?_, ?_, ?_, ?_, ?_⟩
  · intro path' v message hv hreply
    have hv := (hmem path' v message).mp hv
    have hold := h.heard path' v message hv hreply
    rw [hanswers]
    by_cases hp : path' = path
    · subst hp
      have hsum := hcount message
      omega
    · have hzero := helsewhere path' v message hp hv
      unfold current pending at hold ⊢
      rw [hother path' hp]
      omega
  · intro path' v message hv hreply
    have hv := (hmem path' v message).mp hv
    have hold := h.silent path' v message hv hreply
    have hnot : message ∉ m.current path ∧ message ∉ m.pending path :=
      h.not_waiting fun hexpected => absurd (hexpected.symm.trans hreply) (by decide)
    have hsum := hcount message
    rw [count_eq_zero.mpr hnot.1, count_eq_zero.mpr hnot.2] at hsum
    rw [hanswers]
    omega
  · intro message hfresh
    have hfresh : ∀ path v, .received path v message ∉ m.history := fun path v hv =>
      hfresh path v ((hmem path v message).mpr hv)
    have hnot := h.not_waiting fun _ => hfresh path
    have hsum := hcount message
    rw [count_eq_zero.mpr hnot.1, count_eq_zero.mpr hnot.2] at hsum
    rw [hanswers, h.unheard message hfresh]
    omega
  · intro path' message hin
    by_cases hp : path' = path
    · subst hp
      have hpos : 0 < (m'.current path').count message + (m'.pending path').count message := by
        rcases hin with hin | hin
        · exact Nat.add_pos_left (count_pos_iff.mpr hin) _
        · exact Nat.add_pos_right _ (count_pos_iff.mpr hin)
      have hsum := hcount message
      have hold : message ∈ m.current path' ∨ message ∈ m.pending path' := by
        rw [← count_pos_iff, ← count_pos_iff]
        omega
      obtain ⟨hreply, v, hv⟩ := h.waiting path' message hold
      exact ⟨hreply, v, (hmem path' v message).mpr hv⟩
    · unfold current pending at hin
      rw [hother path' hp] at hin
      obtain ⟨hreply, v, hv⟩ := h.waiting path' message hin
      exact ⟨hreply, v, (hmem path' v message).mpr hv⟩
  · intro path' path'' v v' message hv hv'
    exact h.single path' path'' v v' message ((hmem path' v message).mp hv)
      ((hmem path'' v' message).mp hv')

/-- A new message is put into a set of its device or answered at once. -/
theorem Accounts.receive (h : m.Accounts) (hfresh : ∀ path v, .received path v message ∉ m.history)
    (hhistory : m'.history = m.history ++ .received path v message :: entries)
    (hreceived : ∀ path v message, .received path v message ∉ entries)
    (hother : ∀ path', path' ≠ path → m'.brightnessWriters path' = m.brightnessWriters path')
    (hothers : ∀ message', message' ≠ message → entries.countP (·.answers message') = 0 ∧
      (m'.current path).count message' = (m.current path).count message' ∧
      (m'.pending path).count message' = (m.pending path).count message')
    (hone : entries.countP (·.answers message) ≤ 1)
    (hcount : message.expectReply = true → entries.countP (·.answers message) +
      (m'.current path).count message + (m'.pending path).count message = 1)
    (hnone : message.expectReply = false → message ∉ m'.current path ∧ message ∉ m'.pending path) :
    m'.Accounts := by
  have hmem : ∀ path' v' message', .received path' v' message' ∈ m'.history ↔
      .received path' v' message' ∈ m.history ∨ path' = path ∧ v' = v ∧ message' = message := by
    intro path' v' message'
    rw [hhistory, mem_append, mem_cons]
    simp [hreceived path' v' message']
  have hanswers : ∀ message',
      m'.answers message' = m.answers message' + entries.countP (·.answers message') := by
    intro message'
    unfold answers
    rw [hhistory, countP_append, countP_cons]
    simp [BrightnessEntry.answers]
  have hne : ∀ {path' v' message'}, .received path' v' message' ∈ m.history →
      message' ≠ message := by
    rintro path' v' message' hv rfl
    exact hfresh path' v' hv
  have hzero := h.unheard message hfresh
  -- the fields of `Accounts`, each for the new message and for the old ones
  refine ⟨?_, ?_, ?_, ?_, ?_⟩
  · intro path' v' message' hv hreply
    rw [hanswers]
    rcases (hmem path' v' message').mp hv with hv | ⟨rfl, rfl, rfl⟩
    · have hold := h.heard path' v' message' hv hreply
      obtain ⟨hno, hcur, hpen⟩ := hothers message' (hne hv)
      by_cases hp : path' = path
      · subst hp
        omega
      · -- only the sets of the device of the new message differ
        unfold current pending at hold ⊢
        rw [hother path' hp]
        omega
    · have hsum := hcount hreply
      omega
  · intro path' v' message' hv hreply
    rw [hanswers]
    rcases (hmem path' v' message').mp hv with hv | ⟨rfl, rfl, rfl⟩
    · have hold := h.silent path' v' message' hv hreply
      have hno := (hothers message' (hne hv)).1
      omega
    · omega
  · intro message' hnever
    have hnot : message' ≠ message := by
      rintro rfl
      exact hnever path v ((hmem path v message').mpr (.inr ⟨rfl, rfl, rfl⟩))
    have hold := h.unheard message' fun path' v' hv =>
      hnever path' v' ((hmem path' v' message').mpr (.inl hv))
    rw [hanswers, hold, (hothers message' hnot).1]
  · intro path' message' hin
    by_cases hp : path' = path
    · subst hp
      by_cases hm : message' = message
      · subst hm
        have hreply : message'.expectReply = true := by
          by_contra hreply
          obtain ⟨hcur, hpen⟩ := hnone (by simpa using hreply)
          rcases hin with hin | hin
          · exact hcur hin
          · exact hpen hin
        exact ⟨hreply, v, (hmem path' v message').mpr (.inr ⟨rfl, rfl, rfl⟩)⟩
      · obtain ⟨-, hcur, hpen⟩ := hothers message' hm
        have hold : message' ∈ m.current path' ∨ message' ∈ m.pending path' := by
          rw [← count_pos_iff, ← count_pos_iff] at hin ⊢
          omega
        obtain ⟨hreply, v', hv'⟩ := h.waiting path' message' hold
        exact ⟨hreply, v', (hmem path' v' message').mpr (.inl hv')⟩
    · unfold current pending at hin
      rw [hother path' hp] at hin
      obtain ⟨hreply, v', hv'⟩ := h.waiting path' message' hin
      exact ⟨hreply, v', (hmem path' v' message').mpr (.inl hv')⟩
  · intro path₁ path₂ v₁ v₂ message' h₁ h₂
    rcases (hmem path₁ v₁ message').mp h₁ with h₁ | ⟨rfl, rfl, rfl⟩
    · rcases (hmem path₂ v₂ message').mp h₂ with h₂ | ⟨rfl, rfl, rfl⟩
      · exact h.single path₁ path₂ v₁ v₂ message' h₁ h₂
      · exact absurd h₁ (hfresh path₁ v₁)
    · rcases (hmem path₂ v₂ message').mp h₂ with h₂ | ⟨rfl, rfl, -⟩
      · exact absurd h₂ (hfresh path₂ v₂)
      · rfl

theorem count_withMessage_of_ne {message' : Message} (h : message' ≠ message) (set : List Message) :
    (withMessage message set).count message' = set.count message' := by
  unfold withMessage
  split
  · rw [count_cons_of_ne (Ne.symm h)]
  · rfl

theorem Accounts.request (h : m.Accounts) (hfresh : ∀ path v, .received path v message ∉ m.history)
    (hout : RequestOutcome env m path v message m') : m'.Accounts := by
  have hnot := h.not_waiting fun _ => hfresh path
  cases hout with
  | @refused entries e hentries hwriters hhistory =>
    have hcount : ∀ message', (entries ++ [BrightnessEntry.refused message e]).countP
        (·.answers message') = if message = message' then 1 else 0 := by
      intro message'
      cases hentries <;> by_cases hm : message = message' <;>
        simp [BrightnessEntry.answers, hm]
    have hsame : m'.current path = m.current path ∧ m'.pending path = m.pending path := by
      unfold current pending
      rw [hwriters]
      exact ⟨rfl, rfl⟩
    refine h.receive hfresh hhistory ?_ (fun path' _ => congrFun hwriters path') ?_ ?_ ?_ ?_
    · intro path' v' message'
      cases hentries <;> simp
    · intro message' hne
      rw [hcount, if_neg (Ne.symm hne), hsame.1, hsame.2]
      exact ⟨rfl, rfl, rfl⟩
    · exact Nat.le_of_eq ((hcount message).trans (if_pos rfl))
    · intro _
      rw [hcount, if_pos rfl, hsame.1, hsame.2, count_eq_zero.mpr hnot.1,
        count_eq_zero.mpr hnot.2]
    · intro _
      rw [hsame.1, hsame.2]
      exact hnot
  | @appended w hw hwriters hhistory =>
    have hcur : m'.current path = m.current path := by simp [current, hwriters, hw]
    have hpen : m'.pending path = withMessage message (m.pending path) := by
      simp [pending, hwriters, hw]
    refine h.receive hfresh hhistory (by simp) ?_ ?_ (by simp [BrightnessEntry.answers]) ?_ ?_
    · intro path' hne
      rw [hwriters, update_of_ne hne]
    · intro message' hne
      rw [hcur, hpen, count_withMessage_of_ne hne]
      exact ⟨by simp [BrightnessEntry.answers], rfl, rfl⟩
    · intro hreply
      rw [hcur, hpen, count_eq_zero.mpr hnot.1, withMessage, if_pos hreply,
        count_cons_self, count_eq_zero.mpr hnot.2]
      simp [BrightnessEntry.answers]
    · intro hreply
      rw [hcur, hpen, withMessage, if_neg (by simp [hreply])]
      exact hnot
  | started hw hwriters hhistory =>
    have hold : m.current path = [] ∧ m.pending path = [] := by simp [current, pending, hw]
    have hcur : m'.current path = withMessage message [] := by simp [current, hwriters]
    have hpen : m'.pending path = [] := by simp [pending, hwriters]
    refine h.receive hfresh hhistory (by simp) ?_ ?_ (by simp [BrightnessEntry.answers]) ?_ ?_
    · intro path' hne
      rw [hwriters, update_of_ne hne]
    · intro message' hne
      rw [hcur, hpen, hold.1, hold.2, count_withMessage_of_ne hne]
      exact ⟨by simp [BrightnessEntry.answers], rfl, rfl⟩
    · intro hreply
      rw [hcur, hpen, withMessage, if_pos hreply, count_cons_self]
      simp [BrightnessEntry.answers]
    · intro hreply
      rw [hcur, hpen, withMessage, if_neg (by simp [hreply])]
      simp

theorem Accounts.exited (h : m.Accounts) (hw : m.brightnessWriters path = some w)
    (hpending : w.again = false → w.pendingMessages = []) (hout : ExitOutcome m path w error m') :
    m'.Accounts := by
  have hcur : m.current path = w.currentMessages := by simp [current, hw]
  have hpen : m.pending path = w.pendingMessages := by simp [pending, hw]
  have hother : ∀ {w' path'}, path' ≠ path →
      update m.brightnessWriters path w' path' = m.brightnessWriters path' := fun hne =>
    update_of_ne hne ..
  cases hout with
  | done hagain hwriters hhistory =>
    rw [append_assoc] at hhistory
    refine h.move hhistory (by simp) (fun path' hne => hwriters ▸ hother hne) ?_
    intro message
    rw [countP_append, countP_exited, countP_answered, hcur, hpen, hpending hagain]
    simp [current, pending, hwriters]
  | next hagain hwriters hhistory =>
    rw [append_assoc, append_assoc] at hhistory
    refine h.move hhistory (by simp) (fun path' hne => hwriters ▸ hother hne) ?_
    intro message
    rw [countP_append, countP_exited, countP_append, countP_answered, hcur, hpen]
    simp [current, pending, hwriters, BrightnessEntry.answers]
  | @failed entry e hagain hentry hwriters hhistory =>
    rw [append_assoc, append_assoc, append_assoc] at hhistory
    have hzero : ∀ message, entry.answers message = false := by
      intro message
      rcases hentry with rfl | rfl <;> rfl
    refine h.move hhistory ?_ (fun path' hne => hwriters ▸ hother hne) ?_
    · intro path' v message
      rcases hentry with rfl | rfl <;> simp
    · intro message
      rw [countP_append, countP_exited, countP_append, countP_answered,
        countP_append, countP_answered, hcur, hpen]
      simp [current, pending, hwriters, hzero]

/-! ## Values and children -/

/-- The entry is no request or child of another device. -/
def OfDevice (path : Bytes) (entry : BrightnessEntry) : Prop :=
  ∀ path', path' ≠ path → takenValue path' entry = none ∧ attemptValue path' entry = none

theorem latest_of_ofDevice {path' : Bytes} (history : List BrightnessEntry)
    (hentries : ∀ entry ∈ entries, OfDevice path entry) (hne : path' ≠ path) :
    latest (takenValue path') (history ++ entries) = latest (takenValue path') history ∧
      latest (attemptValue path') (history ++ entries) = latest (attemptValue path') history := by
  constructor
  · exact latest_append_none fun entry hentry => (hentries entry hentry path' hne).1
  · exact latest_append_none fun entry hentry => (hentries entry hentry path' hne).2

/-- Entries about messages and ends of children bring no values. -/
theorem latest_replies (path : Bytes) (history : List BrightnessEntry) (children : List Nat)
    (set : List Message) (error : Option Errno) :
    latest (takenValue path) (history ++ children.map (.exited path) ++
        set.map (.answered · error)) = latest (takenValue path) history ∧
      latest (attemptValue path) (history ++ children.map (.exited path) ++
        set.map (.answered · error)) = latest (attemptValue path) history := by
  rw [append_assoc]
  constructor
  · apply latest_append_none
    intro entry hentry
    simp only [mem_append, mem_map] at hentry
    rcases hentry with ⟨_, _, rfl⟩ | ⟨_, _, rfl⟩ <;> rfl
  · apply latest_append_none
    intro entry hentry
    simp only [mem_append, mem_map] at hentry
    rcases hentry with ⟨_, _, rfl⟩ | ⟨_, _, rfl⟩ <;> rfl

theorem waited_append {past : List BrightnessEntry} {child : Nat} {rest : List BrightnessEntry}
    (h : Waited past path message child rest) (entries : List BrightnessEntry) :
    Waited (past ++ entries) path message child (rest ++ entries) := by
  obtain ⟨before, between, v, v', rfl⟩ := h
  exact ⟨before, between, v, v', by simp⟩

theorem waited_of_received {past : List BrightnessEntry} (h : .received path v message ∈ past)
    (child : Nat) (v' : UInt32) : Waited (past ++ [.forked path child v']) path message child [] := by
  obtain ⟨before, between, rfl⟩ := append_of_mem h
  exact ⟨before, between, v, v', by simp⟩

/-- A writer and the history of its device. -/
structure WriterSound (history : List BrightnessEntry) (path : Bytes) (w : BrightnessWriter) :
    Prop where
  child : ∃ child, w.child = some child ∧
    ∀ message ∈ w.currentMessages, ∃ rest, Waited history path message child rest
  pending : w.again = false → w.pendingMessages = []
  taken : latest (takenValue path) history = some w.brightness
  attempt : w.again = false → latest (attemptValue path) history = some w.brightness

/-- All writers, and the devices that have none. -/
structure Sound (m : BrightnessManager) : Prop where
  writer : ∀ path w, m.brightnessWriters path = some w → WriterSound m.history path w
  noWriter : ∀ path, m.brightnessWriters path = none →
    latest (attemptValue path) m.history = latest (takenValue path) m.history

theorem WriterSound.append {history : List BrightnessEntry} (h : WriterSound history path w)
    (htaken : latest (takenValue path) (history ++ entries) = latest (takenValue path) history)
    (hattempt : latest (attemptValue path) (history ++ entries) = latest (attemptValue path) history) :
    WriterSound (history ++ entries) path w := by
  obtain ⟨child, hchild, hwaited⟩ := h.child
  refine ⟨⟨child, hchild, ?_⟩, h.pending, htaken.trans h.taken, fun ha =>
    hattempt.trans (h.attempt ha)⟩
  intro message hm
  obtain ⟨rest, hrest⟩ := hwaited message hm
  exact ⟨rest ++ entries, waited_append hrest entries⟩

/-- Only the device the entries are about has to be looked at. -/
theorem Sound.change (h : m.Sound) (path : Bytes) (hhistory : m'.history = m.history ++ entries)
    (hentries : ∀ entry ∈ entries, OfDevice path entry)
    (hother : ∀ path', path' ≠ path → m'.brightnessWriters path' = m.brightnessWriters path')
    (hwriter : ∀ w, m'.brightnessWriters path = some w → WriterSound (m.history ++ entries) path w)
    (hnone : m'.brightnessWriters path = none →
      latest (attemptValue path) (m.history ++ entries) =
        latest (takenValue path) (m.history ++ entries)) : m'.Sound := by
  constructor
  · intro path' w hw
    rw [hhistory]
    by_cases hp : path' = path
    · subst hp
      exact hwriter w hw
    · rw [hother path' hp] at hw
      obtain ⟨htaken, hattempt⟩ := latest_of_ofDevice m.history hentries hp
      exact (h.writer path' w hw).append htaken hattempt
  · intro path' hw
    rw [hhistory]
    by_cases hp : path' = path
    · subst hp
      exact hnone hw
    · rw [hother path' hp] at hw
      obtain ⟨htaken, hattempt⟩ := latest_of_ofDevice m.history hentries hp
      rw [htaken, hattempt]
      exact h.noWriter path' hw

@[simp] theorem ofDevice_received (path : Bytes) (v : UInt32) (message : Message) :
    OfDevice path (.received path v message) := fun _ _ => ⟨rfl, rfl⟩

@[simp] theorem ofDevice_taken (path : Bytes) (v : UInt32) : OfDevice path (.taken path v) :=
  fun _ hne => ⟨if_neg (Ne.symm hne), rfl⟩

@[simp] theorem ofDevice_forked (path : Bytes) (child : Nat) (v : UInt32) :
    OfDevice path (.forked path child v) := fun _ hne => ⟨rfl, if_neg (Ne.symm hne)⟩

@[simp] theorem ofDevice_forkFailed (path : Bytes) (v : UInt32) : OfDevice path (.forkFailed path v) :=
  fun _ hne => ⟨rfl, if_neg (Ne.symm hne)⟩

@[simp] theorem ofDevice_refused (path : Bytes) (message : Message) (e : Errno) :
    OfDevice path (.refused message e) := fun _ _ => ⟨rfl, rfl⟩

theorem ofDevice_replies (path : Bytes) (children : List Nat) (set : List Message)
    (error : Option Errno) :
    ∀ entry ∈ children.map (.exited path) ++ set.map (.answered · error), OfDevice path entry := by
  intro entry hentry
  simp only [mem_append, mem_map] at hentry
  rcases hentry with ⟨_, _, rfl⟩ | ⟨_, _, rfl⟩
  · exact fun _ _ => ⟨rfl, rfl⟩
  · exact fun _ _ => ⟨rfl, rfl⟩

theorem Sound.request (h : m.Sound) (hout : RequestOutcome env m path v message m') : m'.Sound := by
  cases hout with
  | @refused entries e hentries hwriters hhistory =>
    refine h.change path hhistory ?_ (fun path' _ => congrFun hwriters path') ?_ ?_
    · cases hentries <;> simp
    · intro w hw
      rw [hwriters] at hw
      -- a device that has a writer is not given another one
      cases hentries with
      | none =>
        apply (h.writer path w hw).append
        · simp [latest, takenValue, findSome?]
        · simp [latest, attemptValue, findSome?]
      | failed hnone | unwatched hnone => simp [hnone] at hw
    · intro hw
      rw [hwriters] at hw
      have hold := h.noWriter path hw
      cases hentries with
      | none => simpa [latest, takenValue, attemptValue, findSome?] using hold
      | failed _ | unwatched _ => simp [latest, takenValue, attemptValue, findSome?]
  | @appended w hw hwriters hhistory =>
    refine h.change path hhistory (by simp) (fun path' hne => hwriters ▸ update_of_ne hne ..) ?_ ?_
    · intro w' hw'
      rw [hwriters, update_self] at hw'
      cases hw'
      obtain ⟨child, hchild, hwaited⟩ := (h.writer path w hw).child
      refine ⟨⟨child, hchild, ?_⟩, fun hno => ?_, by simp [latest, takenValue], fun hno => ?_⟩
      · intro message' hm
        obtain ⟨rest, hrest⟩ := hwaited message' hm
        exact ⟨_, waited_append hrest _⟩
      · cases hno
      · cases hno
    · intro hw'
      rw [hwriters, update_self] at hw'
      cases hw'
  | started hw hwriters hhistory =>
    refine h.change path hhistory (by simp) (fun path' hne => hwriters ▸ update_of_ne hne ..) ?_ ?_
    · intro w' hw'
      rw [hwriters, update_self] at hw'
      cases hw'
      refine ⟨⟨m.children, rfl, ?_⟩, fun _ => rfl, by simp [latest, takenValue, findSome?],
        fun _ => by simp [latest, attemptValue]⟩
      intro message' hm
      have heq : message' = message := by
        unfold withMessage at hm
        split at hm
        · exact mem_singleton.mp hm
        · cases hm
      subst heq
      have hin : BrightnessEntry.received path v message' ∈
          m.history ++ [.received path v message', .taken path v] := by simp
      have hwaited := waited_of_received hin m.children v
      exact ⟨[], by simpa using hwaited⟩
    · intro hw'
      rw [hwriters, update_self] at hw'
      cases hw'

theorem Sound.exited (h : m.Sound) (hacc : m.Accounts) (hw : m.brightnessWriters path = some w)
    (hout : ExitOutcome m path w error m') : m'.Sound := by
  have hsound := h.writer path w hw
  have hreplies := latest_replies path m.history w.child.toList w.currentMessages error
  have hofDevice := ofDevice_replies path w.child.toList w.currentMessages error
  cases hout with
  | done hagain hwriters hhistory =>
    -- the writer goes, and nothing is pending
    rw [append_assoc] at hhistory hreplies
    refine h.change path hhistory hofDevice (fun path' hne => hwriters ▸ update_of_ne hne ..) ?_ ?_
    · intro w' hw'
      rw [hwriters, update_self] at hw'
      cases hw'
    · intro _
      rw [hreplies.1, hreplies.2, hsound.taken, hsound.attempt hagain]
  | next hagain hwriters hhistory =>
    -- the next child takes what is pending
    have hhistory' := hhistory
    rw [append_assoc, append_assoc, ← append_assoc (w.child.toList.map _)] at hhistory
    refine h.change path hhistory ?_ (fun path' hne => hwriters ▸ update_of_ne hne ..) ?_ ?_
    · intro entry hentry
      rcases mem_append.mp hentry with hentry | hentry
      · exact hofDevice entry hentry
      · rw [mem_singleton.mp hentry]
        exact ofDevice_forked path _ _
    · intro w' hw'
      rw [hwriters, update_self] at hw'
      cases hw'
      rw [← hhistory, hhistory']
      refine ⟨⟨m.children, rfl, ?_⟩, fun _ => rfl, ?_, fun _ => ?_⟩
      · intro message hm
        obtain ⟨-, v, hv⟩ := hacc.waiting path message (.inr (by simpa [pending, hw] using hm))
        exact ⟨[], waited_of_received (mem_append_left _ (mem_append_left _ hv)) _ _⟩
      · rw [latest_snoc_none rfl, hreplies.1]
        exact hsound.taken
      · exact latest_snoc_some (if_pos rfl)
    · intro hw'
      rw [hwriters, update_self] at hw'
      cases hw'
  | @failed entry e hagain hentry hwriters hhistory =>
    -- no child could be forked: the pending requests fail too
    have hhistory' := hhistory
    rw [append_assoc, append_assoc, append_assoc,
      ← append_assoc (w.child.toList.map _)] at hhistory
    refine h.change path hhistory ?_ (fun path' hne => hwriters ▸ update_of_ne hne ..) ?_ ?_
    · intro x hx
      rcases mem_append.mp hx with hx | hx
      · exact hofDevice x hx
      rcases mem_append.mp hx with hx | hx
      · rw [mem_singleton.mp hx]
        rcases hentry with rfl | rfl
        · exact ofDevice_forkFailed path _
        · exact ofDevice_forked path _ _
      · exact ofDevice_replies path [] w.pendingMessages (some e) x (by simpa using hx)
    · intro w' hw'
      rw [hwriters, update_self] at hw'
      cases hw'
    · intro _
      rw [← hhistory, hhistory']
      obtain ⟨htaken, hattempt⟩ := latest_replies path (m.history ++
        w.child.toList.map (.exited path) ++ w.currentMessages.map (.answered · error) ++ [entry])
        [] w.pendingMessages (some e)
      rw [map_nil, append_nil] at htaken hattempt
      have hvalue : takenValue path entry = none ∧
          attemptValue path entry = some w.brightness := by
        rcases hentry with rfl | rfl
        · exact ⟨rfl, if_pos rfl⟩
        · exact ⟨rfl, if_pos rfl⟩
      rw [htaken, hattempt, latest_snoc_none hvalue.1, latest_snoc_some hvalue.2, hreplies.1,
        hsound.taken]

/-! ## What an entry needs -/

theorem earned_request (h : Justified Earned m.history) (hout : RequestOutcome env m path v message m') :
    Justified Earned m'.history := by
  have hreceived : Justified Earned (m.history ++ [.received path v message]) := h.snoc trivial
  have htaken : Justified Earned (m.history ++ [.received path v message] ++ [.taken path v]) :=
    hreceived.snoc trivial
  have hvalue : latest (takenValue path)
      (m.history ++ [.received path v message] ++ [.taken path v]) = some v :=
    latest_snoc_some (if_pos rfl)
  cases hout with
  | @refused entries e hentries hwriters hhistory =>
    rw [hhistory]
    cases hentries with
    | none => simpa using hreceived.snoc (x := BrightnessEntry.refused message e) trivial
    | failed _ =>
      have hattempt := htaken.snoc (x := BrightnessEntry.forkFailed path v) hvalue
      simpa using hattempt.snoc (x := BrightnessEntry.refused message e) trivial
    | unwatched _ =>
      have hattempt := htaken.snoc (x := BrightnessEntry.forked path m.children v) hvalue
      simpa using hattempt.snoc (x := BrightnessEntry.refused message e) trivial
  | appended hw hwriters hhistory =>
    rw [hhistory]
    simpa using htaken
  | started hw hwriters hhistory =>
    rw [hhistory]
    simpa using htaken.snoc (x := BrightnessEntry.forked path m.children v) hvalue

theorem earned_exited (h : Justified Earned m.history) (hsound : WriterSound m.history path w)
    (hout : ExitOutcome m path w error m') : Justified Earned m'.history := by
  obtain ⟨child, hchild, hwaited⟩ := hsound.child
  -- the messages that are answered have waited for the child that has exited
  have hreplies : Justified Earned (m.history ++ w.child.toList.map (.exited path) ++
      w.currentMessages.map (.answered · error)) := by
    rw [hchild]
    have hexited : Justified Earned (m.history ++ [.exited path child]) := h.snoc trivial
    refine hexited.append ?_
    intro more entry hentry
    obtain ⟨message, hm, rfl⟩ := mem_map.mp hentry
    cases error with
    | some e => trivial
    | none =>
      obtain ⟨rest, hrest⟩ := hwaited message hm
      refine ⟨path, child, rest ++ [.exited path child] ++ more, ?_, by simp⟩
      exact waited_append (waited_append hrest _) more
  have hvalue := (latest_replies path m.history w.child.toList w.currentMessages error).1.trans
    hsound.taken
  cases hout with
  | done hagain hwriters hhistory => exact hhistory ▸ hreplies
  | next hagain hwriters hhistory => exact hhistory ▸ hreplies.snoc hvalue
  | @failed entry e hagain hentry hwriters hhistory =>
    rw [hhistory]
    have hearned : Earned (m.history ++ w.child.toList.map (.exited path) ++
        w.currentMessages.map (.answered · error)) entry := by
      rcases hentry with rfl | rfl
      · exact hvalue
      · exact hvalue
    refine (hreplies.snoc hearned).append ?_
    intro more x hx
    obtain ⟨message, -, rfl⟩ := mem_map.mp hx
    trivial

/-! ## Runs -/

/-- What happens to the writers: a request, or the exit of a child, with the
    answers the handler gets. -/
inductive Event where
  | request (env : BrightnessEnv) (path : Bytes) (brightness : UInt32) (message : Message)
  | exit (path : Bytes) (answer : ForkAnswer) (success : Bool)

/-- A request comes in a message of its own, and a child exits once. -/
def Enabled (m : BrightnessManager) : Event → Prop
  | .request _ _ _ message => ∀ path v, .received path v message ∉ m.history
  | .exit path _ _ => m.brightnessWriters path ≠ none

def step (m : BrightnessManager) : Event → BrightnessManager
  | .request env path brightness message => m.methodSetBrightness env path brightness message
  | .exit path answer success => m.exit path answer success

def Step (m : BrightnessManager) (e : Event) (m' : BrightnessManager) : Prop :=
  m.Enabled e ∧ m' = m.step e

/-- The three parts of the invariant. -/
structure Inv (m : BrightnessManager) : Prop where
  accounts : m.Accounts
  sound : m.Sound
  earned : Justified Earned m.history

theorem Inv.request (h : m.Inv) (env : BrightnessEnv) (path : Bytes) (v : UInt32)
    (hfresh : ∀ path v, .received path v message ∉ m.history) :
    (m.methodSetBrightness env path v message).Inv := by
  have hnot := (h.accounts.not_waiting fun _ => hfresh path).2
  have hout := methodSetBrightness_outcome env v hnot
  exact ⟨h.accounts.request hfresh hout, h.sound.request hout, earned_request h.earned hout⟩

theorem Inv.exit (h : m.Inv) (path : Bytes) (answer : ForkAnswer) (success : Bool) :
    (m.exit path answer success).Inv := by
  unfold BrightnessManager.exit
  cases hw : m.brightnessWriters path with
  | none => exact h
  | some w =>
    have hwriter := h.sound.writer path w hw
    have hout := onBrightnessWriterExit_outcome answer m path w success
    exact ⟨h.accounts.exited hw hwriter.pending hout, h.sound.exited h.accounts hw hout,
      earned_exited h.earned hwriter hout⟩

theorem Inv.step (h : m.Inv) {e : Event} (he : m.Enabled e) : (m.step e).Inv := by
  cases e with
  | request env path v message => exact h.request env path v he
  | exit path answer success => exact h.exit path answer success

theorem exit_cases (m : BrightnessManager) (path : Bytes) (answer : ForkAnswer) (success : Bool) :
    (m.brightnessWriters path = none ∧ m.exit path answer success = m) ∨
      ∃ w error, m.brightnessWriters path = some w ∧
        ExitOutcome m path w error (m.exit path answer success) := by
  unfold BrightnessManager.exit
  cases hw : m.brightnessWriters path with
  | none => exact .inl ⟨rfl, rfl⟩
  | some w => exact .inr ⟨w, _, rfl, onBrightnessWriterExit_outcome answer m path w success⟩

/-- After the exit of a child nothing waits for a later one than the next. -/
theorem pending_exit (m : BrightnessManager) (path : Bytes) (answer : ForkAnswer)
    (success : Bool) : (m.exit path answer success).pending path = [] := by
  obtain ⟨hw, heq⟩ | ⟨w, error, hw, hout⟩ := exit_cases m path answer success
  · simp [heq, pending, hw]
  cases hout with
  | done _ hwriters _ | next _ hwriters _ | failed _ _ _ hwriters _ => simp [pending, hwriters]

/-- When nothing is pending, nothing waits after the exit of a child. -/
theorem current_exit (hpending : m.pending path = []) (answer : ForkAnswer) (success : Bool) :
    (m.exit path answer success).current path = [] := by
  obtain ⟨hw, heq⟩ | ⟨w, error, hw, hout⟩ := exit_cases m path answer success
  · simp [heq, current, hw]
  have hnone : w.pendingMessages = [] := by simpa [pending, hw] using hpending
  cases hout with
  | done _ hwriters _ | failed _ _ _ hwriters _ => simp [current, hwriters]
  | next _ hwriters _ => simp [current, hwriters, hnone]

/-- An exit forgets no request. -/
theorem received_exit {entry : BrightnessEntry} (h : entry ∈ m.history) (path : Bytes)
    (answer : ForkAnswer) (success : Bool) : entry ∈ (m.exit path answer success).history := by
  obtain ⟨-, heq⟩ | ⟨w, error, -, hout⟩ := exit_cases m path answer success
  · rwa [heq]
  cases hout with
  | done _ _ hhistory | next _ _ hhistory | failed _ _ _ _ hhistory => simp [hhistory, h]

theorem Inv.once (h : m.Inv) (message : Message) : m.answers message ≤ 1 := by
  by_cases hheard : ∃ path v, .received path v message ∈ m.history
  · obtain ⟨path, v, hv⟩ := hheard
    cases hreply : message.expectReply with
    | true =>
      have hsum := h.accounts.heard path v message hv hreply
      omega
    | false => exact h.accounts.silent path v message hv hreply
  · rw [h.accounts.unheard message fun path v hv => hheard ⟨path, v, hv⟩]
    exact Nat.zero_le 1

theorem Inv.place (h : m.Inv) (hv : .received path v message ∈ m.history)
    (hreply : message.expectReply = true) : ∃! place, m.InPlace path message place := by
  have hsum := h.accounts.heard path v message hv hreply
  have hplace : ∀ place, m.InPlace path message place ↔ 0 < (match place with
      | .current => (m.current path).count message
      | .pending => (m.pending path).count message
      | .answered => m.answers message) := by
    intro place
    cases place with
    | current | pending => exact count_pos_iff.symm
    | answered => exact Iff.rfl
  have hunique : ∀ place place', m.InPlace path message place → m.InPlace path message place' →
      place' = place := by
    intro place place' hin hin'
    rw [hplace] at hin hin'
    cases place <;> cases place' <;> first | rfl | (dsimp only at hin hin'; omega)
  have hsomewhere : ∃ place, m.InPlace path message place := by
    by_contra hnowhere
    have hnot : ∀ place, ¬ m.InPlace path message place := fun place hin => hnowhere ⟨place, hin⟩
    simp only [hplace] at hnot
    have hcurrent := hnot .current
    have hpending := hnot .pending
    have hanswered := hnot .answered
    dsimp only at hcurrent hpending hanswered
    omega
  obtain ⟨place, hin⟩ := hsomewhere
  exact ⟨place, hin, fun place' hin' => hunique place place' hin hin'⟩

theorem Inv.kept (h : m.Inv) : m.Kept := by
  refine ⟨fun path v message => h.place, h.once, ?_, h.earned, ?_, ?_⟩
  · intro path v message hv hreply answer success answer' success'
    have hinv := (h.exit path answer success).exit path answer' success'
    have hmem := received_exit (received_exit hv path answer success) path answer' success'
    have hsum := hinv.accounts.heard path v message hmem hreply
    rw [pending_exit, current_exit (pending_exit m path answer success)] at hsum
    simpa using hsum
  · intro path howes
    cases hw : m.brightnessWriters path with
    | none => exact h.sound.noWriter path hw
    | some w =>
      have hagain : w.again = false := by
        by_contra hagain
        exact howes ⟨w, hw, by simpa using hagain⟩
      have hwriter := h.sound.writer path w hw
      rw [hwriter.attempt hagain, hwriter.taken]
  · intro path hw v message hv hreply
    have hsum := h.accounts.heard path v message hv hreply
    simpa [current, pending, hw] using hsum

/-! ## What was requested -/

/-- The request in an event. -/
def Event.requested : Event → Option (Bytes × UInt32 × Message)
  | .request _ path v message => some (path, v, message)
  | .exit .. => none

/-- The value in a request that is granted. -/
def Event.granted : Event → Option (Bytes × UInt32)
  | .request env path v _ => if env.grants then some (path, v) else none
  | .exit .. => none

/-- The history has each request of these events once, in their order, and the
    values of those that were granted are taken in this order. -/
structure Heard (es : List Event) (m : BrightnessManager) : Prop where
  requests : m.history.filterMap request = es.filterMap Event.requested
  values : (es.filterMap Event.granted).Sublist (m.history.filterMap value)

variable {es : List Event}

/-- One more event, and what it adds to the history. -/
theorem Heard.append (h : m.Heard es) {e : Event} (hhistory : m'.history = m.history ++ entries)
    (hrequests : entries.filterMap request = e.requested.toList)
    (hvalues : e.granted.toList.Sublist (entries.filterMap value)) : m'.Heard (es ++ [e]) := by
  have hsingle : ∀ {β : Type} (f : Event → Option β), [e].filterMap f = (f e).toList := by
    intro β f
    cases hf : f e <;> simp [hf]
  constructor
  · rw [hhistory, filterMap_append, filterMap_append, h.requests, hrequests, hsingle]
  · rw [hhistory, filterMap_append, filterMap_append, hsingle]
    exact h.values.append hvalues

theorem Heard.requested (h : m.Heard es) (hout : RequestOutcome env m path v message m') :
    m'.Heard (es ++ [.request env path v message]) := by
  have hgranted : (Event.granted (.request env path v message)).toList.Sublist [(path, v)] := by
    cases hgrants : env.grants <;> simp [Event.granted, hgrants]
  cases hout with
  | refused e hentries _ hhistory =>
    cases hentries with
    | none hmissing => exact h.append hhistory rfl (by simp [Event.granted, hmissing])
    | failed _ | unwatched _ => exact h.append hhistory rfl hgranted
  | appended _ _ hhistory | started _ _ hhistory => exact h.append hhistory rfl hgranted

/-- An exit is no request. -/
theorem Heard.exited (h : m.Heard es) (path : Bytes) (answer : ForkAnswer) (success : Bool) :
    (m.exit path answer success).Heard (es ++ [.exit path answer success]) := by
  have hreplies : ∀ (children : List Nat) (messages : List Message) (error : Option Errno),
      (children.map (BrightnessEntry.exited path) ++
        messages.map (answered · error)).filterMap request = [] := by
    simp [request]
  obtain ⟨-, heq⟩ | ⟨w, error, -, hout⟩ := exit_cases m path answer success
  · rw [heq]
    exact h.append (append_nil _).symm rfl (nil_sublist _)
  cases hout with
  | done _ _ hhistory =>
    rw [append_assoc] at hhistory
    exact h.append hhistory (hreplies _ _ _) (nil_sublist _)
  | next _ _ hhistory =>
    rw [append_assoc, append_assoc, ← append_assoc (w.child.toList.map _)] at hhistory
    refine h.append hhistory ?_ (nil_sublist _)
    rw [filterMap_append, hreplies]
    rfl
  | @failed entry _ _ hentry _ hhistory =>
    rw [append_assoc, append_assoc, append_assoc,
      ← append_assoc (w.child.toList.map _)] at hhistory
    refine h.append hhistory ?_ (nil_sublist _)
    have hnone : request entry = none := by rcases hentry with rfl | rfl <;> rfl
    have hfailed := hreplies [] w.pendingMessages
    rw [filterMap_append, hreplies, singleton_append, filterMap_cons_none hnone]
    exact hfailed _

end BrightnessManager

end Elogind
