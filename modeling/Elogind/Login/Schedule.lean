/-
  Elogind.Login.Schedule

  What `ScheduleShutdown` leaves behind when one of its steps fails (`method_schedule_shutdown`,
  `setup_wall_message_timer`, `update_schedule_file` and `reset_scheduled_shutdown` of logind-dbus.c).

  The members of the manager that only the schedule uses are added to those of `ActionManager`, together
  with the file in which the schedule is kept.
-/

import Elogind.Basic.Bytes
import Elogind.Login.ShutdownStep

namespace Elogind

open Errno

/-- What `SHUTDOWN_SCHEDULE_FILE` says. -/
structure ScheduleFile where
  usec : Nat
  warnWall : Bool
  mode : HandleAction
  /-- `none` for `UID_INVALID`. -/
  uid : Option Nat
  tty : Option Bytes
  wallMessage : Bytes
  deriving DecidableEq, Repr

structure ScheduleManager extends ActionManager where
  wallMessageTimeoutSource : Option TimeSource
  scheduledShutdownUid : Option Nat
  scheduledShutdownTty : Option Bytes
  enableWallMessages : Bool
  wallMessage : Bytes
  unlinkNologin : Bool
  file : Option ScheduleFile
  deriving DecidableEq, Repr

/-- What the calls of `update_schedule_file` answer. -/
structure FileAnswers where
  mkdirParents : Result Unit
  fopenTemporary : Result Unit
  serializeItemEscaped : Result Unit
  fflush : Result Unit
  rename : Result Unit

/-- A call of `ScheduleShutdown`, with the answers it meets on the way. -/
structure ScheduleCall where
  read : Result Unit
  /-- `none` when the type names no action. -/
  handle : Option HandleAction
  dryRun : Bool
  /-- The time asked for or, for `USEC_INFINITY`, that of the maintenance window or of the clock. -/
  elapse : Result Nat
  caller : Caller
  shutdownTimer : SdEvent
  nologinTimer : SdEvent
  /-- The user and the terminal in the credentials, if they can be had. -/
  creds : Option (Option Nat × Option Bytes)
  dupTty : Bool
  /-- When `manager_setup_wall_message_timer` wants to warn next, if at all. -/
  nextWall : Option Nat
  wallTimer : SdEvent
  file : FileAnswers
  reply : Result Unit

namespace ScheduleManager

/-- `reset_scheduled_shutdown` -/
def resetScheduledShutdown (m : ScheduleManager) : ScheduleManager :=
  { m with
    toActionManager := Elogind.resetScheduledShutdown m.toActionManager
    wallMessageTimeoutSource := none
    scheduledShutdownUid := none
    scheduledShutdownTty := none
    unlinkNologin := false
    file := none }

/-- `update_schedule_file`.  The file is removed when the new one cannot be completed. -/
def updateScheduleFile (m : ScheduleManager) (mode : HandleAction) (a : FileAnswers) :
    Int × ScheduleManager :=
  match (do a.mkdirParents; a.fopenTemporary : Result Unit) with
  | .error e => (e.neg, m)
  | .ok () =>
    match (do (if m.wallMessage = [] then pure () else a.serializeItemEscaped); a.fflush; a.rename : Result Unit) with
    | .error e => (e.neg, { m with file := none })
    | .ok () =>
      (0, { m with
        file := some ⟨m.scheduledShutdownTimeout, m.enableWallMessages, mode, m.scheduledShutdownUid,
          m.scheduledShutdownTty, m.wallMessage⟩ })

/-- `manager_setup_wall_message_timer` -/
def setupWall (m : ScheduleManager) (q : ScheduleCall) : Int × ScheduleManager :=
  match q.nextWall with
  | none => (0, m)
  | some t =>
    let (r, s) := eventResetTime q.wallTimer m.wallMessageTimeoutSource t
    if r < 0 then (r, { m with wallMessageTimeoutSource := none })
    else (0, { m with wallMessageTimeoutSource := s })

/-- `setup_wall_message_timer` -/
def setupWallMessageTimer (m : ScheduleManager) (q : ScheduleCall) : Int × ScheduleManager :=
  match q.creds with
  | none => m.setupWall q
  | some (uid, tty) =>
    let m := { m with scheduledShutdownUid := uid.or m.scheduledShutdownUid }
    if !q.dupTty then (ENOMEM.neg, m)
    else { m with scheduledShutdownTty := tty }.setupWall q

/-- `method_schedule_shutdown` -/
def methodScheduleShutdown (m : ScheduleManager) (q : ScheduleCall) : Int × ScheduleManager :=
  match q.read with
  | .error e => (e.neg, m)
  | .ok () =>
    match q.handle.filter HandleAction.isShutdown with
    | none => (EINVAL.neg, m)
    | some handle =>
      let r := verifyShutdownCreds m.toActionManager q.caller (handleActionLookup handle)
        { rootCheckInhibitors := false, interactive := false, rebootViaKexec := false,
          skipInhibitors := false, other := false }
      if r ≠ 0 then (r, m)
      else
        match q.elapse with
        | .error e => (e.neg, m)
        | .ok elapse =>
          let (r, a) := managerSetupShutdownTimers q.shutdownTimer q.nologinTimer
            { m.toActionManager with
              scheduledShutdownAction := some handle
              shutdownDryRun := q.dryRun
              scheduledShutdownTimeout := elapse }
          let m := { m with toActionManager := a }
          if r < 0 then (r, m)
          else
            let (r, m) := m.setupWallMessageTimer q
            let (r, m) := if r ≥ 0 then m.updateScheduleFile handle q.file else (r, m)
            if r < 0 then (r, m.resetScheduledShutdown)
            else
              match q.reply with
              | .error e => (e.neg, m)
              | .ok () => (1, m)

/-! ## What a call leaves behind -/

/-- An action is recorded exactly when the timer that carries it out is armed, and that timer elapses at the
    recorded time. -/
structure Whole (m : ScheduleManager) : Prop where
  action : m.scheduledShutdownAction.isSome = true ↔ m.scheduledShutdownTimeoutSource.any (·.enabled) = true
  timeout : ∀ s, m.scheduledShutdownTimeoutSource = some s → s.enabled = true → s.time = m.scheduledShutdownTimeout

/-- Nothing is left of a schedule. -/
structure Cleared (m : ScheduleManager) : Prop where
  action : m.scheduledShutdownAction = none
  timeout : m.scheduledShutdownTimeout = usecInfinity
  shutdownTimer : m.scheduledShutdownTimeoutSource = none
  nologinTimer : m.nologinTimeoutSource = none
  wallTimer : m.wallMessageTimeoutSource = none
  file : m.file = none

/-- No schedule is left half done: the manager is whole and, after an error, as it was or cleared. -/
def Settles (m : ScheduleManager) (q : ScheduleCall) : Prop :=
  (m.methodScheduleShutdown q).2.Whole ∧
    ((m.methodScheduleShutdown q).1 < 0 →
      (m.methodScheduleShutdown q).2 = m ∨ (m.methodScheduleShutdown q).2.Cleared)

/-- The call records the action `h` for the time `t`: everything that is checked before is right. -/
structure Records (m : ScheduleManager) (q : ScheduleCall) (h : HandleAction) (t : Nat) : Prop where
  read : q.read = .ok ()
  handle : q.handle = some h
  shutdown : h.isShutdown = true
  creds : verifyShutdownCreds m.toActionManager q.caller (handleActionLookup h)
    { rootCheckInhibitors := false, interactive := false, rebootViaKexec := false,
      skipInhibitors := false, other := false } = 0
  elapse : q.elapse = .ok t

/-- Both timers of the schedule can be armed. -/
def TimersArm (m : ScheduleManager) (q : ScheduleCall) (t : Nat) : Prop :=
  0 ≤ (eventResetTime q.shutdownTimer m.scheduledShutdownTimeoutSource t).1 ∧
    0 ≤ (eventResetTime q.nologinTimer m.nologinTimeoutSource (t - 5 * 60000000)).1

/-- The wall messages can be set up. -/
structure Warns (m : ScheduleManager) (q : ScheduleCall) : Prop where
  dupTty : q.creds.isSome = true → q.dupTty = true
  wallTimer : ∀ t, q.nextWall = some t → 0 ≤ (eventResetTime q.wallTimer m.wallMessageTimeoutSource t).1

/-- A file that is to hold the message can be completed. -/
structure Completes (a : FileAnswers) (wallMessage : Bytes) : Prop where
  mkdirParents : a.mkdirParents = .ok ()
  fopenTemporary : a.fopenTemporary = .ok ()
  serializeItemEscaped : wallMessage ≠ [] → a.serializeItemEscaped = .ok ()
  fflush : a.fflush = .ok ()
  rename : a.rename = .ok ()

/-- The very schedule that is asked for is in place, with its timers, its warnings and its file. -/
structure InPlace (m : ScheduleManager) (q : ScheduleCall) (h : HandleAction) (t : Nat) : Prop where
  action : m.scheduledShutdownAction = some h
  dryRun : m.shutdownDryRun = q.dryRun
  timeout : m.scheduledShutdownTimeout = t
  shutdownTimer : m.scheduledShutdownTimeoutSource = some ⟨t, true⟩
  nologinTimer : m.nologinTimeoutSource = some ⟨t - 5 * 60000000, true⟩
  wallTimer : ∀ t, q.nextWall = some t → m.wallMessageTimeoutSource = some ⟨t, true⟩
  uid : ∀ uid tty, q.creds = some (some uid, tty) → m.scheduledShutdownUid = some uid
  tty : ∀ uid tty, q.creds = some (uid, tty) → m.scheduledShutdownTty = tty
  file : m.file = some ⟨t, m.enableWallMessages, h, m.scheduledShutdownUid, m.scheduledShutdownTty, m.wallMessage⟩

/-- The manager with the action and both timers in place. -/
def armed (m : ScheduleManager) (q : ScheduleCall) (h : HandleAction) (t : Nat) : ScheduleManager :=
  { m with
    scheduledShutdownAction := some h
    shutdownDryRun := q.dryRun
    scheduledShutdownTimeout := t
    scheduledShutdownTimeoutSource := some ⟨t, true⟩
    nologinTimeoutSource := some ⟨t - 5 * 60000000, true⟩ }

/-- The wall messages and the file, for a schedule whose timers are in place. -/
def announced (m : ScheduleManager) (q : ScheduleCall) (h : HandleAction) : Int × ScheduleManager :=
  let (r, m) := m.setupWallMessageTimer q
  if r ≥ 0 then m.updateScheduleFile h q.file else (r, m)

/-- The manager whose wall messages are set up. -/
def warned (m : ScheduleManager) (q : ScheduleCall) : ScheduleManager :=
  { m with
    wallMessageTimeoutSource := q.nextWall.elim m.wallMessageTimeoutSource fun t => some ⟨t, true⟩
    scheduledShutdownUid := q.creds.elim m.scheduledShutdownUid fun c => c.1.or m.scheduledShutdownUid
    scheduledShutdownTty := q.creds.elim m.scheduledShutdownTty (·.2) }

/-- The manager whose schedule is written down. -/
def written (m : ScheduleManager) (h : HandleAction) : ScheduleManager :=
  { m with
    file := some ⟨m.scheduledShutdownTimeout, m.enableWallMessages, h, m.scheduledShutdownUid,
      m.scheduledShutdownTty, m.wallMessage⟩ }

variable {m : ScheduleManager} {q : ScheduleCall} {h : HandleAction} {t : Nat}

theorem setupTimers_cases (shutdownTimer nologinTimer : SdEvent) (a : ActionManager) :
    (0 ≤ (eventResetTime shutdownTimer a.scheduledShutdownTimeoutSource a.scheduledShutdownTimeout).1 ∧
      0 ≤ (eventResetTime nologinTimer a.nologinTimeoutSource
        (a.scheduledShutdownTimeout - 5 * 60000000)).1 ∧
      managerSetupShutdownTimers shutdownTimer nologinTimer a =
        (0, { a with
          scheduledShutdownTimeoutSource := some ⟨a.scheduledShutdownTimeout, true⟩
          nologinTimeoutSource := some ⟨a.scheduledShutdownTimeout - 5 * 60000000, true⟩ })) ∨
    (¬ (0 ≤ (eventResetTime shutdownTimer a.scheduledShutdownTimeoutSource a.scheduledShutdownTimeout).1 ∧
      0 ≤ (eventResetTime nologinTimer a.nologinTimeoutSource
        (a.scheduledShutdownTimeout - 5 * 60000000)).1) ∧
      ∃ r < 0, managerSetupShutdownTimers shutdownTimer nologinTimer a =
        (r, { a with scheduledShutdownTimeoutSource := none, nologinTimeoutSource := none })) := by
  unfold managerSetupShutdownTimers
  dsimp only
  split
  · next hr => exact .inr ⟨fun h => absurd h.1 (by omega), _, hr, rfl⟩
  · next hr =>
    split
    · next hr' => exact .inr ⟨fun h => absurd h.2 (by omega), _, hr', rfl⟩
    · next hr' =>
      refine .inl ⟨by omega, by omega, ?_⟩
      rw [eventResetTime_ok (by omega), eventResetTime_ok (by omega)]

theorem Records.unique {h' : HandleAction} {t' : Nat} (hr : m.Records q h t) (hr' : m.Records q h' t') :
    h = h' ∧ t = t' :=
  ⟨Option.some.inj (hr.handle.symm.trans hr'.handle), Except.ok.inj (hr.elapse.symm.trans hr'.elapse)⟩

/-- A call that records no action changes nothing. -/
theorem schedule_of_not_records (hno : ∀ h t, ¬ m.Records q h t) : (m.methodScheduleShutdown q).2 = m := by
  unfold methodScheduleShutdown
  split
  · rfl
  · next hread =>
    split
    · rfl
    · next handle hhandle =>
      rw [Option.filter_eq_some_iff] at hhandle
      dsimp only
      split
      · rfl
      · next hcreds =>
        split
        · rfl
        · next t ht => exact absurd ⟨hread, hhandle.1, hhandle.2, by simpa using hcreds, ht⟩ (hno handle t)

/-- What is left of a call that records an action. -/
theorem schedule_of_records (hr : m.Records q h t) :
    (m.TimersArm q t ∧ m.methodScheduleShutdown q =
      let (r, m') := (m.armed q h t).announced q h
      if r < 0 then (r, m'.resetScheduledShutdown)
      else match q.reply with
        | .error e => (e.neg, m')
        | .ok () => (1, m')) ∨
    (¬ m.TimersArm q t ∧ ∃ r < 0, m.methodScheduleShutdown q =
      (r, { m with
        scheduledShutdownAction := some h
        shutdownDryRun := q.dryRun
        scheduledShutdownTimeout := t
        scheduledShutdownTimeoutSource := none
        nologinTimeoutSource := none })) := by
  have hhandle : q.handle.filter HandleAction.isShutdown = some h := by
    rw [Option.filter_eq_some_iff]
    exact ⟨hr.handle, hr.shutdown⟩
  unfold methodScheduleShutdown
  simp only [hr.read, hhandle, hr.creds, hr.elapse, ne_eq, not_true_eq_false, if_false]
  rcases setupTimers_cases q.shutdownTimer q.nologinTimer
    { m.toActionManager with
      scheduledShutdownAction := some h
      shutdownDryRun := q.dryRun
      scheduledShutdownTimeout := t } with ⟨h₁, h₂, heq⟩ | ⟨hfail, r, hneg, heq⟩
  · refine .inl ⟨⟨h₁, h₂⟩, ?_⟩
    rw [heq]
    rfl
  · refine .inr ⟨hfail, r, hneg, ?_⟩
    rw [heq]
    simp only [if_pos hneg]

theorem setupWall_cases (m : ScheduleManager) (q : ScheduleCall) :
    ((∀ t, q.nextWall = some t → 0 ≤ (eventResetTime q.wallTimer m.wallMessageTimeoutSource t).1) ∧
      m.setupWall q = (0, { m with
        wallMessageTimeoutSource := q.nextWall.elim m.wallMessageTimeoutSource fun t => some ⟨t, true⟩ })) ∨
    (¬ (∀ t, q.nextWall = some t → 0 ≤ (eventResetTime q.wallTimer m.wallMessageTimeoutSource t).1) ∧
      (m.setupWall q).1 < 0 ∧ (m.setupWall q).2.toActionManager = m.toActionManager) := by
  unfold setupWall
  cases q.nextWall with
  | none => exact .inl ⟨nofun, rfl⟩
  | some t =>
    by_cases hr : (eventResetTime q.wallTimer m.wallMessageTimeoutSource t).1 < 0
    · simp only [if_pos hr]
      exact .inr ⟨fun hall => absurd (hall t rfl) (by omega), hr, trivial⟩
    · simp only [if_neg hr, eventResetTime_ok (Int.not_lt.mp hr)]
      exact .inl ⟨fun _ heq => Option.some.inj heq ▸ Int.not_lt.mp hr, rfl⟩

theorem setupWallMessageTimer_cases (m : ScheduleManager) (q : ScheduleCall) :
    (m.Warns q ∧ m.setupWallMessageTimer q = (0, m.warned q)) ∨
    (¬ m.Warns q ∧ (m.setupWallMessageTimer q).1 < 0 ∧
      (m.setupWallMessageTimer q).2.toActionManager = m.toActionManager) := by
  unfold setupWallMessageTimer
  cases hcreds : q.creds with
  | none =>
    rcases m.setupWall_cases q with ⟨hwall, heq⟩ | ⟨hwall, hr, hsame⟩
    · exact .inl ⟨⟨by simp [hcreds], hwall⟩, by simp only [heq, warned, hcreds, Option.elim_none]⟩
    · exact .inr ⟨fun hw => hwall hw.wallTimer, hr, hsame⟩
  | some c =>
    cases hdup : q.dupTty with
    | false => exact .inr ⟨fun hw => by simpa [hcreds, hdup] using hw.dupTty, neg_lt_zero _, rfl⟩
    | true =>
      rcases ScheduleManager.setupWall_cases { m with
          scheduledShutdownUid := c.1.or m.scheduledShutdownUid, scheduledShutdownTty := c.2 } q with
        ⟨hwall, heq⟩ | ⟨hwall, hr, hsame⟩
      · exact .inl ⟨⟨fun _ => hdup, hwall⟩, by simp [heq, warned, hcreds]⟩
      · exact .inr ⟨fun hw => hwall hw.wallTimer, hr, hsame⟩

theorem updateScheduleFile_cases (m : ScheduleManager) (h : HandleAction) (a : FileAnswers) :
    (Completes a m.wallMessage ∧ m.updateScheduleFile h a = (0, m.written h)) ∨
    (¬ Completes a m.wallMessage ∧ (m.updateScheduleFile h a).1 < 0 ∧
      (m.updateScheduleFile h a).2.toActionManager = m.toActionManager) := by
  unfold updateScheduleFile
  cases hmkdir : a.mkdirParents with
  | error e => exact .inr ⟨fun hc => by simpa [hmkdir] using hc.mkdirParents, neg_lt_zero e, rfl⟩
  | ok _ =>
  cases hfopen : a.fopenTemporary with
  | error e => exact .inr ⟨fun hc => by simpa [hfopen] using hc.fopenTemporary, neg_lt_zero e, rfl⟩
  | ok _ =>
  cases hserialize : (if m.wallMessage = [] then pure () else a.serializeItemEscaped : Result Unit) with
  | error e =>
    refine .inr ⟨fun hc => ?_, neg_lt_zero e, rfl⟩
    split at hserialize
    · cases hserialize
    · next hmessage =>
      rw [hc.serializeItemEscaped hmessage] at hserialize
      cases hserialize
  | ok _ =>
  cases hfflush : a.fflush with
  | error e => exact .inr ⟨fun hc => by simpa [hfflush] using hc.fflush, neg_lt_zero e, rfl⟩
  | ok _ =>
  cases hrename : a.rename with
  | error e => exact .inr ⟨fun hc => by simpa [hrename] using hc.rename, neg_lt_zero e, rfl⟩
  | ok _ =>
    exact .inl ⟨⟨hmkdir, hfopen, fun hmessage => by simpa [hmessage] using hserialize, hfflush, hrename⟩, rfl⟩

/-- Wall messages and the file are in place, or there is an error; the action and its timers are as they were. -/
theorem announced_cases (m : ScheduleManager) (q : ScheduleCall) (h : HandleAction) :
    (m.announced q h).2.toActionManager = m.toActionManager ∧
      ((m.Warns q ∧ Completes q.file m.wallMessage ∧ m.announced q h = (0, (m.warned q).written h)) ∨
        (¬ (m.Warns q ∧ Completes q.file m.wallMessage) ∧ (m.announced q h).1 < 0)) := by
  unfold announced
  rcases m.setupWallMessageTimer_cases q with ⟨hwarns, heq⟩ | ⟨hwarns, hr, hsame⟩
  · rw [heq]
    rcases (m.warned q).updateScheduleFile_cases h q.file with ⟨hfile, heq⟩ | ⟨hfile, hr, hsame⟩
    · simp only [heq]
      exact ⟨rfl, .inl ⟨hwarns, hfile, rfl⟩⟩
    · exact ⟨hsame, .inr ⟨fun hall => hfile hall.2, hr⟩⟩
  · simp only [if_neg (Int.not_le.mpr hr)]
    exact ⟨hsame, .inr ⟨fun hall => hwarns hall.1, hr⟩⟩

/-- The schedule that a call puts in place is what was there before exactly when it was in place. -/
theorem inPlace_iff : ((m.armed q h t).warned q).written h = m ↔ m.InPlace q h t := by
  constructor
  · intro heq
    have heq := heq.symm
    refine ⟨congrArg (·.scheduledShutdownAction) heq, congrArg (·.shutdownDryRun) heq,
      congrArg (·.scheduledShutdownTimeout) heq, congrArg (·.scheduledShutdownTimeoutSource) heq,
      congrArg (·.nologinTimeoutSource) heq, fun t ht => ?_, fun uid tty hc => ?_, fun uid tty hc => ?_, ?_⟩
    · simpa [written, warned, ht] using congrArg (·.wallMessageTimeoutSource) heq
    · simpa [written, warned, hc] using congrArg (·.scheduledShutdownUid) heq
    · simpa [written, warned, hc] using congrArg (·.scheduledShutdownTty) heq
    · have hfile := congrArg (·.file) heq
      have huid : m.scheduledShutdownUid = ((m.armed q h t).warned q).scheduledShutdownUid :=
        congrArg (·.scheduledShutdownUid) heq
      have htty : m.scheduledShutdownTty = ((m.armed q h t).warned q).scheduledShutdownTty :=
        congrArg (·.scheduledShutdownTty) heq
      rw [huid, htty]
      exact hfile
  · intro hin
    have harmed : m.armed q h t = m := by
      unfold armed
      rw [← hin.shutdownTimer, ← hin.nologinTimer, ← hin.action, ← hin.dryRun, ← hin.timeout]
    have hwarned : m.warned q = m := by
      have hwall : (q.nextWall.elim m.wallMessageTimeoutSource fun t => some ⟨t, true⟩) =
          m.wallMessageTimeoutSource := by
        cases hnext : q.nextWall with
        | none => rfl
        | some t => exact (hin.wallTimer t hnext).symm
      unfold warned
      rw [hwall]
      cases hcreds : q.creds with
      | none => rfl
      | some c =>
        obtain ⟨uid, tty⟩ := c
        simp only [Option.elim_some, ← hin.tty uid tty hcreds]
        cases uid with
        | none => rfl
        | some uid => simp only [← hin.uid uid tty hcreds, Option.or_self]
    rw [harmed, hwarned]
    unfold written
    rw [hin.timeout, ← hin.file]

/-- A call that is read does to the action and its timers what `Elogind.methodScheduleShutdown` does, for which
    wall messages and the file have one answer, so that what holds in its runs holds of these members here. -/
theorem methodScheduleShutdown_action (hread : q.read = .ok ()) (hhandle : q.handle = some h) :
    ∃ wallAndFile : Result Unit,
      (m.methodScheduleShutdown q).2.toActionManager = (Elogind.methodScheduleShutdown m.toActionManager
        ⟨h, q.dryRun, q.elapse, q.caller, q.shutdownTimer, q.nologinTimer, wallAndFile⟩).2 := by
  by_cases hrec : ∃ t, m.Records q h t
  · obtain ⟨t, hr⟩ := hrec
    simp only [Elogind.methodScheduleShutdown, hr.shutdown, hr.creds, hr.elapse]
    rcases setupTimers_cases q.shutdownTimer q.nologinTimer
      { m.toActionManager with
        scheduledShutdownAction := some h
        shutdownDryRun := q.dryRun
        scheduledShutdownTimeout := t } with ⟨h₁, h₂, htimers⟩ | ⟨hfail, r, hneg, htimers⟩
    · obtain ⟨-, heq⟩ := (schedule_of_records hr).resolve_right fun hf => hf.1 ⟨h₁, h₂⟩
      rw [heq, htimers]
      obtain ⟨haction, ⟨-, -, hann⟩ | ⟨-, hann⟩⟩ := announced_cases (m.armed q h t) q h
      · refine ⟨.ok (), ?_⟩
        rw [hann]
        cases q.reply <;> rfl
      -- the error undoes the schedule
      · refine ⟨.error ENOMEM, ?_⟩
        simp only [if_pos hann, resetScheduledShutdown, haction]
        rfl
    · obtain ⟨-, r', hneg', heq⟩ := (schedule_of_records hr).resolve_left fun hf => hfail hf.1
      rw [heq, htimers]
      simp only [if_pos hneg]
      exact ⟨.ok (), rfl⟩
  · have hno : ∀ h' t, ¬ m.Records q h' t := fun h' t hr =>
      hrec ⟨t, Option.some.inj (hr.handle.symm.trans hhandle) ▸ hr⟩
    refine ⟨.ok (), ?_⟩
    rw [schedule_of_not_records hno]
    unfold Elogind.methodScheduleShutdown
    split
    · rfl
    · next hshutdown =>
      dsimp only
      split
      · rfl
      · next hcreds =>
        split
        · rfl
        · next t ht => exact absurd ⟨hread, hhandle, by simpa using hshutdown, by simpa using hcreds, ht⟩ (hno h t)

theorem cleared_reset (m : ScheduleManager) : m.resetScheduledShutdown.Cleared := ⟨rfl, rfl, rfl, rfl, rfl, rfl⟩

theorem whole_reset (m : ScheduleManager) : m.resetScheduledShutdown.Whole where
  action := by simp [resetScheduledShutdown, Elogind.resetScheduledShutdown]
  timeout _ hs := by cases hs

/-- A call of `ScheduleShutdown` leaves no schedule half done exactly when it is refused by a manager that
    was whole, or both timers can be armed and an error of the reply, the only one after which nothing is
    cleared, does not occur or finds the same schedule in place before. -/
theorem schedule_settles_iff (m : ScheduleManager) (q : ScheduleCall) :
    m.Settles q ↔
      ((∀ h t, ¬ m.Records q h t) → m.Whole) ∧
      ∀ h t, m.Records q h t → m.TimersArm q t ∧
        (m.Warns q → Completes q.file m.wallMessage → q.reply = .ok () ∨ m.InPlace q h t) := by
  by_cases hrec : ∃ h t, m.Records q h t
  swap
  -- no action is recorded: the manager stays as it is
  · simp only [not_exists] at hrec
    have hsame := schedule_of_not_records hrec
    constructor
    · intro hs
      exact ⟨fun _ => hsame ▸ hs.1, fun h t hr => absurd hr (hrec h t)⟩
    · rintro ⟨hwhole, -⟩
      exact ⟨hsame.symm ▸ hwhole hrec, fun _ => .inl hsame⟩
  obtain ⟨h, t, hr⟩ := hrec
  -- the call determines the action and the time
  have hiff : (((∀ h t, ¬ m.Records q h t) → m.Whole) ∧
      ∀ h t, m.Records q h t → m.TimersArm q t ∧
        (m.Warns q → Completes q.file m.wallMessage → q.reply = .ok () ∨ m.InPlace q h t)) ↔
      m.TimersArm q t ∧
        (m.Warns q → Completes q.file m.wallMessage → q.reply = .ok () ∨ m.InPlace q h t) := by
    constructor
    · exact fun hall => hall.2 h t hr
    · intro hone
      refine ⟨fun hno => absurd hr (hno h t), fun h' t' hr' => ?_⟩
      obtain ⟨rfl, rfl⟩ := hr.unique hr'
      exact hone
  rw [hiff]
  unfold Settles
  rcases schedule_of_records hr with ⟨harm, heq⟩ | ⟨hfail, r, hneg, heq⟩
  · rw [heq]
    obtain ⟨-, ⟨hwarns, hfile, hann⟩ | ⟨hfails, hann⟩⟩ := announced_cases (m.armed q h t) q h
    · have hwarns' : m.Warns q := ⟨hwarns.dupTty, hwarns.wallTimer⟩
      have hwhole : ((m.armed q h t).warned q).written h |>.Whole :=
        ⟨by simp [written, warned, armed], fun _ hs _ => Option.some.inj hs ▸ rfl⟩
      -- after an error of the reply the action is still there
      have hkept : ¬ (((m.armed q h t).warned q).written h).Cleared := fun hclear => by
        cases hclear.action
      rw [hann]
      cases hreply : q.reply with
      | error e =>
        simp only [lt_irrefl, if_false, e.neg_lt_zero, hkept, or_false, forall_const, hwhole, true_and, inPlace_iff]
        exact ⟨fun hs => ⟨harm, fun _ _ => .inr hs⟩, fun hs => (hs.2 hwarns' hfile).resolve_left nofun⟩
      | ok _ =>
        exact ⟨fun _ => ⟨harm, fun _ _ => .inl rfl⟩,
          fun _ => ⟨hwhole, fun hlt => absurd hlt (lt_asymm Int.zero_lt_one)⟩⟩
    -- an error is returned, and everything is undone
    · simp only [if_pos hann]
      exact ⟨fun _ => ⟨harm, fun hwarns hfile => absurd ⟨⟨hwarns.dupTty, hwarns.wallTimer⟩, hfile⟩ hfails⟩,
        fun _ => ⟨whole_reset _, fun _ => .inr (cleared_reset _)⟩⟩
  -- a timer fails: the action is recorded, and no timer will carry it out
  · rw [heq]
    refine ⟨fun hs => ?_, fun hs => absurd hs.1 hfail⟩
    simpa using hs.1.action

end ScheduleManager

/-- The manager as it starts, without a schedule. -/
def unscheduled : ScheduleManager :=
  { ActionManager.init with
    wallMessageTimeoutSource := none, scheduledShutdownUid := none, scheduledShutdownTty := none
    enableWallMessages := true, wallMessage := [], unlinkNologin := false, file := none }

/-- Root asks for a power off at time 1; the timer cannot be had. -/
def timerFails : ScheduleCall where
  read := .ok ()
  handle := some .poweroff
  dryRun := false
  elapse := .ok 1
  caller := { uid := .ok 0, multipleSessions := false, polkit := fun _ _ _ => .ok true }
  shutdownTimer := { SdEvent.good 0 with addTime := .error ENOMEM }
  nologinTimer := .good 0
  creds := none
  dupTty := true
  nextWall := none
  wallTimer := .good 0
  file := ⟨.ok (), .ok (), .ok (), .ok (), .ok ()⟩
  reply := .ok ()

/-- Without memory for the timer, the action stays recorded although nothing will carry it out. -/
theorem schedule_half_armed : ¬ unscheduled.Settles timerFails := by
  intro h
  have haction := h.1.action
  revert haction
  decide

end Elogind
