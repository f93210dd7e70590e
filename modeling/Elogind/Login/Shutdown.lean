/-
  Elogind.Login.Shutdown

  Carrying out shutdown and sleep actions: the part of logind-dbus.c around
  `execute_shutdown_or_sleep`, the scheduled shutdown, `method_inhibit`, and
  the `SIGCHLD` handler of elogind.c.

  `ActionManager` holds the fields of `Manager` these functions use, and the
  kernel's view of the children forked for an action, since the daemon only
  learns about them through `waitpid`.  Whatever the functions ask of the
  system or of other libraries is answered by the records of answers they take
  as an argument, so that every outcome of every call is covered.
-/

import Elogind.Basic.Errno
import Elogind.Basic.TimeUtil
import Elogind.Login.Action

namespace Elogind

open Errno

/-! ## Timer event sources -/

/-- A timer event source: when it elapses, and whether it is `SD_EVENT_ONESHOT`
    or `SD_EVENT_OFF`. -/
structure TimeSource where
  time : Nat
  enabled : Bool
  deriving DecidableEq, Repr

/-- The source turned off. -/
def TimeSource.off (s : TimeSource) : TimeSource := { s with enabled := false }

/-- What the sd-event calls made to arm a timer answer. -/
structure SdEvent where
  now : Result Nat
  getClock : Result Unit
  setTime : Result Unit
  setTimeAccuracy : Result Unit
  setEnabled : Result Unit
  addTime : Result Unit
  setPriority : Result Unit
  setDescription : Result Unit

/-- An event loop on which every call succeeds, at time `now`. -/
def SdEvent.good (now : Nat) : SdEvent where
  now := .ok now
  getClock := .ok ()
  setTime := .ok ()
  setTimeAccuracy := .ok ()
  setEnabled := .ok ()
  addTime := .ok ()
  setPriority := .ok ()
  setDescription := .ok ()

/-- The last calls of `event_reset_time`, on the source that is armed by now. -/
def eventResetTimeFinish (e : SdEvent) (created : Bool) (s : TimeSource) :
    Int × Option TimeSource :=
  match e.setPriority with
  | .error err => (err.neg, some s)
  | .ok () =>
    match e.setDescription with
    | .error err => (err.neg, some s)
    | .ok () => (if created then 1 else 0, some s)

/-- `event_reset_time` with `force_reset`, as all callers here use it. -/
def eventResetTime (e : SdEvent) (s : Option TimeSource) (usec : Nat) :
    Int × Option TimeSource :=
  match s with
  | some s =>
    match e.getClock with
    | .error err => (err.neg, some s)
    | .ok () =>
      match e.setTime with
      | .error err => (err.neg, some s)
      | .ok () =>
        match e.setTimeAccuracy with
        | .error err => (err.neg, some { s with time := usec })
        | .ok () =>
          match e.setEnabled with
          | .error err => (err.neg, some { s with time := usec })
          | .ok () => eventResetTimeFinish e false { time := usec, enabled := true }
  | none =>
    match e.addTime with
    | .error err => (err.neg, none)
    | .ok () => eventResetTimeFinish e true { time := usec, enabled := true }

/-- `event_reset_time_relative` with `force_reset`. -/
def eventResetTimeRelative (e : SdEvent) (s : Option TimeSource) (usec : Nat) :
    Int × Option TimeSource :=
  if usec > 0 then
    match e.now with
    | .error err => (err.neg, s)
    | .ok now => eventResetTime e s (usecAdd now usec)
  else eventResetTime e s usec

/-! ## State -/

/-- A status as `waitpid` reports it. -/
inductive WaitStatus where
  | exited (code : Nat)
  | signaled (sig : Nat)
  | stopped (sig : Nat)
  deriving DecidableEq, Repr

/-- `WIFEXITED(status) || WIFSIGNALED(status)` -/
def WaitStatus.terminated : WaitStatus → Bool
  | exited _ | signaled _ => true
  | stopped _ => false

/-- A forked action child that has not been reaped.  `status` is the change of
    its state that no `waitpid` has reported yet. -/
structure Child where
  pid : Nat
  action : HandleActionData
  status : Option WaitStatus
  deriving DecidableEq, Repr

/-- The child has ended and waits to be reaped. -/
def Child.terminated (c : Child) : Bool := c.status.any WaitStatus.terminated

/-- The signals by which clients are told to prepare (`send_prepare_for`). -/
inductive PrepareSignal where
  | prepareForShutdownWithMetadata (active : Bool) (type : String)
  | prepareForShutdown (active : Bool)
  | prepareForSleep (active : Bool)
  deriving DecidableEq, Repr

structure ActionManager where
  actionJob : Option String
  delayedAction : Option HandleActionData
  sleepForkAction : Option HandleActionData
  /-- 0 when there is none. -/
  sleepForkPid : Nat
  toolForkPid : Nat
  inhibitors : List Inhibitor
  inhibitCounter : Nat
  inhibitorsMax : Nat
  inhibitDelayMax : Nat
  inhibitTimeoutSource : Option TimeSource
  /-- `none` for `_HANDLE_ACTION_INVALID`. -/
  scheduledShutdownAction : Option HandleAction
  scheduledShutdownTimeout : Nat
  scheduledShutdownTimeoutSource : Option TimeSource
  nologinTimeoutSource : Option TimeSource
  shutdownDryRun : Bool
  holdoffTimeoutUsec : Nat
  /-- When the source that makes the daemon ignore the lid switch elapses. -/
  lidSwitchIgnoreEventSource : Option Nat
  /-- The actions whose bit is set in `handle_action_sleep_mask`. -/
  handleActionSleepMask : List HandleAction
  /-- The signals emitted so far, the last one first. -/
  signals : List PrepareSignal
  /-- The action children the kernel keeps for the daemon. -/
  children : List Child
  deriving DecidableEq, Repr

/-- The manager right after `manager_new`, as configured by default. -/
def ActionManager.init : ActionManager where
  actionJob := none
  delayedAction := none
  sleepForkAction := none
  sleepForkPid := 0
  toolForkPid := 0
  inhibitors := []
  inhibitCounter := 0
  inhibitorsMax := 8192
  inhibitDelayMax := 5000000
  inhibitTimeoutSource := none
  scheduledShutdownAction := none
  scheduledShutdownTimeout := usecInfinity
  scheduledShutdownTimeoutSource := none
  nologinTimeoutSource := none
  shutdownDryRun := false
  holdoffTimeoutUsec := 30000000
  lidSwitchIgnoreEventSource := none
  handleActionSleepMask := []
  signals := []
  children := []

structure SleepConfig where
  allowPoweroffInterrupts : Bool
  allowSuspendInterrupts : Bool
  deriving DecidableEq, Repr

/-- What the system answers while an action is started. -/
structure World where
  /-- `parse_sleep_config` -/
  sleepConfig : Result SleepConfig
  /-- Whether the `strv_extend` calls for the utmp record succeed. -/
  strvExtend : Bool
  /-- Whether `strdup` of the action's name succeeds. -/
  strdupJob : Bool
  /-- `safe_fork`: the pid of the child. -/
  fork : Result Nat
  /-- `now(CLOCK_MONOTONIC)` -/
  now : Nat
  /-- `sd_event_add_time` or `sd_event_source_set_time` for the lid switch. -/
  lidTimer : Result Unit
  event : SdEvent

/-! ## Executing an action -/

/-- `send_prepare_for` -/
def sendPrepareFor (m : ActionManager) (a : HandleActionData) (active : Bool) :
    ActionManager :=
  if a.what = .shutdown then
    { m with signals := .prepareForShutdown active ::
        .prepareForShutdownWithMetadata active a.handle.toString :: m.signals }
  else { m with signals := .prepareForSleep active :: m.signals }

/-- `manager_set_lid_switch_ignore` -/
def managerSetLidSwitchIgnore (w : World) (m : ActionManager) (till : Nat) : ActionManager :=
  if till ≤ w.now then m
  else
    match m.lidSwitchIgnoreEventSource with
    | some u =>
      if till ≤ u then m
      else
        match w.lidTimer with
        | .error _ => m
        | .ok () => { m with lidSwitchIgnoreEventSource := some till }
    | none =>
      match w.lidTimer with
      | .error _ => m
      | .ok () => { m with lidSwitchIgnoreEventSource := some till }

/-- `elogind_execute_shutdown_or_sleep`, as the parent process sees it. -/
def elogindExecuteShutdownOrSleep (w : World) (m : ActionManager) (a : HandleActionData) :
    Int × ActionManager :=
  if (a.handle = .halt ∨ a.handle = .poweroff ∨ a.handle = .reboot) ∧ !w.strvExtend then
    (ENOMEM.neg, m)
  else
    let m := { m with sleepForkAction := some a }
    if !w.strdupJob then
      (ENOMEM.neg, { m with actionJob := none })
    else
      let m := { m with actionJob := some a.handle.toString }
      match w.fork with
      | .error e => (e.neg, { m with sleepForkAction := none, actionJob := none })
      | .ok pid =>
        (1, { m with
          sleepForkPid := pid
          children := { pid := pid, action := a, status := none } :: m.children })

/-- `execute_shutdown_or_sleep` -/
def executeShutdownOrSleep (w : World) (m : ActionManager) (a : HandleActionData) :
    Int × ActionManager :=
  if m.sleepForkAction.isSome then (0, m)
  else
    let (r, m) := elogindExecuteShutdownOrSleep w m a
    if r < 0 then (r, sendPrepareFor m a false)
    else
      let m := { m with delayedAction := some a }
      (0, managerSetLidSwitchIgnore w m (usecAdd w.now m.holdoffTimeoutUsec))

/-- `manager_dispatch_delayed` -/
def managerDispatchDelayed (w : World) (m : ActionManager) (timeout : Bool) :
    Int × ActionManager :=
  match m.delayedAction with
  | none => (0, m)
  | some a =>
    if m.actionJob.isSome then (0, m)
    else if (managerIsInhibited m.inhibitors (.delay a.what)).inhibited && !timeout then (0, m)
    else
      let (r, m) := executeShutdownOrSleep w m a
      if r < 0 then (1, { m with delayedAction := none })
      else (1, m)

/-- `manager_inhibit_timeout_handler`.  The event loop turns the one-shot
    source off before it calls the handler. -/
def managerInhibitTimeoutHandler (w : World) (m : ActionManager) : Int × ActionManager :=
  let m := { m with inhibitTimeoutSource := m.inhibitTimeoutSource.map TimeSource.off }
  managerDispatchDelayed w m true

/-- `delay_shutdown_or_sleep` -/
def delayShutdownOrSleep (w : World) (m : ActionManager) (a : HandleActionData) :
    Int × ActionManager :=
  let (r, s) := eventResetTimeRelative w.event m.inhibitTimeoutSource m.inhibitDelayMax
  let m := { m with inhibitTimeoutSource := s }
  if r < 0 then (r, m) else (0, { m with delayedAction := some a })

/-- `cancel_delayed_action` -/
def cancelDelayedAction (m : ActionManager) : ActionManager :=
  let m := { m with inhibitTimeoutSource := m.inhibitTimeoutSource.map TimeSource.off }
  if m.actionJob.isNone then { m with delayedAction := none } else m

/-- `bus_manager_shutdown_or_sleep_now_or_later` -/
def busManagerShutdownOrSleepNowOrLater (w : World) (m : ActionManager) (a : HandleActionData) :
    Int × ActionManager :=
  match w.sleepConfig with
  | .error e => (e.neg, m)
  | .ok c =>
    let m :=
      if (a.what = .shutdown ∧ !c.allowPoweroffInterrupts) ∨
          (a.what = .sleep ∧ !c.allowSuspendInterrupts)
      then sendPrepareFor m a true else m
    let delayed := m.inhibitDelayMax > 0 &&
      (managerIsInhibited m.inhibitors (.delay a.what)).inhibited
    if delayed then delayShutdownOrSleep w m a else executeShutdownOrSleep w m a

/-! ## Requests -/

/-- What is known about, and answered for, the sender of a request. -/
structure Caller where
  /-- `sd_bus_query_sender_creds` and `sd_bus_creds_get_euid` -/
  uid : Result Nat
  /-- `have_multiple_sessions` -/
  multipleSessions : Bool
  /-- `bus_verify_polkit_async_full` for an action, with the flags
      `POLKIT_ALWAYS_QUERY` and `POLKIT_ALLOW_INTERACTIVE`: an error, not yet
      authorised, or authorised. -/
  polkit : Option String → (alwaysQuery interactive : Bool) → Result Bool

/-- A polkit check in the way the methods use it: `k` runs once the caller is
    authorised, and 1 tells the bus to call the method again later. -/
def polkitCheck (answer : Result Bool) (k : Int) : Int :=
  match answer with
  | .error e => e.neg
  | .ok false => 1
  | .ok true => k

/-- The flags of the `...WithFlags` methods. -/
structure ShutdownFlags where
  rootCheckInhibitors : Bool
  interactive : Bool
  rebootViaKexec : Bool
  skipInhibitors : Bool
  /-- Some bit outside `SD_LOGIND_SHUTDOWN_AND_SLEEP_FLAGS_PUBLIC`. -/
  other : Bool
  deriving DecidableEq, Repr

/-- `verify_shutdown_creds`: 0 when the caller may go on. -/
def verifyShutdownCreds (m : ActionManager) (c : Caller) (a : HandleActionData)
    (flags : ShutdownFlags) : Int :=
  match c.uid with
  | .error e => e.neg
  | .ok uid =>
    let found := managerIsInhibited m.inhibitors
      { w := a.what, block := true, ignoreInactive := false, ignoreUid := true, uid := uid,
        isActiveSession := fun _ => 0 }
    let weak := found.offending.any (·.mode = .blockWeak)
    let ifBlocked : Int :=
      if found.inhibited then
        if !flags.skipInhibitors && (!weak || (uid == 0 && flags.rootCheckInhibitors)) then
          EACCES.neg
        else polkitCheck (c.polkit a.polkitActionIgnoreInhibit (!weak) flags.interactive) 0
      else if !c.multipleSessions then
        polkitCheck (c.polkit a.polkitAction false flags.interactive) 0
      else 0
    if c.multipleSessions then
      polkitCheck (c.polkit a.polkitActionMultipleSessions false flags.interactive) ifBlocked
    else ifBlocked

/-- `reset_scheduled_shutdown` -/
def resetScheduledShutdown (m : ActionManager) : ActionManager :=
  { m with
    scheduledShutdownTimeoutSource := none
    nologinTimeoutSource := none
    scheduledShutdownAction := none
    scheduledShutdownTimeout := usecInfinity
    shutdownDryRun := false }

/-- The sleep operations in the order in which `handle_action_sleep_select`
    tries them. -/
def sleepActions : List HandleAction :=
  [.suspendThenHibernate, .hybridSleep, .suspend, .hibernate]

/-- `handle_action_sleep_select`, with the answers of `sleep_supported`. -/
def handleActionSleepSelect (supported : HandleAction → Bool) (m : ActionManager) :
    Option HandleAction :=
  sleepActions.find? fun a => m.handleActionSleepMask.contains a && supported a

/-- The row a request is about: `method_do_shutdown_or_sleep` up to its call of
    `verify_shutdown_creds`. -/
def requestedAction (m : ActionManager) (action : HandleAction) (flags : ShutdownFlags)
    (kexecLoaded : Bool) (supported : HandleAction → Bool) : Result HandleActionData :=
  if flags.other then .error EINVAL
  else if action ≠ .reboot ∧ flags.rebootViaKexec then .error EINVAL
  else if action = .sleep then
    match handleActionSleepSelect supported m with
    | none => .error EOPNOTSUPP
    | some selected => .ok (handleActionLookup selected)
  else if action.isSleep then
    if supported action then .ok (handleActionLookup action) else .error EOPNOTSUPP
  else if flags.rebootViaKexec && kexecLoaded then .ok (handleActionLookup .kexec)
  else .ok (handleActionLookup action)

/-- A call of one of the shutdown or sleep methods. -/
structure ShutdownRequest where
  action : HandleAction
  flags : ShutdownFlags
  kexecLoaded : Bool
  supported : HandleAction → Bool
  caller : Caller

/-- `method_do_shutdown_or_sleep` -/
def methodDoShutdownOrSleep (w : World) (m : ActionManager) (q : ShutdownRequest) :
    Int × ActionManager :=
  match requestedAction m q.action q.flags q.kexecLoaded q.supported with
  | .error e => (e.neg, m)
  | .ok a =>
    let r := verifyShutdownCreds m q.caller a q.flags
    if r ≠ 0 then (r, m)
    else if m.delayedAction.isSome then (EINPROGRESS.neg, m)
    else
      let m := resetScheduledShutdown m
      let m := { m with
        scheduledShutdownTimeout := 0
        scheduledShutdownAction := some q.action }
      let (r, m) := busManagerShutdownOrSleepNowOrLater w m a
      if r < 0 then (r, m) else (1, m)

/-- `handle_action_execute`; `kexecExecutable` is the `access` check. -/
def handleActionExecute (w : World) (m : ActionManager) (handle : HandleAction)
    (kexecExecutable ignoreInhibited isEdge : Bool) : Int × ActionManager :=
  if handle = .kexec ∧ !kexecExecutable then (EOPNOTSUPP.neg, m)
  else if m.delayedAction.isSome then (EALREADY.neg, m)
  else
    let a := handleActionLookup handle
    if a.inhibitWhat.any InhibitWhat.isValid && !ignoreInhibited &&
        (managerIsInhibited m.inhibitors
          { w := a.what, block := true, ignoreInactive := false, ignoreUid := false, uid := 0,
            isActiveSession := fun _ => 0 }).inhibited then
      (if isEdge then EPERM.neg else 0, m)
    else
      let (r, m) := busManagerShutdownOrSleepNowOrLater w m a
      if r < 0 then (r, m) else (1, m)

/-- `handle_action_sleep_execute`, for an action other than `HANDLE_SLEEP`. -/
def handleActionSleepExecuteOne (w : World) (m : ActionManager) (handle : HandleAction)
    (supported : HandleAction → Bool) (ignoreInhibited isEdge : Bool) : Int × ActionManager :=
  if supported handle then handleActionExecute w m handle true ignoreInhibited isEdge
  else if handle ≠ .suspend ∧ supported .suspend then
    handleActionExecute w m .suspend true ignoreInhibited isEdge
  else (EOPNOTSUPP.neg, m)

/-- `handle_action_sleep_execute` -/
def handleActionSleepExecute (w : World) (m : ActionManager) (handle : HandleAction)
    (supported : HandleAction → Bool) (ignoreInhibited isEdge : Bool) : Int × ActionManager :=
  if handle = .sleep then
    match handleActionSleepSelect supported m with
    | none => (EOPNOTSUPP.neg, m)
    | some a => handleActionSleepExecuteOne w m a supported ignoreInhibited isEdge
  else handleActionSleepExecuteOne w m handle supported ignoreInhibited isEdge

/-- A key press, a lid switch or the idle timeout asking for an action. -/
structure HandleRequest where
  inhibitKey : InhibitWhat
  handle : HandleAction
  ignoreInhibited : Bool
  isEdge : Bool
  kexecExecutable : Bool
  supported : HandleAction → Bool
  isActiveSession : Nat → Int

/-- `manager_handle_action`.  Locking the sessions and the secure attention key
    do not touch this part of the manager. -/
def managerHandleAction (w : World) (m : ActionManager) (q : HandleRequest) :
    Int × ActionManager :=
  if q.handle = .ignore then (0, m)
  else if q.inhibitKey = .handleLidSwitch ∧ m.lidSwitchIgnoreEventSource.isSome then (0, m)
  else if q.inhibitKey > 0 ∧
      (managerIsInhibited m.inhibitors
        { w := q.inhibitKey, block := true, ignoreInactive := true, ignoreUid := false, uid := 0,
          isActiveSession := q.isActiveSession }).inhibited then (0, m)
  else if q.handle = .lock then (if q.isEdge then 1 else 0, m)
  else if q.handle = .secureAttentionKey then (0, m)
  else if q.handle.isSleep then
    handleActionSleepExecute w m q.handle q.supported q.ignoreInhibited q.isEdge
  else handleActionExecute w m q.handle q.kexecExecutable q.ignoreInhibited q.isEdge

/-- `manager_setup_shutdown_timers` -/
def managerSetupShutdownTimers (shutdownTimer nologinTimer : SdEvent) (m : ActionManager) :
    Int × ActionManager :=
  let (r, s) := eventResetTime shutdownTimer m.scheduledShutdownTimeoutSource
    m.scheduledShutdownTimeout
  let m := { m with scheduledShutdownTimeoutSource := s }
  if r < 0 then
    (r, { m with scheduledShutdownTimeoutSource := none, nologinTimeoutSource := none })
  else
    let (r, s) := eventResetTime nologinTimer m.nologinTimeoutSource
      (m.scheduledShutdownTimeout - 5 * 60000000)
    let m := { m with nologinTimeoutSource := s }
    if r < 0 then
      (r, { m with scheduledShutdownTimeoutSource := none, nologinTimeoutSource := none })
    else (0, m)

/-- A call of `ScheduleShutdown`, with the answers it meets on the way.  For
    the type `USEC_INFINITY` the daemon computes `elapse` from the maintenance
    window or the clock. -/
structure ScheduleRequest where
  handle : HandleAction
  dryRun : Bool
  elapse : Result Nat
  caller : Caller
  shutdownTimer : SdEvent
  nologinTimer : SdEvent
  /-- `setup_wall_message_timer` and `update_schedule_file` -/
  wallAndFile : Result Unit

/-- `method_schedule_shutdown` -/
def methodScheduleShutdown (m : ActionManager) (q : ScheduleRequest) : Int × ActionManager :=
  if !q.handle.isShutdown then (EINVAL.neg, m)
  else
    let r := verifyShutdownCreds m q.caller (handleActionLookup q.handle)
      { rootCheckInhibitors := false, interactive := false, rebootViaKexec := false,
        skipInhibitors := false, other := false }
    if r ≠ 0 then (r, m)
    else
      match q.elapse with
      | .error e => (e.neg, m)
      | .ok elapse =>
        let m := { m with
          scheduledShutdownAction := some q.handle
          shutdownDryRun := q.dryRun
          scheduledShutdownTimeout := elapse }
        let (r, m) := managerSetupShutdownTimers q.shutdownTimer q.nologinTimer m
        if r < 0 then (r, m)
        else
          match q.wallAndFile with
          | .error e => (e.neg, resetScheduledShutdown m)
          | .ok () => (1, m)

/-- `manager_scheduled_shutdown_handler` for the scheduled action `h`, after
    the event loop has turned the one-shot source off. -/
def managerScheduledShutdownHandler (w : World) (m : ActionManager) (h : HandleAction) :
    Int × ActionManager :=
  let m := { m with scheduledShutdownTimeoutSource :=
    m.scheduledShutdownTimeoutSource.map TimeSource.off }
  if m.delayedAction.isSome then (EALREADY.neg, resetScheduledShutdown m)
  else if m.shutdownDryRun then (0, resetScheduledShutdown m)
  else
    let (r, m) := busManagerShutdownOrSleepNowOrLater w m (handleActionLookup h)
    if r < 0 then (r, resetScheduledShutdown m) else (0, m)

/-- `method_cancel_scheduled_shutdown`; `wallOk` is the `asprintf` of the wall
    message. -/
def methodCancelScheduledShutdown (m : ActionManager) (c : Caller) (wallOk : Bool) :
    Int × ActionManager :=
  match m.scheduledShutdownAction with
  | none | some .ignore => (1, m)
  | some h =>
    let a := handleActionLookup h
    match a.polkitAction with
    | none => (EACCES.neg, m)
    | some p =>
      match c.polkit (some p) false false with
      | .error e => (e.neg, m)
      | .ok false => (1, m)
      | .ok true =>
        if !wallOk then (0, m)
        else (1, resetScheduledShutdown (cancelDelayedAction m))

/-! ## Inhibitors -/

/-- A call of `Inhibit`, with the answers it meets on the way.  `what` and
    `mode` are `none` when the daemon cannot parse them. -/
structure InhibitRequest where
  what : Option InhibitWhat
  mode : Option InhibitMode
  who : String
  why : String
  /-- The polkit checks, one for each bit of the mask. -/
  polkit : Result Bool
  uid : Result Nat
  pid : Result Nat
  /-- `asprintf`, `manager_add_inhibitor`, the `strdup`s and
      `inhibitor_create_fifo`. -/
  create : Result Unit
  now : Nat

/-- The search for an unused id: `++m->inhibit_counter` until no inhibitor has
    that id.  With one try more than there are inhibitors it always ends. -/
def nextInhibitId (inhibitors : List Inhibitor) : Nat → Nat → Nat
  | 0, counter => counter
  | tries + 1, counter =>
    let id := (counter + 1) % 2 ^ 64
    if inhibitors.any (·.id == id) then nextInhibitId inhibitors tries id else id

/-- `method_inhibit` -/
def methodInhibit (m : ActionManager) (q : InhibitRequest) : Int × ActionManager :=
  match q.what with
  | none => (EINVAL.neg, m)
  | some w =>
    if w = 0 then (EINVAL.neg, m)
    else
      match q.mode with
      | none => (EINVAL.neg, m)
      | some mode =>
        if mode = .delay ∧ ¬ (w ||| (.shutdown ||| .sleep) = (.shutdown ||| .sleep)) then
          (EINVAL.neg, m)
        else if m.delayedAction.any fun a => (a.what &&& w) != 0 then (EINPROGRESS.neg, m)
        else
          match q.polkit with
          | .error e => (e.neg, m)
          | .ok false => (1, m)
          | .ok true =>
            match q.uid, q.pid with
            | .error e, _ => (e.neg, m)
            | _, .error e => (e.neg, m)
            | .ok uid, .ok pid =>
              if m.inhibitors.length ≥ m.inhibitorsMax then (EBUSY.neg, m)
              else
                let id := nextInhibitId m.inhibitors (m.inhibitors.length + 1) m.inhibitCounter
                let m := { m with inhibitCounter := id }
                match q.create with
                | .error e => (e.neg, m)
                | .ok () =>
                  (1, { m with inhibitors :=
                    { id := id, started := true, what := w, who := q.who, why := q.why,
                      mode := mode, pid := pid, uid := uid, since := q.now } :: m.inhibitors })

/-- `inhibitor_dispatch_fifo`: the last copy of the lock's descriptor has been
    closed, so the inhibitor is stopped and freed. -/
def inhibitorDispatchFifo (m : ActionManager) (id : Nat) : ActionManager :=
  { m with inhibitors := m.inhibitors.filter (·.id != id) }

/-! ## Children -/

/-- `waitpid(pid, &status, WNOHANG | WUNTRACED)`.  `status` keeps its old value
    unless there was a change to report; an ended child is reaped. -/
def waitpid (children : List Child) (pid : Nat) (status : WaitStatus) :
    WaitStatus × List Child :=
  match children.find? (·.pid == pid) with
  | none => (status, children)
  | some c =>
    match c.status with
    | none => (status, children)
    | some st =>
      if st.terminated then (st, children.erase c)
      else (st, children.map fun d => if d = c then { c with status := none } else d)

/-- `elogind_sigchld_handler`.  The local variable `status` is not initialised:
    `garbage` is what it holds on entry. -/
def elogindSigchldHandler (m : ActionManager) (garbage : WaitStatus) : ActionManager :=
  let (m, status) :=
    if m.toolForkPid > 0 then
      let (status, children) := waitpid m.children m.toolForkPid garbage
      let m := { m with children := children }
      (if status.terminated then { m with toolForkPid := 0 } else m, status)
    else (m, garbage)
  if m.sleepForkPid > 0 then
    let a := m.sleepForkAction
    let (status, children) := waitpid m.children m.sleepForkPid status
    let m := { m with children := children }
    let m := if status.terminated then { m with sleepForkPid := 0 } else m
    match a with
    | none => m
    | some a =>
      if a.sleepOperation.isSome then
        let m := sendPrepareFor m a false
        { m with actionJob := none, delayedAction := none, sleepForkAction := none }
      else m
  else m

end Elogind
