/-
  Elogind.Login.ShutdownStep

  The daemon as a transition system on `ActionManager`: everything that can
  happen to it between two turns of its event loop, and what each of these
  events can do.

  The proofs about runs do not look into the functions of
  `Elogind.Login.Shutdown` again.  They use the inversion lemmas of this
  module, which say once what an execution, a dispatch and a request can lead
  to, in terms of the fields that matter (`ActionCore`).
-/

import Elogind.Lib.Run
import Elogind.Login.Shutdown

namespace Elogind

open Errno ActionManager

/-! ## Events -/

inductive ActionEvent where
  /-- One of the methods `PowerOff`, `Reboot`, ..., `Suspend`, ..., `Sleep`. -/
  | request (w : World) (q : ShutdownRequest)
  /-- A key, the lid switch or the idle timeout. -/
  | handle (w : World) (q : HandleRequest)
  | scheduleShutdown (q : ScheduleRequest)
  | scheduledShutdown (w : World) (h : HandleAction)
  | cancelScheduledShutdown (c : Caller) (wallOk : Bool)
  | inhibit (q : InhibitRequest)
  | inhibitorRelease (id : Nat)
  | inhibitTimeout (w : World)
  /-- `manager_run` calls `manager_dispatch_delayed` before it waits. -/
  | dispatchDelayed (w : World)
  /-- A child stops or ends. -/
  | childStatus (pid : Nat) (st : WaitStatus)
  /-- `SIGCHLD`, for whichever child of the daemon. -/
  | sigchld (garbage : WaitStatus)
  /-- The configuration is read again. -/
  | reload (inhibitDelayMax holdoffTimeoutUsec : Nat) (sleepMask : List HandleAction)

/-- The kernel never forks a child with the pid of one that has not been
    reaped. -/
def World.Fresh (w : World) (m : ActionManager) : Prop :=
  ∀ pid, w.fork = .ok pid → 0 < pid ∧ ∀ c ∈ m.children, c.pid ≠ pid

/-- When an event can happen: a timer has to be armed and to have elapsed, a
    child that changes its state has to be there, and the assertions the
    handlers start with have to hold. -/
def ActionEvent.Enabled (m : ActionManager) : ActionEvent → Prop
  | request w q => (q.action.isShutdown ∨ q.action.isSleep) ∧ w.Fresh m
  | handle w q => q.handle ≠ .factoryReset ∧ q.inhibitKey < 1 <<< 8 ∧ w.Fresh m
  | scheduledShutdown w h =>
      m.scheduledShutdownAction = some h ∧ (handleActionLookup h).Executable ∧
        m.scheduledShutdownTimeoutSource.any (·.enabled) ∧ w.Fresh m
  | inhibitTimeout w =>
      (∃ s, m.inhibitTimeoutSource = some s ∧ s.enabled ∧ s.time ≤ w.now) ∧ w.Fresh m
  | dispatchDelayed w => w.Fresh m
  | childStatus pid _ => ∃ c ∈ m.children, c.pid = pid ∧ c.terminated = false
  | _ => True

/-- A child's state changes. -/
def Child.change (pid : Nat) (st : WaitStatus) (c : Child) : Child :=
  if c.pid = pid then { c with status := some st } else c

/-- The state after the event. -/
def ActionManager.step (m : ActionManager) : ActionEvent → ActionManager
  | .request w q => (methodDoShutdownOrSleep w m q).2
  | .handle w q => (managerHandleAction w m q).2
  | .scheduleShutdown q => (methodScheduleShutdown m q).2
  | .scheduledShutdown w h => (managerScheduledShutdownHandler w m h).2
  | .cancelScheduledShutdown c wallOk => (methodCancelScheduledShutdown m c wallOk).2
  | .inhibit q => (methodInhibit m q).2
  | .inhibitorRelease id => inhibitorDispatchFifo m id
  | .inhibitTimeout w => (managerInhibitTimeoutHandler w m).2
  | .dispatchDelayed w => (managerDispatchDelayed w m false).2
  | .childStatus pid st => { m with children := m.children.map (Child.change pid st) }
  | .sigchld garbage => elogindSigchldHandler m garbage
  | .reload delayMax holdoff mask =>
      { m with
        inhibitDelayMax := delayMax
        holdoffTimeoutUsec := holdoff
        handleActionSleepMask := mask }

/-- One event of the daemon. -/
def ActionStep (m : ActionManager) (e : ActionEvent) (m' : ActionManager) : Prop :=
  e.Enabled m ∧ m' = m.step e

/-! ## The fields that matter -/

/-- The fields of `ActionManager` the results are about. -/
structure ActionCore where
  actionJob : Option String
  delayedAction : Option HandleActionData
  sleepForkAction : Option HandleActionData
  sleepForkPid : Nat
  toolForkPid : Nat
  inhibitors : List Inhibitor
  inhibitDelayMax : Nat
  inhibitTimeoutSource : Option TimeSource
  children : List Child

def ActionManager.core (m : ActionManager) : ActionCore where
  actionJob := m.actionJob
  delayedAction := m.delayedAction
  sleepForkAction := m.sleepForkAction
  sleepForkPid := m.sleepForkPid
  toolForkPid := m.toolForkPid
  inhibitors := m.inhibitors
  inhibitDelayMax := m.inhibitDelayMax
  inhibitTimeoutSource := m.inhibitTimeoutSource
  children := m.children

/-- Some started delay lock covers `w`. -/
def ActionCore.Delayed (c : ActionCore) (w : InhibitWhat) : Prop :=
  c.inhibitors.any (·.delays w) = true

instance (c : ActionCore) (w : InhibitWhat) : Decidable (c.Delayed w) :=
  inferInstanceAs (Decidable (_ = _))

@[simp] theorem core_sendPrepareFor (m : ActionManager) (a : HandleActionData) (active : Bool) :
    (sendPrepareFor m a active).core = m.core := by
  unfold sendPrepareFor
  split <;> rfl

@[simp] theorem core_managerSetLidSwitchIgnore (w : World) (m : ActionManager) (till : Nat) :
    (managerSetLidSwitchIgnore w m till).core = m.core := by
  unfold managerSetLidSwitchIgnore
  repeat (first | rfl | split)

/-! ## What an execution can do -/

/-- The outcomes of `execute_shutdown_or_sleep`, as return code and state. -/
inductive Executed (w : World) (a : HandleActionData) (c : ActionCore) :
    Int → ActionCore → Prop where
  /-- An action is remembered as forked already: nothing happens. -/
  | busy (h : c.sleepForkAction.isSome) : Executed w a c 0 c
  /-- Nothing was forked, and nothing is left behind. -/
  | failed {r : Int} (hr : r < 0) (h : c.sleepForkAction = none) : Executed w a c r c
  /-- The name of the job could not be copied; the forked action stays set. -/
  | lost {r : Int} (hr : r < 0) (h : c.sleepForkAction = none) (hw : w.strdupJob = false) :
      Executed w a c r { c with sleepForkAction := some a }
  | forked (pid : Nat) (h : c.sleepForkAction = none) (hw : w.fork = .ok pid) :
      Executed w a c 0 { c with
        actionJob := some a.handle.toString
        delayedAction := some a
        sleepForkAction := some a
        sleepForkPid := pid
        children := { pid := pid, action := a, status := none } :: c.children }

theorem executeShutdownOrSleep_executed (w : World) {m : ActionManager} (a : HandleActionData)
    (hjob : m.actionJob = none) :
    Executed w a m.core (executeShutdownOrSleep w m a).1 (executeShutdownOrSleep w m a).2.core := by
  unfold executeShutdownOrSleep
  by_cases hfork : m.sleepForkAction.isSome = true
  · rw [if_pos hfork]
    exact .busy hfork
  rw [if_neg hfork]
  have hnone : m.core.sleepForkAction = none := by
    simpa [core] using hfork
  unfold elogindExecuteShutdownOrSleep
  by_cases hutmp : (a.handle = .halt ∨ a.handle = .poweroff ∨ a.handle = .reboot) ∧
      (!w.strvExtend) = true
  · simp only [if_pos hutmp, neg_lt_zero, if_true, core_sendPrepareFor]
    exact .failed (neg_lt_zero _) hnone
  simp only [if_neg hutmp]
  by_cases hdup : (!w.strdupJob) = true
  · simp only [if_pos hdup, neg_lt_zero, if_true, core_sendPrepareFor]
    have hcore : core { m with sleepForkAction := some a, actionJob := none } =
        { m.core with sleepForkAction := some a } := by
      simp [core, hjob]
    rw [hcore]
    exact .lost (neg_lt_zero _) hnone (by simpa using hdup)
  simp only [if_neg hdup]
  cases hw : w.fork with
  | error e =>
      simp only [neg_lt_zero, if_true, core_sendPrepareFor]
      have hcore : core { m with sleepForkAction := none, actionJob := none } =
          m.core := by
        have hm : m.sleepForkAction = none := hnone
        simp [core, hjob, hm]
      rw [hcore]
      exact .failed (neg_lt_zero _) hnone
  | ok pid =>
      simp only [show ¬ ((1 : Int) < 0) by decide, if_false, core_managerSetLidSwitchIgnore]
      exact .forked pid hnone hw

/-! ## What a dispatch can do -/

/-- The outcomes of `manager_dispatch_delayed`. -/
inductive Dispatched (w : World) (timeout : Bool) (c : ActionCore) : ActionCore → Prop where
  | idle : Dispatched w timeout c c
  | executed {a : HandleActionData} {r : Int} {c' : ActionCore}
      (ha : c.delayedAction = some a) (hjob : c.actionJob = none)
      (hfree : timeout = true ∨ ¬ c.Delayed a.what) (h : Executed w a c r c') :
      Dispatched w timeout c (if r < 0 then { c' with delayedAction := none } else c')

theorem managerDispatchDelayed_dispatched (w : World) (m : ActionManager) (timeout : Bool) :
    Dispatched w timeout m.core (managerDispatchDelayed w m timeout).2.core := by
  unfold managerDispatchDelayed
  cases ha : m.delayedAction with
  | none => exact .idle
  | some a =>
      simp only
      by_cases hjob : m.actionJob.isSome = true
      · rw [if_pos hjob]
        exact .idle
      rw [if_neg hjob]
      have hjob' : m.actionJob = none := by simpa using hjob
      by_cases hinh : ((managerIsInhibited m.inhibitors (.delay a.what)).inhibited &&
          !timeout) = true
      · rw [if_pos hinh]
        exact .idle
      rw [if_neg hinh]
      have hfree : timeout = true ∨ ¬ m.core.Delayed a.what := by
        rw [managerIsInhibited_delay] at hinh
        cases timeout with
        | true => exact .inl rfl
        | false => exact .inr (by simpa [ActionCore.Delayed, core] using hinh)
      have hexec := executeShutdownOrSleep_executed w a hjob'
      have hres : Dispatched w timeout m.core _ := .executed ha hjob' hfree hexec
      by_cases hr : (executeShutdownOrSleep w m a).1 < 0
      · simp only [if_pos hr] at hres ⊢
        exact hres
      · simp only [if_neg hr] at hres ⊢
        exact hres

/-! ## What a request can do -/

/-- The outcomes of `bus_manager_shutdown_or_sleep_now_or_later`. -/
inductive NowOrLater (w : World) (a : HandleActionData) (c : ActionCore) :
    Int → ActionCore → Prop where
  | failed {r : Int} (hr : r < 0) : NowOrLater w a c r c
  /-- A delay lock stands in the way, but its timeout could not be armed. -/
  | notArmed {r : Int} (hr : r < 0) (s : Option TimeSource) (hmax : 0 < c.inhibitDelayMax)
      (hinh : c.Delayed a.what) : NowOrLater w a c r { c with inhibitTimeoutSource := s }
  | later {now : Nat} (hw : w.event.now = .ok now) (hmax : 0 < c.inhibitDelayMax)
      (hinh : c.Delayed a.what) :
      NowOrLater w a c 0 { c with
        inhibitTimeoutSource := some { time := usecAdd now c.inhibitDelayMax, enabled := true }
        delayedAction := some a }
  | now {r : Int} {c' : ActionCore} (hfree : ¬ (0 < c.inhibitDelayMax ∧ c.Delayed a.what))
      (h : Executed w a c r c') : NowOrLater w a c r c'

theorem eventResetTimeFinish_snd (e : SdEvent) (created : Bool) (s : TimeSource) :
    (eventResetTimeFinish e created s).2 = some s := by
  unfold eventResetTimeFinish
  repeat (first | rfl | split)

/-- When the timer could be armed, it is armed for the time asked for. -/
theorem eventResetTime_ok {e : SdEvent} {s : Option TimeSource} {usec : Nat}
    (h : 0 ≤ (eventResetTime e s usec).1) :
    (eventResetTime e s usec).2 = some { time := usec, enabled := true } := by
  revert h
  unfold eventResetTime
  cases s with
  | none =>
      cases e.addTime with
      | error err => exact fun h => absurd h (Int.not_le.mpr (neg_lt_zero err))
      | ok _ => exact fun _ => eventResetTimeFinish_snd e _ _
  | some s =>
      cases e.getClock with
      | error err => exact fun h => absurd h (Int.not_le.mpr (neg_lt_zero err))
      | ok _ =>
      cases e.setTime with
      | error err => exact fun h => absurd h (Int.not_le.mpr (neg_lt_zero err))
      | ok _ =>
      cases e.setTimeAccuracy with
      | error err => exact fun h => absurd h (Int.not_le.mpr (neg_lt_zero err))
      | ok _ =>
      cases e.setEnabled with
      | error err => exact fun h => absurd h (Int.not_le.mpr (neg_lt_zero err))
      | ok _ => exact fun _ => eventResetTimeFinish_snd e _ _

theorem delayShutdownOrSleep_nowOrLater (w : World) (m : ActionManager) (a : HandleActionData)
    (hmax : 0 < m.inhibitDelayMax) (hinh : m.core.Delayed a.what) :
    NowOrLater w a m.core (delayShutdownOrSleep w m a).1 (delayShutdownOrSleep w m a).2.core := by
  unfold delayShutdownOrSleep eventResetTimeRelative
  rw [if_pos hmax]
  cases hnow : w.event.now with
  | error err =>
      simp only [neg_lt_zero, if_true]
      exact .notArmed (neg_lt_zero err) _ hmax hinh
  | ok now =>
      by_cases hr : (eventResetTime w.event m.inhibitTimeoutSource
          (usecAdd now m.inhibitDelayMax)).1 < 0
      · simp only [if_pos hr]
        exact .notArmed hr _ hmax hinh
      · simp only [if_neg hr]
        rw [eventResetTime_ok (Int.not_lt.mp hr)]
        exact .later hnow hmax hinh

theorem busManagerShutdownOrSleepNowOrLater_nowOrLater (w : World) {m : ActionManager}
    (a : HandleActionData) (hjob : m.actionJob = none) :
    NowOrLater w a m.core (busManagerShutdownOrSleepNowOrLater w m a).1
      (busManagerShutdownOrSleepNowOrLater w m a).2.core := by
  unfold busManagerShutdownOrSleepNowOrLater
  cases w.sleepConfig with
  | error e => exact .failed (neg_lt_zero e)
  | ok c =>
      simp only
      -- whether the clients are told makes no difference to the rest
      generalize hm₁ : (if (a.what = .shutdown ∧ (!c.allowPoweroffInterrupts) = true) ∨
          (a.what = .sleep ∧ (!c.allowSuspendInterrupts) = true)
        then sendPrepareFor m a true else m) = m₁
      have hcore : m₁.core = m.core := by
        rw [← hm₁]
        split
        · exact core_sendPrepareFor m a true
        · rfl
      have hjob₁ : m₁.actionJob = none := (congrArg ActionCore.actionJob hcore).trans hjob
      rw [← hcore, managerIsInhibited_delay]
      by_cases hdel : (decide (m₁.inhibitDelayMax > 0) &&
          m₁.inhibitors.any (·.delays a.what)) = true
      · rw [if_pos hdel]
        rw [Bool.and_eq_true, decide_eq_true_eq] at hdel
        exact delayShutdownOrSleep_nowOrLater w m₁ a hdel.1 hdel.2
      · rw [if_neg hdel]
        refine .now ?_ (executeShutdownOrSleep_executed w a hjob₁)
        intro h
        apply hdel
        rw [Bool.and_eq_true, decide_eq_true_eq]
        exact h

/-! ## Requests as events -/

/-- The concrete action `handle_action_sleep_execute` falls back to. -/
def sleepTargetOne (supported : HandleAction → Bool) (h : HandleAction) : Option HandleAction :=
  if supported h then some h
  else if h ≠ .suspend ∧ supported .suspend then some .suspend
  else none

/-- The action that reaches `handle_action_execute`, with the answer of its
    check for the kexec binary; `none` when `manager_handle_action` ends before. -/
def handledAction (m : ActionManager) (q : HandleRequest) : Option (HandleAction × Bool) :=
  if q.handle = .ignore then none
  else if q.inhibitKey = .handleLidSwitch ∧ m.lidSwitchIgnoreEventSource.isSome then none
  else if q.inhibitKey > 0 ∧
      (managerIsInhibited m.inhibitors
        { w := q.inhibitKey, block := true, ignoreInactive := true, ignoreUid := false, uid := 0,
          isActiveSession := q.isActiveSession }).inhibited then none
  else if q.handle = .lock then none
  else if q.handle = .secureAttentionKey then none
  else if q.handle.isSleep then
    if q.handle = .sleep then
      ((handleActionSleepSelect q.supported m).bind (sleepTargetOne q.supported)).map (·, true)
    else (sleepTargetOne q.supported q.handle).map (·, true)
  else some (q.handle, q.kexecExecutable)

theorem handleActionSleepExecuteOne_eq (w : World) (m : ActionManager) (h : HandleAction)
    (supported : HandleAction → Bool) (ignoreInhibited isEdge : Bool) :
    handleActionSleepExecuteOne w m h supported ignoreInhibited isEdge =
      match sleepTargetOne supported h with
      | none => (EOPNOTSUPP.neg, m)
      | some t => handleActionExecute w m t true ignoreInhibited isEdge := by
  unfold handleActionSleepExecuteOne sleepTargetOne
  by_cases hs : supported h = true
  · simp [hs]
  · by_cases hf : h ≠ .suspend ∧ supported .suspend = true
    · simp [hs, hf]
    · simp [hs, hf]

/-- `manager_handle_action` either leaves the manager alone or hands the action
    on to `handle_action_execute`. -/
theorem managerHandleAction_eq (w : World) (m : ActionManager) (q : HandleRequest) :
    (handledAction m q = none → (managerHandleAction w m q).2 = m) ∧
    (∀ h k, handledAction m q = some (h, k) →
      managerHandleAction w m q = handleActionExecute w m h k q.ignoreInhibited q.isEdge) := by
  unfold handledAction managerHandleAction handleActionSleepExecute
  simp only [handleActionSleepExecuteOne_eq]
  split
  · simp
  split
  · simp
  split
  · simp
  split
  · simp
  split
  · simp
  split
  · split
    · cases handleActionSleepSelect q.supported m with
      | none => simp
      | some a => cases ht : sleepTargetOne q.supported a <;> simp [ht]
    · cases ht : sleepTargetOne q.supported q.handle <;> simp
  · simp

/-- The action an event asks for: the caller of the method is authorised, the
    key is not inhibited, the scheduled shutdown is no dry run. -/
def ActionEvent.asks (m : ActionManager) : ActionEvent → Option HandleActionData
  | request _ q =>
      match requestedAction m q.action q.flags q.kexecLoaded q.supported with
      | .error _ => none
      | .ok a => if verifyShutdownCreds m q.caller a q.flags = 0 then some a else none
  | handle _ q => (handledAction m q).map fun h => handleActionLookup h.1
  | scheduledShutdown _ h => if m.shutdownDryRun then none else some (handleActionLookup h)
  | _ => none

/-- What the system answers while a request is served. -/
def ActionEvent.requestWorld : ActionEvent → Option World
  | request w _ | handle w _ | scheduledShutdown w _ => some w
  | _ => none

/-- The code a request is answered with. -/
def ActionManager.reply (m : ActionManager) : ActionEvent → Int
  | .request w q => (methodDoShutdownOrSleep w m q).1
  | .handle w q => (managerHandleAction w m q).1
  | .scheduledShutdown w h => (managerScheduledShutdownHandler w m h).1
  | _ => 0

/-- The outcomes of a request. -/
inductive Requested (w : World) (m : ActionManager) (e : ActionEvent) : ActionCore → Prop where
  /-- Refused, or not for now: nothing changes. -/
  | refused : Requested w m e m.core
  | taken {a : HandleActionData} {r : Int} {c' : ActionCore} (ha : e.asks m = some a)
      (hfree : m.delayedAction = none) (h : NowOrLater w a m.core r c')
      (hr : 0 ≤ m.reply e ↔ 0 ≤ r) : Requested w m e c'

theorem reply_iff {r k : Int} {m m' : ActionManager} (hk : 0 ≤ k) :
    0 ≤ (if r < 0 then (r, m') else (k, m)).1 ↔ 0 ≤ r := by
  split
  · rfl
  · omega

theorem handleActionExecute_requested {w : World} {m : ActionManager} {q : HandleRequest}
    {h : HandleAction} {k : Bool} (hjob : m.delayedAction = none → m.actionJob = none)
    (ht : handledAction m q = some (h, k)) :
    Requested w m (.handle w q)
      (handleActionExecute w m h k q.ignoreInhibited q.isEdge).2.core := by
  have hreply : m.reply (.handle w q) =
      (handleActionExecute w m h k q.ignoreInhibited q.isEdge).1 := by
    rw [← (managerHandleAction_eq w m q).2 h k ht]
    rfl
  unfold handleActionExecute at hreply ⊢
  split
  · exact .refused
  rename_i hk
  split
  · exact .refused
  rename_i hdel
  simp only
  split
  · exact .refused
  rename_i hblock
  have hfree : m.delayedAction = none := by simpa using hdel
  have hnow := busManagerShutdownOrSleepNowOrLater_nowOrLater w (handleActionLookup h) (hjob hfree)
  refine .taken (a := handleActionLookup h) (r := (busManagerShutdownOrSleepNowOrLater w m
    (handleActionLookup h)).1) ?_ hfree ?_ ?_
  · simp [ActionEvent.asks, ht]
  · split <;> exact hnow
  · rw [hreply, if_neg hk, if_neg hdel]
    simp only [if_neg hblock]
    exact reply_iff (by decide)

theorem step_request {m : ActionManager} {e : ActionEvent} {w : World}
    (hw : e.requestWorld = some w) (hjob : m.delayedAction = none → m.actionJob = none) :
    Requested w m e (m.step e).core := by
  cases e with
  | request w' q =>
      cases hw
      simp only [step, methodDoShutdownOrSleep]
      cases hq : requestedAction m q.action q.flags q.kexecLoaded q.supported with
      | error err => exact .refused
      | ok a =>
          simp only
          split
          · exact .refused
          rename_i hcreds
          split
          · exact .refused
          rename_i hdel
          have hfree : m.delayedAction = none := by simpa using hdel
          -- clearing the schedule does not touch the core
          generalize hm₁ : ({ resetScheduledShutdown m with
            scheduledShutdownTimeout := 0
            scheduledShutdownAction := some q.action } : ActionManager) = m₁
          have hcore : m₁.core = m.core := by rw [← hm₁]; rfl
          have hjob₁ : m₁.actionJob = none :=
            (congrArg ActionCore.actionJob hcore).trans (hjob hfree)
          have hnow := busManagerShutdownOrSleepNowOrLater_nowOrLater w a hjob₁
          rw [hcore] at hnow
          refine .taken (a := a) (r := (busManagerShutdownOrSleepNowOrLater w m₁ a).1) ?_ hfree ?_ ?_
          · simp [ActionEvent.asks, hq, Decidable.not_not.mp hcreds]
          · split <;> exact hnow
          · simp only [reply, methodDoShutdownOrSleep, hq, if_neg hcreds, if_neg hdel,
              hm₁]
            exact reply_iff (by decide)
  | handle w' q =>
      cases hw
      obtain ⟨hnone, hsome⟩ := managerHandleAction_eq w m q
      simp only [step]
      cases ht : handledAction m q with
      | none =>
          rw [hnone ht]
          exact .refused
      | some t =>
          rw [hsome t.1 t.2 ht]
          exact handleActionExecute_requested hjob ht
  | scheduledShutdown w' h =>
      cases hw
      simp only [step, managerScheduledShutdownHandler]
      split
      · exact .refused
      rename_i hdel
      split
      · exact .refused
      rename_i hdry
      have hfree : m.delayedAction = none := by simpa using hdel
      generalize hm₁ : ({ m with scheduledShutdownTimeoutSource :=
        m.scheduledShutdownTimeoutSource.map TimeSource.off } : ActionManager) = m₁
      have hcore : m₁.core = m.core := by rw [← hm₁]; rfl
      have hjob₁ : m₁.actionJob = none :=
        (congrArg ActionCore.actionJob hcore).trans (hjob hfree)
      have hnow := busManagerShutdownOrSleepNowOrLater_nowOrLater w (handleActionLookup h) hjob₁
      rw [hcore] at hnow
      refine .taken (a := handleActionLookup h)
        (r := (busManagerShutdownOrSleepNowOrLater w m₁ (handleActionLookup h)).1) ?_ hfree ?_ ?_
      · simpa [ActionEvent.asks] using hdry
      · split <;> exact hnow
      · simp only [reply, managerScheduledShutdownHandler, hm₁]
        rw [← hm₁, if_neg hdel, if_neg hdry, hm₁]
        exact reply_iff (Int.le_refl 0)
  | scheduleShutdown | cancelScheduledShutdown | inhibit | inhibitorRelease | inhibitTimeout
  | dispatchDelayed | childStatus | sigchld | reload => cases hw

end Elogind
