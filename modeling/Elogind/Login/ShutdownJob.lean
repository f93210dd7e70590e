/-
  Elogind.Login.ShutdownJob

  The job that stands for a forked action.  `action_job` should be set exactly
  while the child that carries out an action has not been reaped, and once it
  has been, the next request should be served.

  The `SIGCHLD` handler does not look at what `waitpid` returned: on a signal
  from any other child it forgets a sleep action that is still under way, and
  it never forgets a shutdown action.  `Reapable` says which signals it handles
  well; in a run of such events the job and the child agree.
-/

import Elogind.Login.ShutdownStep

namespace Elogind

open Errno Lib ActionManager

/-! ## The property -/

/-- Everything the daemon asks of the system to start an action succeeds. -/
def World.Good (w : World) : Prop :=
  (∃ c, w.sleepConfig = .ok c) ∧ w.strvExtend = true ∧ w.strdupJob = true ∧
    (∃ pid, w.fork = .ok pid) ∧ ∃ now, w.event = .good now

/-- A request by an authorised caller for any action is taken: it is answered
    with success and the action is under way or waits for its delay locks. -/
def ActionManager.Accepts (m : ActionManager) : Prop :=
  ∀ (w : World) (q : ShutdownRequest) (a : HandleActionData), w.Good →
    (ActionEvent.request w q).asks m = some a →
    0 ≤ m.reply (.request w q) ∧ (m.step (.request w q)).delayedAction = some a

/-- An accepted action has not been started yet. -/
def ActionManager.Waiting (m : ActionManager) : Prop :=
  m.actionJob = none ∧ m.delayedAction.isSome

/-- The job, the action and the child agree. -/
structure JobTracked (m : ActionManager) : Prop where
  job_iff_child : m.actionJob.isSome ↔ m.children ≠ []
  job_delayed : m.actionJob.isSome → m.delayedAction.isSome
  one_child : m.children.length ≤ 1
  accepts : m.children = [] → ¬ m.Waiting → m.Accepts

/-- The events the daemon handles well.  A `SIGCHLD` that finds an action child
    registered comes when a sleep action's child has ended, or while a shutdown
    action's child has not; and the name of the job can be copied. -/
def ActionEvent.Reapable (m : ActionManager) : ActionEvent → Prop
  | sigchld _ => ∀ c ∈ m.children, c.pid = m.sleepForkPid →
      (c.action.sleepOperation.isSome ↔ c.terminated)
  | request w _ | handle w _ | scheduledShutdown w _ | inhibitTimeout w | dispatchDelayed w =>
      w.strdupJob = true
  | _ => True

/-! ## The invariant -/

/-- What holds between two events of a run of reapable ones. -/
inductive JobState (c : ActionCore) : Prop where
  | idle (htool : c.toolForkPid = 0) (hchild : c.children = []) (hjob : c.actionJob = none)
      (hfork : c.sleepForkAction = none) (hpid : c.sleepForkPid = 0)
  /-- The registered pid can be lost while a shutdown is under way, by a status
      variable that happened to hold a good value. -/
  | running (d : Child) (htool : c.toolForkPid = 0) (hchild : c.children = [d])
      (hpos : 0 < d.pid) (hjob : c.actionJob.isSome) (hdel : c.delayedAction = some d.action)
      (hfork : c.sleepForkAction = some d.action)
      (hpid : c.sleepForkPid = d.pid ∨ c.sleepForkPid = 0 ∧ d.action.sleepOperation = none)

variable {c c' : ActionCore} {w : World} {a : HandleActionData} {m : ActionManager}

theorem JobState.job_none (h : JobState c) (hdel : c.delayedAction = none) : c.actionJob = none := by
  cases h with
  | idle _ _ hjob _ _ => exact hjob
  | running d _ _ _ _ hdel' _ _ => simp [hdel] at hdel'

/-- The invariant does not mention what a request that only waits changes. -/
theorem JobState.waiting (h : JobState c) (hjob : c.actionJob = none) (del : Option HandleActionData)
    (timer : Option TimeSource) :
    JobState { c with delayedAction := del, inhibitTimeoutSource := timer } := by
  cases h with
  | idle htool hchild hjob hfork hpid => exact .idle htool hchild hjob hfork hpid
  | running d _ _ _ hjob' _ _ _ => simp [hjob] at hjob'

theorem Executed.jobState {r : Int} (h : Executed w a c r c') (hc : JobState c)
    (hjob : c.actionJob = none) (hdup : w.strdupJob = true) (hfresh : ∀ pid, w.fork = .ok pid → 0 < pid) :
    JobState c' ∧ (r < 0 → c' = c) := by
  cases h with
  | busy _ | failed _ _ => exact ⟨hc, fun _ => rfl⟩
  | lost _ _ hw => simp [hdup] at hw
  | forked pid hnone hw =>
      refine ⟨?_, fun h => absurd h (by decide)⟩
      cases hc with
      | idle htool hchild _ _ _ =>
          exact .running { pid := pid, action := a, status := none } htool (by simp [hchild])
            (hfresh pid hw) rfl rfl rfl (.inl rfl)
      | running d _ _ _ hjob' _ _ _ => simp [hjob] at hjob'

theorem Dispatched.jobState {timeout : Bool} (h : Dispatched w timeout c c') (hc : JobState c)
    (hdup : w.strdupJob = true) (hfresh : ∀ pid, w.fork = .ok pid → 0 < pid) : JobState c' := by
  cases h with
  | idle => exact hc
  | @executed a r c' ha hjob hfree hex =>
      obtain ⟨hc', hsame⟩ := hex.jobState hc hjob hdup hfresh
      by_cases hr : r < 0
      · rw [if_pos hr, hsame hr]
        exact hc.waiting hjob none c.inhibitTimeoutSource
      · rw [if_neg hr]
        exact hc'

theorem NowOrLater.jobState {r : Int} (h : NowOrLater w a c r c') (hc : JobState c)
    (hjob : c.actionJob = none) (hdup : w.strdupJob = true) (hfresh : ∀ pid, w.fork = .ok pid → 0 < pid) :
    JobState c' := by
  cases h with
  | failed _ => exact hc
  | notArmed _ s _ _ => exact hc.waiting hjob c.delayedAction s
  | later _ _ _ => exact hc.waiting hjob (some a) _
  | now _ hex => exact (hex.jobState hc hjob hdup hfresh).1

theorem Requested.jobState {e : ActionEvent} (h : Requested w m e c') (hc : JobState m.core)
    (hdup : w.strdupJob = true) (hfresh : ∀ pid, w.fork = .ok pid → 0 < pid) : JobState c' := by
  cases h with
  | refused => exact hc
  | taken _ hfree hnow _ => exact hnow.jobState hc (hc.job_none hfree) hdup hfresh

/-! ## The remaining events -/

theorem core_managerSetupShutdownTimers (e₁ e₂ : SdEvent) (m : ActionManager) :
    (managerSetupShutdownTimers e₁ e₂ m).2.core = m.core := by
  unfold managerSetupShutdownTimers
  simp only
  split
  · rfl
  · split <;> rfl

theorem core_methodScheduleShutdown (m : ActionManager) (q : ScheduleRequest) :
    (methodScheduleShutdown m q).2.core = m.core := by
  unfold methodScheduleShutdown
  split
  · rfl
  simp only
  split
  · rfl
  split
  · rfl
  rename_i elapse _
  have hcore := core_managerSetupShutdownTimers q.shutdownTimer q.nologinTimer
    { m with
      scheduledShutdownAction := some q.handle
      shutdownDryRun := q.dryRun
      scheduledShutdownTimeout := elapse }
  split
  · exact hcore
  · split <;> exact hcore

/-- Cancelling leaves the core alone or withdraws an action that waits. -/
theorem core_methodCancelScheduledShutdown (m : ActionManager) (c : Caller) (wallOk : Bool) :
    (methodCancelScheduledShutdown m c wallOk).2.core = m.core ∨
      (methodCancelScheduledShutdown m c wallOk).2.core = (cancelDelayedAction m).core := by
  unfold methodCancelScheduledShutdown
  split
  · exact .inl rfl
  · exact .inl rfl
  · simp only
    repeat (first | exact .inl rfl | exact .inr rfl | split)

theorem cancelDelayedAction_jobState (h : JobState m.core) : JobState (cancelDelayedAction m).core := by
  unfold cancelDelayedAction
  simp only
  split
  · rename_i hjob
    exact h.waiting (by simpa [core] using hjob) none _
  · cases h with
    | idle htool hchild hjob hfork hpid => exact .idle htool hchild hjob hfork hpid
    | running d htool hchild hpos hjob hdel hfork hpid =>
        exact .running d htool hchild hpos hjob hdel hfork hpid

/-- Calls of `Inhibit` only add to the list of inhibitors. -/
theorem core_methodInhibit (m : ActionManager) (q : InhibitRequest) :
    ∃ is, (methodInhibit m q).2.core = { m.core with inhibitors := is } := by
  unfold methodInhibit
  repeat (first | exact ⟨_, rfl⟩ | split | simp only)

theorem JobState.inhibitors (h : JobState c) (is : List Inhibitor) (delayMax : Nat) :
    JobState { c with inhibitors := is, inhibitDelayMax := delayMax } := by
  cases h with
  | idle htool hchild hjob hfork hpid => exact .idle htool hchild hjob hfork hpid
  | running d htool hchild hpos hjob hdel hfork hpid =>
      exact .running d htool hchild hpos hjob hdel hfork hpid

theorem childStatus_jobState (h : JobState m.core) (pid : Nat) (st : WaitStatus) :
    JobState (m.step (.childStatus pid st)).core := by
  cases h with
  | idle htool hchild hjob hfork hpid =>
      have hc : m.children = [] := hchild
      exact .idle htool (by simp [step, core, hc]) hjob hfork hpid
  | running d htool hchild hpos hjob hdel hfork hpid =>
      have hc : m.children = [d] := hchild
      have hd : (d.change pid st).pid = d.pid ∧ (d.change pid st).action = d.action := by
        unfold Child.change
        split <;> exact ⟨rfl, rfl⟩
      refine .running (d.change pid st) htool
        (by simp [step, core, hc]) ?_ hjob ?_ ?_ ?_
      · rw [hd.1]
        exact hpos
      · rw [hd.2]
        exact hdel
      · rw [hd.2]
        exact hfork
      · rw [hd.1, hd.2]
        exact hpid

/-! ## SIGCHLD -/

theorem waitpid_ended {d : Child} (st : WaitStatus) (hd : d.terminated = true) :
    ∃ st', st'.terminated = true ∧ waitpid [d] d.pid st = (st', []) := by
  unfold Child.terminated at hd
  cases hs : d.status with
  | none => simp [hs] at hd
  | some st' =>
      rw [hs] at hd
      exact ⟨st', hd, by simp_all [waitpid]⟩

theorem waitpid_running {d : Child} (st : WaitStatus) (hd : d.terminated = false) :
    ∃ d', d'.pid = d.pid ∧ d'.action = d.action ∧ (waitpid [d] d.pid st).2 = [d'] := by
  unfold Child.terminated at hd
  cases hs : d.status with
  | none => exact ⟨d, rfl, rfl, by simp [waitpid, hs]⟩
  | some st' =>
      exact ⟨{ d with status := none }, rfl, rfl, by simp_all [waitpid]⟩

/-- The handler without a tool child, when a child is registered. -/
theorem elogindSigchldHandler_core (garbage : WaitStatus) (htool : m.toolForkPid = 0)
    (hpid : 0 < m.sleepForkPid) (ha : m.sleepForkAction = some a) :
    (elogindSigchldHandler m garbage).core =
      { m.core with
        children := (waitpid m.children m.sleepForkPid garbage).2
        sleepForkPid := if (waitpid m.children m.sleepForkPid garbage).1.terminated then 0
          else m.sleepForkPid
        actionJob := if a.sleepOperation.isSome then none else m.actionJob
        delayedAction := if a.sleepOperation.isSome then none else m.delayedAction
        sleepForkAction := if a.sleepOperation.isSome then none else some a } := by
  have hno : ¬ m.toolForkPid > 0 := by omega
  have hyes : m.sleepForkPid > 0 := hpid
  simp only [elogindSigchldHandler, if_neg hno, if_pos hyes, ha]
  by_cases hst : (waitpid m.children m.sleepForkPid garbage).1.terminated = true <;>
    by_cases hop : a.sleepOperation.isSome = true
  · simp only [hst, hop, if_true, sendPrepareFor]
    split <;> rfl
  · simp only [hst, hop, if_true, if_false, core, Bool.false_eq_true, ha]
  · simp only [hst, hop, if_true, if_false, Bool.false_eq_true, sendPrepareFor]
    split <;> rfl
  · simp only [hst, hop, if_false, core, Bool.false_eq_true, ha]

theorem sigchld_jobState (h : JobState m.core) (garbage : WaitStatus)
    (hreap : (ActionEvent.sigchld garbage).Reapable m) :
    JobState (elogindSigchldHandler m garbage).core := by
  cases h with
  | idle htool hchild hjob hfork hpid =>
      have ht : m.toolForkPid = 0 := htool
      have hp : m.sleepForkPid = 0 := hpid
      have hsame : elogindSigchldHandler m garbage = m := by
        simp [elogindSigchldHandler, ht, hp]
      rw [hsame]
      exact .idle htool hchild hjob hfork hpid
  | running d htool hchild hpos hjob hdel hfork hpid =>
      have ht : m.toolForkPid = 0 := htool
      have hc : m.children = [d] := hchild
      have hf : m.sleepForkAction = some d.action := hfork
      rcases hpid with hpid | ⟨hpid, hop⟩
      · have hp : m.sleepForkPid = d.pid := hpid
        have hd := hreap d (by simp [hc]) hp.symm
        rw [elogindSigchldHandler_core garbage ht (by omega) hf, hc, hp]
        cases hterm : d.terminated with
        | true =>
            -- the child of a sleep action is reaped, and the action forgotten
            obtain ⟨st', hst', hwait⟩ := waitpid_ended garbage hterm
            have hop := hd.mpr hterm
            refine .idle htool ?_ ?_ ?_ ?_ <;> simp [hwait, hop, hst']
        | false =>
            -- the child of a shutdown action stays, and so does its job
            obtain ⟨d', hd'pid, hd'act, hwait⟩ := waitpid_running garbage hterm
            have hop : ¬ d.action.sleepOperation.isSome = true := by
              intro hop
              simp [hd.mp hop] at hterm
            have hnone : d.action.sleepOperation = none := by simpa using hop
            refine .running d' htool hwait (by omega) ?_ ?_ ?_ ?_
            · simpa [hnone, core] using hjob
            · rw [hd'act]
              simpa [hnone, core] using hdel
            · simp [hnone, hd'act]
            · rw [hd'act, hd'pid]
              by_cases hst : (waitpid [d] d.pid garbage).1.terminated = true
              · exact .inr ⟨by simp [hst], hnone⟩
              · exact .inl (by simp [hst])
      · have hp : m.sleepForkPid = 0 := hpid
        have hsame : elogindSigchldHandler m garbage = m := by
          simp [elogindSigchldHandler, ht, hp]
        rw [hsame]
        exact .running d htool hchild hpos hjob hdel hfork (.inr ⟨hpid, hop⟩)

/-! ## Runs -/

theorem step_jobState {e : ActionEvent} (h : JobState m.core) (hen : e.Enabled m) (hreap : e.Reapable m) :
    JobState (m.step e).core := by
  have hrequest : ∀ w, e.requestWorld = some w → w.strdupJob = true → w.Fresh m →
      JobState (m.step e).core := fun w hw hdup hfresh =>
    (step_request hw h.job_none).jobState h hdup fun pid hpid => (hfresh pid hpid).1
  cases e with
  | request w q => exact hrequest w rfl hreap hen.2
  | handle w q => exact hrequest w rfl hreap hen.2.2
  | scheduledShutdown w a => exact hrequest w rfl hreap hen.2.2.2
  | scheduleShutdown q =>
      simp only [step, core_methodScheduleShutdown]
      exact h
  | cancelScheduledShutdown c wallOk =>
      simp only [step]
      obtain heq | heq := core_methodCancelScheduledShutdown m c wallOk
      · rw [heq]
        exact h
      · rw [heq]
        exact cancelDelayedAction_jobState h
  | inhibit q =>
      obtain ⟨is, heq⟩ := core_methodInhibit m q
      simp only [step, heq]
      exact h.inhibitors is m.inhibitDelayMax
  | inhibitorRelease id => exact h.inhibitors _ m.inhibitDelayMax
  | inhibitTimeout w =>
      refine (managerDispatchDelayed_dispatched w _ true).jobState ?_ hreap
        fun pid hpid => (hen.2 pid hpid).1
      cases h with
      | idle htool hchild hjob hfork hpid => exact .idle htool hchild hjob hfork hpid
      | running d htool hchild hpos hjob hdel hfork hpid =>
          exact .running d htool hchild hpos hjob hdel hfork hpid
  | dispatchDelayed w =>
      exact (managerDispatchDelayed_dispatched w m false).jobState h hreap
        fun pid hpid => (hen pid hpid).1
  | childStatus pid st => exact childStatus_jobState h pid st
  | sigchld garbage => exact sigchld_jobState h garbage hreap
  | reload delayMax holdoff mask => exact h.inhibitors m.inhibitors delayMax

/-- With a good system a request that finds no action in progress is taken. -/
theorem accepts_of_free (hdel : m.delayedAction = none) (hfork : m.sleepForkAction = none) :
    m.Accepts := by
  intro w q a ⟨⟨c, hconf⟩, hutmp, hdup, ⟨pid, hpid⟩, now, hev⟩ hasks
  simp only [ActionEvent.asks] at hasks
  cases hq : requestedAction m q.action q.flags q.kexecLoaded q.supported with
  | error err => simp [hq] at hasks
  | ok a' =>
      simp only [hq] at hasks
      split at hasks
      · rename_i hcreds
        cases hasks
        simp only [reply, step, methodDoShutdownOrSleep, hq, hcreds,
          ne_eq, not_true_eq_false, if_false, hdel, Option.isSome_none, Bool.false_eq_true]
        generalize hm₁ : ({ resetScheduledShutdown m with
          scheduledShutdownTimeout := 0
          scheduledShutdownAction := some q.action } : ActionManager) = m₁
        have hfork₁ : m₁.sleepForkAction = none := by rw [← hm₁]; exact hfork
        suffices hs : 0 ≤ (busManagerShutdownOrSleepNowOrLater w m₁ a).1 ∧
            (busManagerShutdownOrSleepNowOrLater w m₁ a).2.delayedAction = some a by
          rw [if_neg (by omega)]
          exact ⟨Int.one_nonneg, hs.2⟩
        simp only [busManagerShutdownOrSleepNowOrLater, hconf]
        generalize hm₂ : (if (a.what = .shutdown ∧ (!c.allowPoweroffInterrupts) = true) ∨
            (a.what = .sleep ∧ (!c.allowSuspendInterrupts) = true)
          then sendPrepareFor m₁ a true else m₁) = m₂
        have hcore : m₂.core = m₁.core := by
          rw [← hm₂]
          split
          · exact core_sendPrepareFor m₁ a true
          · rfl
        have hfork₂ : m₂.sleepForkAction = none :=
          (congrArg ActionCore.sleepForkAction hcore).trans hfork₁
        split
        · -- the timer can be armed
          rename_i hmax
          have hmax' : 0 < m₂.inhibitDelayMax := by
            simp only [Bool.and_eq_true, decide_eq_true_eq] at hmax
            exact hmax.1
          cases hs : m₂.inhibitTimeoutSource <;>
            simp [delayShutdownOrSleep, eventResetTimeRelative, hmax', hev, SdEvent.good,
              eventResetTime, eventResetTimeFinish, hs]
        · -- the child can be forked
          simp only [executeShutdownOrSleep, hfork₂, elogindExecuteShutdownOrSleep, hutmp, hdup,
            hpid, Option.isSome_none, Bool.false_eq_true, Bool.not_true, and_false, if_false,
            show ¬ ((1 : Int) < 0) by decide]
          refine ⟨by decide, ?_⟩
          have := congrArg ActionCore.delayedAction (core_managerSetLidSwitchIgnore w
            { m₂ with
              sleepForkAction := some a
              actionJob := some a.handle.toString
              sleepForkPid := pid
              children := { pid := pid, action := a, status := none } :: m₂.children
              delayedAction := some a } (usecAdd w.now m₂.holdoffTimeoutUsec))
          exact this
      · cases hasks

theorem JobState.tracked (h : JobState m.core) : JobTracked m := by
  cases h with
  | idle htool hchild hjob hfork hpid =>
      have hc : m.children = [] := hchild
      have hj : m.actionJob = none := hjob
      refine ⟨by simp [hj, hc], by simp [hj], by simp [hc], ?_⟩
      intro _ hwait
      refine accepts_of_free ?_ hfork
      cases hdel : m.delayedAction with
      | none => rfl
      | some a => exact absurd ⟨hj, by simp [hdel]⟩ hwait
  | running d htool hchild hpos hjob hdel hfork hpid =>
      have hc : m.children = [d] := hchild
      have hd : m.delayedAction = some d.action := hdel
      have hj : m.actionJob.isSome := hjob
      refine ⟨by simp [hc, hj], by simp [hd], by simp [hc], ?_⟩
      intro hnil
      simp [hc] at hnil

/-- A step of the daemon that it handles well. -/
def ReapableStep (m : ActionManager) (e : ActionEvent) (m' : ActionManager) : Prop :=
  ActionStep m e m' ∧ e.Reapable m

/-- In every run whose events are all reapable (`ReapableStep`), from the start of
    the daemon on, the managers are `JobTracked`: the job, the delayed action and the action child agree, there is never
    more than one child, and when it has been reaped requests are taken again. -/
theorem jobTracked_of_run {es : List ActionEvent} {m : ActionManager}
    (hrun : Run ReapableStep .init es m) : JobTracked m := by
  have hinv : JobState m.core := by
    refine hrun.invariant (I := fun m => JobState m.core) (.idle rfl rfl rfl rfl rfl) ?_
    rintro t t' e ht ⟨⟨hen, rfl⟩, hreap⟩
    exact step_jobState ht hen hreap
  exact hinv.tracked

/-! ## A suspend request -/

/-- A system on which everything succeeds and the child gets the pid 100. -/
def goodWorld : World where
  sleepConfig := .ok { allowPoweroffInterrupts := false, allowSuspendInterrupts := false }
  strvExtend := true
  strdupJob := true
  fork := .ok 100
  now := 1000
  lidTimer := .ok ()
  event := .good 1000

/-- `Suspend` called by root, who is always authorised. -/
def suspendRequest : ShutdownRequest where
  action := .suspend
  flags := {
    rootCheckInhibitors := false, interactive := false, rebootViaKexec := false,
    skipInhibitors := false, other := false }
  kexecLoaded := false
  supported := fun _ => true
  caller := { uid := .ok 0, multipleSessions := false, polkit := fun _ _ _ => .ok true }

theorem goodWorld_fresh (h : m.children = []) : goodWorld.Fresh m := by
  intro pid hpid
  cases hpid
  simp [h]

/-- Suspending and waking up again: the child is forked, ends, and is reaped. -/
theorem jobTracked_suspend :
    JobTracked (((ActionManager.init.step (.request goodWorld suspendRequest)).step
      (.childStatus 100 (.exited 0))).step (.sigchld (.stopped 0))) := by
  apply jobTracked_of_run
  show Run ReapableStep .init [.request goodWorld suspendRequest,
    .childStatus 100 (.exited 0), .sigchld (.stopped 0)] _
  refine .cons ⟨⟨⟨.inr rfl, goodWorld_fresh rfl⟩, rfl⟩, rfl⟩ (.cons ⟨⟨?_, rfl⟩, trivial⟩
    (.single ⟨⟨trivial, rfl⟩, ?_⟩))
  · exact ⟨_, List.mem_singleton.mpr rfl, rfl, rfl⟩
  · intro c hc _
    rw [List.mem_singleton.mp hc]
    decide

/-- While the machine is being suspended some other child of the daemon ends.
    The handler forgets the job, although the action's child is still there. -/
theorem not_jobTracked_of_other_child :
    ¬ ∀ (es : List ActionEvent) (m : ActionManager), Run ActionStep .init es m → JobTracked m := by
  intro h
  have hrun : Run ActionStep .init
      [.request goodWorld suspendRequest, .sigchld (.stopped 0)]
      ((init.step (.request goodWorld suspendRequest)).step (.sigchld (.stopped 0))) :=
    .cons ⟨⟨.inr rfl, goodWorld_fresh rfl⟩, rfl⟩ (.single ⟨trivial, rfl⟩)
  have hjob := (h _ _ hrun).job_iff_child
  revert hjob
  decide

end Elogind
