/-
  Elogind.Login.ShutdownDelay

  Delay locks.  An action that is requested while a started delay lock covers
  it has to wait: until no such lock is left, or until the timeout armed for
  the request has elapsed.  Meanwhile nobody can take another delay lock on it,
  and no other action is accepted.

  The argument follows one request.  `step_waits` says what a single event can
  do to a manager in which it is outstanding; the run lemma carries that along
  any sequence of events.
-/

import Elogind.Login.ShutdownJob

namespace Elogind

open Errno Lib ActionManager

/-! ## The property -/

/-- The action has been accepted and has not been started. -/
def ActionCore.Outstanding (c : ActionCore) (a : HandleActionData) : Prop :=
  c.delayedAction = some a ∧ c.actionJob = none

/-- Between the two states a child was forked that carries out `a`. -/
def Executes (c c' : ActionCore) (a : HandleActionData) : Prop :=
  ∃ pid, c'.children = { pid := pid, action := a, status := none } :: c.children

/-- What an event may do while the request for `a` is outstanding, the timeout
    of which was armed for the time `t`. -/
structure Respects (a : HandleActionData) (t : Nat) (m : ActionManager) (e : ActionEvent)
    (c' : ActionCore) : Prop where
  /-- Only `a` is executed, and only without a lock or after the timeout. -/
  executed : ∀ b, Executes m.core c' b →
    b = a ∧ (¬ m.core.Delayed a.what ∨ ∃ w, e = .inhibitTimeout w ∧ t ≤ w.now)
  /-- A delay lock on the action is an old one. -/
  locks : ∀ i ∈ c'.inhibitors, i.delays a.what → i ∈ m.inhibitors
  /-- A request for any action is refused. -/
  requests : ∀ b, e.asks m = some b → m.reply e < 0 ∧ c'.Outstanding a
  /-- The request stays outstanding, is executed or is withdrawn. -/
  ends : c'.Outstanding a ∨ Executes m.core c' a ∨
    (c'.delayedAction = none ∧ ∀ b, ¬ Executes m.core c' b)

/-- A step at both ends of which the request for `a` is outstanding. -/
def WaitStep (a : HandleActionData) (m : ActionManager) (e : ActionEvent) (m' : ActionManager) :
    Prop :=
  ActionStep m e m' ∧ m.core.Outstanding a ∧ m'.core.Outstanding a

/-- The request is outstanding, and its timeout was armed for `t`. -/
structure Waits (a : HandleActionData) (t : Nat) (c : ActionCore) : Prop where
  outstanding : c.Outstanding a
  timer : ∃ enabled, c.inhibitTimeoutSource = some { time := t, enabled := enabled }

/-! ## Lemmas on the events -/

variable {c c' : ActionCore} {w : World} {r : Int} {m : ActionManager} {e : ActionEvent}
  {b : HandleActionData}

theorem not_executes_of_length (h : c'.children.length ≤ c.children.length) (a : HandleActionData) :
    ¬ Executes c c' a := by
  rintro ⟨pid, heq⟩
  rw [heq, List.length_cons] at h
  omega

theorem Executed.waiting {a : HandleActionData} (h : Executed w a c r c') :
    (c'.children = c.children ∧ c'.actionJob = c.actionJob ∧ c'.delayedAction = c.delayedAction ∨
      0 ≤ r ∧ Executes c c' a ∧ c'.delayedAction = some a) ∧
    c'.inhibitors = c.inhibitors ∧ c'.inhibitTimeoutSource = c.inhibitTimeoutSource := by
  cases h with
  | busy _ | failed _ _ | lost _ _ _ => exact ⟨.inl ⟨rfl, rfl, rfl⟩, rfl, rfl⟩
  | forked pid _ _ => exact ⟨.inr ⟨Int.le_refl 0, ⟨pid, rfl⟩, rfl⟩, rfl, rfl⟩

/-- While an action is in progress every request is refused. -/
theorem reply_of_delayed (hdel : m.delayedAction.isSome = true) (hasks : e.asks m = some b) :
    m.reply e < 0 := by
  cases e with
  | request w q =>
      simp only [ActionEvent.asks] at hasks
      simp only [reply, methodDoShutdownOrSleep]
      cases hq : requestedAction m q.action q.flags q.kexecLoaded q.supported with
      | error err => exact neg_lt_zero err
      | ok a =>
          simp only [hq] at hasks
          split at hasks
          · rename_i hcreds
            simp only [hcreds, ne_eq, not_true_eq_false, if_false, if_pos hdel]
            exact neg_lt_zero _
          · cases hasks
  | handle w q =>
      simp only [ActionEvent.asks, Option.map_eq_some_iff] at hasks
      obtain ⟨⟨h, k⟩, ht, _⟩ := hasks
      simp only [reply, (managerHandleAction_eq w m q).2 h k ht,
        handleActionExecute]
      split
      · exact neg_lt_zero _
      · exact neg_lt_zero _
  | scheduledShutdown w h =>
      simp only [reply, managerScheduledShutdownHandler, if_pos hdel]
      exact neg_lt_zero _
  | scheduleShutdown | cancelScheduledShutdown | inhibit | inhibitorRelease | inhibitTimeout
  | dispatchDelayed | childStatus | sigchld | reload => cases hasks

/-- `Inhibit` refuses a lock on the operation of the action in progress. -/
theorem methodInhibit_cases (m : ActionManager) (q : InhibitRequest) :
    (methodInhibit m q).2.core = m.core ∨
    ∃ i : Inhibitor, (methodInhibit m q).2.core = { m.core with inhibitors := i :: m.inhibitors } ∧
      ∀ a, m.delayedAction = some a → a.what &&& i.what = 0 := by
  unfold methodInhibit
  split
  · exact .inl rfl
  rename_i w _
  split
  · exact .inl rfl
  split
  · exact .inl rfl
  split
  · exact .inl rfl
  split
  · exact .inl rfl
  rename_i hfree
  split
  · exact .inl rfl
  · exact .inl rfl
  split
  · exact .inl rfl
  · exact .inl rfl
  split
  · exact .inl rfl
  split
  · exact .inl rfl
  refine .inr ⟨_, rfl, ?_⟩
  intro a ha
  simpa [ha] using hfree

theorem waitpid_length (cs : List Child) (pid : Nat) (st : WaitStatus) :
    (waitpid cs pid st).2.length ≤ cs.length := by
  unfold waitpid
  split
  · exact Nat.le_refl _
  split
  · exact Nat.le_refl _
  split
  · exact List.length_erase_le
  · simp

/-- The `SIGCHLD` handler forgets the job and the delayed action together or
    not at all, and never adds a child. -/
theorem elogindSigchldHandler_cases (m : ActionManager) (garbage : WaitStatus) :
    let c' := (elogindSigchldHandler m garbage).core
    (c'.actionJob = m.actionJob ∧ c'.delayedAction = m.delayedAction ∨
      c'.actionJob = none ∧ c'.delayedAction = none) ∧
    c'.inhibitors = m.inhibitors ∧ c'.inhibitTimeoutSource = m.inhibitTimeoutSource ∧
    c'.children.length ≤ m.children.length := by
  unfold elogindSigchldHandler
  -- the part for the tool child changes two fields only
  generalize htool : (if m.toolForkPid > 0 then
    ((if (waitpid m.children m.toolForkPid garbage).1.terminated = true then
        { m with children := (waitpid m.children m.toolForkPid garbage).2, toolForkPid := 0 }
      else { m with children := (waitpid m.children m.toolForkPid garbage).2 } : ActionManager),
      (waitpid m.children m.toolForkPid garbage).1)
    else (m, garbage)) = p
  obtain ⟨m₁, status⟩ := p
  have h₁ : m₁.actionJob = m.actionJob ∧ m₁.delayedAction = m.delayedAction ∧
      m₁.inhibitors = m.inhibitors ∧ m₁.inhibitTimeoutSource = m.inhibitTimeoutSource ∧
      m₁.children.length ≤ m.children.length := by
    split at htool
    · cases htool
      have hlen := waitpid_length m.children m.toolForkPid garbage
      split <;> exact ⟨rfl, rfl, rfl, rfl, hlen⟩
    · cases htool
      exact ⟨rfl, rfl, rfl, rfl, Nat.le_refl _⟩
  obtain ⟨hjob, hdel, hinh, htimer, hlen⟩ := h₁
  simp only
  have hwait := Nat.le_trans (waitpid_length m₁.children m₁.sleepForkPid status) hlen
  split
  · split
    · split <;> exact ⟨.inl ⟨hjob, hdel⟩, hinh, htimer, hwait⟩
    · split
      · unfold sendPrepareFor
        split <;> split <;> exact ⟨.inr ⟨rfl, rfl⟩, hinh, htimer, hwait⟩
      · split <;> exact ⟨.inl ⟨hjob, hdel⟩, hinh, htimer, hwait⟩
  · exact ⟨.inl ⟨hjob, hdel⟩, hinh, htimer, hlen⟩

/-! ## One event while the request is outstanding -/

variable {a : HandleActionData} {t : Nat}

/-- An event that asks for nothing, forks nothing and takes no lock. -/
theorem Waits.quiet (hasks : e.asks m = none) (hlen : c'.children.length ≤ m.children.length)
    (hinh : ∀ i ∈ c'.inhibitors, i.delays a.what → i ∈ m.inhibitors)
    (hends : c'.Outstanding a ∨ c'.delayedAction = none) : Respects a t m e c' where
  executed b hb := absurd hb (not_executes_of_length hlen b)
  locks := hinh
  requests b hb := by rw [hasks] at hb; cases hb
  ends := hends.imp id fun h => .inr ⟨h, not_executes_of_length hlen⟩

theorem Waits.dispatched {m₀ : ActionManager} {timeout : Bool} (hw : Waits a t m.core)
    (h : Dispatched w timeout m₀.core (m.step e).core) (hchild : m₀.children = m.children)
    (hinh : m₀.inhibitors = m.inhibitors) (hdel : m₀.delayedAction = m.delayedAction)
    (hjob : m₀.actionJob = m.actionJob) (hasks : e.asks m = none)
    (htime : timeout = true → ∃ w, e = .inhibitTimeout w ∧ t ≤ w.now) :
    Respects a t m e (m.step e).core ∧
      (m.step e).core.inhibitTimeoutSource = m₀.inhibitTimeoutSource := by
  have hout : m₀.delayedAction = some a ∧ m₀.actionJob = none :=
    ⟨hdel.trans hw.outstanding.1, hjob.trans hw.outstanding.2⟩
  generalize (m.step e).core = c' at h ⊢
  cases h with
  | idle =>
      refine ⟨Waits.quiet hasks (by simp [core, hchild]) ?_ (.inl hout), rfl⟩
      intro i hi _
      simpa [core, hinh] using hi
  | @executed b r c' hb _ hfree hex =>
      have hba : b = a := by
        have hb' : m₀.delayedAction = some b := hb
        rw [hout.1] at hb'
        cases hb'
        rfl
      subst hba
      obtain ⟨hcases, hinh', htimer⟩ := hex.waiting
      have hlocks : ∀ i ∈ c'.inhibitors, i ∈ m.inhibitors := by
        intro i hi
        rw [hinh'] at hi
        simpa [core, hinh] using hi
      rcases hcases with ⟨hch, hj, hd⟩ | ⟨hr, ⟨pid, hex⟩, hd⟩
      · have hlen : c'.children.length ≤ m.children.length := by
          simp [hch, core, hchild]
        by_cases hr : r < 0
        · rw [if_pos hr]
          exact ⟨Waits.quiet hasks hlen (fun i hi _ => hlocks i hi) (.inr rfl), htimer⟩
        · rw [if_neg hr]
          exact ⟨Waits.quiet hasks hlen (fun i hi _ => hlocks i hi)
            (.inl ⟨hd.trans hout.1, hj.trans hout.2⟩), htimer⟩
      · rw [if_neg (Int.not_lt.mpr hr)]
        have hexec : Executes m.core c' b := ⟨pid, by simpa [core, hchild] using hex⟩
        refine ⟨⟨?_, fun i hi _ => hlocks i hi, ?_, .inr (.inl hexec)⟩, htimer⟩
        · -- the child that was forked carries out the delayed action
          rintro b' ⟨pid', hb'⟩
          have hact : b' = b := by
            rw [hexec.choose_spec] at hb'
            simp only [List.cons.injEq, Child.mk.injEq] at hb'
            exact hb'.1.2.1.symm
          refine ⟨hact, ?_⟩
          rcases hfree with htrue | hfree
          · exact .inr (htime htrue)
          · exact .inl (by simpa [ActionCore.Delayed, core, hinh] using hfree)
        · intro b' hb'
          rw [hasks] at hb'
          cases hb'

/-- What one event can do to an outstanding request. -/
theorem step_waits (hw : Waits a t m.core) (hen : e.Enabled m) :
    Respects a t m e (m.step e).core ∧ ((m.step e).core.Outstanding a → Waits a t (m.step e).core) := by
  obtain ⟨hdel, hjob⟩ := hw.outstanding
  obtain ⟨en, htimer⟩ := hw.timer
  have hsome : m.delayedAction.isSome = true := Option.isSome_iff_exists.mpr ⟨a, hdel⟩
  have hkeep : ∀ i ∈ m.inhibitors, i.delays a.what = true → i ∈ m.inhibitors := fun i hi _ => hi
  -- an event that leaves the core alone
  have hsame : (m.step e).core = m.core →
      (∀ b, e.asks m = some b → m.reply e < 0 ∧ m.core.Outstanding a) →
      Respects a t m e (m.step e).core ∧
        ((m.step e).core.Outstanding a → Waits a t (m.step e).core) := by
    intro hcore hasks
    rw [hcore]
    exact ⟨⟨fun b hb => absurd hb (not_executes_of_length (Nat.le_refl _) b), hkeep, hasks,
      .inl hw.outstanding⟩, fun _ => hw⟩
  -- a request is refused
  have hrequest : ∀ w, e.requestWorld = some w →
      Respects a t m e (m.step e).core ∧
        ((m.step e).core.Outstanding a → Waits a t (m.step e).core) := by
    intro w hworld
    have hreq := step_request (m := m) hworld (fun hnone => by simp [hnone] at hsome)
    refine hsame ?_ fun b hb => ⟨reply_of_delayed hsome hb, hw.outstanding⟩
    generalize (m.step e).core = c' at hreq
    cases hreq with
    | refused => rfl
    | taken _ hfree _ _ => simp [hfree] at hsome
  cases e with
  | request w q | handle w q | scheduledShutdown w h => exact hrequest w rfl
  | scheduleShutdown q => exact hsame (core_methodScheduleShutdown m q) (fun b hb => by cases hb)
  | cancelScheduledShutdown c wallOk =>
      obtain heq | heq := core_methodCancelScheduledShutdown m c wallOk
      · exact hsame heq (fun b hb => by cases hb)
      · simp only [step, heq]
        have hcancel : (cancelDelayedAction m).core =
            { m.core with
              inhibitTimeoutSource := m.inhibitTimeoutSource.map TimeSource.off
              delayedAction := none } := by
          have hj : m.actionJob = none := hjob
          simp [cancelDelayedAction, hj, core]
        rw [hcancel]
        refine ⟨Waits.quiet rfl (Nat.le_refl _) hkeep (.inr rfl), ?_⟩
        rintro ⟨hnone, _⟩
        cases hnone
  | inhibit q =>
      obtain heq | ⟨i, heq, hfree⟩ := methodInhibit_cases m q
      · exact hsame heq (fun b hb => by cases hb)
      · simp only [step, heq]
        refine ⟨Waits.quiet rfl (Nat.le_refl _) ?_ (.inl ⟨hdel, hjob⟩), fun _ =>
          ⟨⟨hdel, hjob⟩, en, htimer⟩⟩
        intro j hj hdelays
        rcases List.mem_cons.mp hj with rfl | hj
        · -- the new lock does not cover the action
          have hzero : j.what &&& a.what = 0 := by
            rw [Nat.and_comm]
            exact hfree a hdel
          simp [Inhibitor.delays, hzero] at hdelays
        · exact hj
  | inhibitorRelease id =>
      refine ⟨Waits.quiet rfl (Nat.le_refl _) ?_ (.inl ⟨hdel, hjob⟩), fun _ =>
        ⟨⟨hdel, hjob⟩, en, htimer⟩⟩
      intro i hi _
      exact (List.mem_filter.mp hi).1
  | inhibitTimeout w =>
      obtain ⟨⟨s, hs, _, htime⟩, _⟩ := hen
      have hst : s.time = t := by
        have hs' : m.inhibitTimeoutSource = some { time := t, enabled := en } := htimer
        rw [hs] at hs'
        cases hs'
        rfl
      have hdisp := managerDispatchDelayed_dispatched w
        { m with inhibitTimeoutSource := m.inhibitTimeoutSource.map TimeSource.off } true
      obtain ⟨hres, htimer'⟩ := hw.dispatched (e := .inhibitTimeout w) hdisp rfl rfl rfl rfl rfl
        (fun _ => ⟨w, rfl, by omega⟩)
      refine ⟨hres, fun hout => ⟨hout, false, ?_⟩⟩
      have hs' : m.inhibitTimeoutSource = some { time := t, enabled := en } := htimer
      rw [htimer', hs']
      rfl
  | dispatchDelayed w =>
      obtain ⟨hres, htimer'⟩ := hw.dispatched (e := .dispatchDelayed w)
        (managerDispatchDelayed_dispatched w m false) rfl rfl rfl rfl rfl (fun h => by cases h)
      exact ⟨hres, fun hout => ⟨hout, en, htimer'.trans htimer⟩⟩
  | childStatus pid st =>
      exact ⟨Waits.quiet rfl (by simp [step, core]) hkeep
        (.inl ⟨hdel, hjob⟩), fun _ => ⟨⟨hdel, hjob⟩, en, htimer⟩⟩
  | sigchld garbage =>
      obtain ⟨hcases, hinh, htimer', hlen⟩ := elogindSigchldHandler_cases m garbage
      refine ⟨Waits.quiet rfl hlen ?_ ?_, fun hout => ⟨hout, en, htimer'.trans htimer⟩⟩
      · intro i hi _
        rwa [step, hinh] at hi
      · rcases hcases with ⟨hj, hd⟩ | ⟨_, hd⟩
        · exact .inl ⟨hd.trans hdel, hj.trans hjob⟩
        · exact .inr hd
  | reload delayMax holdoff mask =>
      exact ⟨Waits.quiet rfl (Nat.le_refl _) hkeep (.inl ⟨hdel, hjob⟩), fun _ =>
        ⟨⟨hdel, hjob⟩, en, htimer⟩⟩

theorem Waits.run {m' : ActionManager} {es : List ActionEvent} (hw : Waits a t m.core)
    (hrun : Run (WaitStep a) m es m') : Waits a t m'.core := by
  refine hrun.invariant (I := fun m => Waits a t m.core) hw ?_
  rintro s s' e hs ⟨⟨hen, rfl⟩, _, hout⟩
  exact (step_waits hs hen).2 hout

/-! ## Every run -/

/-- A job always belongs to a delayed action. -/
def JobDelayed (c : ActionCore) : Prop := c.actionJob.isSome → c.delayedAction.isSome

theorem Executed.jobDelayed (h : Executed w b c r c') (hc : JobDelayed c) :
    JobDelayed c' ∧ (r < 0 → c'.actionJob = c.actionJob) := by
  cases h with
  | busy _ | failed _ _ | lost _ _ _ => exact ⟨hc, fun _ => rfl⟩
  | forked pid _ _ => exact ⟨fun _ => rfl, fun h => absurd h (by decide)⟩

theorem Dispatched.jobDelayed {timeout : Bool} (h : Dispatched w timeout c c') (hc : JobDelayed c) :
    JobDelayed c' := by
  cases h with
  | idle => exact hc
  | @executed b r c' _ hjob _ hex =>
      obtain ⟨hc', hsame⟩ := hex.jobDelayed hc
      by_cases hr : r < 0
      · rw [if_pos hr]
        intro hj
        simp [hsame hr, hjob] at hj
      · rwa [if_neg hr]

theorem NowOrLater.jobDelayed (h : NowOrLater w b c r c') (hc : JobDelayed c) : JobDelayed c' := by
  cases h with
  | failed _ | notArmed _ _ _ _ => exact hc
  | later _ _ _ => exact fun _ => rfl
  | now _ hex => exact (hex.jobDelayed hc).1

theorem JobDelayed.job_none (h : JobDelayed c) (hdel : c.delayedAction = none) :
    c.actionJob = none := by
  unfold JobDelayed at h
  cases hj : c.actionJob with
  | none => rfl
  | some j => simp [hj, hdel] at h

theorem step_jobDelayed (e : ActionEvent) (h : JobDelayed m.core) : JobDelayed (m.step e).core := by
  have hrequest : ∀ w, e.requestWorld = some w → JobDelayed (m.step e).core := by
    intro w hw
    have hreq := step_request hw h.job_none
    generalize (m.step e).core = c' at hreq ⊢
    cases hreq with
    | refused => exact h
    | taken _ _ hnow _ => exact hnow.jobDelayed h
  cases e with
  | request w q | handle w q | scheduledShutdown w b => exact hrequest w rfl
  | scheduleShutdown q =>
      simp only [step, core_methodScheduleShutdown]
      exact h
  | cancelScheduledShutdown c wallOk =>
      simp only [step]
      obtain heq | heq := core_methodCancelScheduledShutdown m c wallOk
      · rw [heq]
        exact h
      · rw [heq]
        unfold cancelDelayedAction
        simp only
        split
        · rename_i hnone
          intro hj
          have hj' : m.actionJob.isSome = true := hj
          simp [Option.isNone_iff_eq_none.mp hnone] at hj'
        · exact h
  | inhibit q =>
      obtain ⟨is, heq⟩ := core_methodInhibit m q
      simp only [step, heq]
      exact h
  | inhibitorRelease id | childStatus pid st | reload delayMax holdoff mask => exact h
  | inhibitTimeout w => exact (managerDispatchDelayed_dispatched w _ true).jobDelayed h
  | dispatchDelayed w => exact (managerDispatchDelayed_dispatched w m false).jobDelayed h
  | sigchld garbage =>
      obtain ⟨⟨hj, hd⟩ | ⟨hj, _⟩, _⟩ := elogindSigchldHandler_cases m garbage
      · intro hjob
        rw [step, hj] at hjob
        rw [step, hd]
        exact h hjob
      · intro hjob
        rw [step, hj] at hjob
        cases hjob

theorem jobDelayed_of_run {es : List ActionEvent} (hrun : Run ActionStep .init es m) :
    JobDelayed m.core := by
  refine hrun.invariant (I := fun m => JobDelayed m.core) (fun h => by cases h) ?_
  rintro s s' e hs ⟨_, rfl⟩
  exact step_jobDelayed e hs

/-- In every run of the daemon: an action that is asked for while a started
    delay lock covers it, and the maximal delay is not zero, is not executed by
    that request.  It is either not accepted, or its timeout is armed (`w`, `now`)
    and every event from then on `Respects` the lock, for as long as it is
    `Outstanding`. -/
theorem delayLocks_respected {es₀ : List ActionEvent} {m₀ m₁ : ActionManager} {e : ActionEvent}
    (hrun : Run ActionStep .init es₀ m₀) (hstep : ActionStep m₀ e m₁)
    (hasks : e.asks m₀ = some a) (hmax : 0 < m₀.inhibitDelayMax)
    (hlock : m₀.core.Delayed a.what) :
    (∀ b, ¬ Executes m₀.core m₁.core b) ∧
    (m₁.delayedAction = m₀.delayedAction ∨
      ∃ w now, e.requestWorld = some w ∧ w.event.now = .ok now ∧ m₁.core.Outstanding a ∧
        ∀ es m, Run (WaitStep a) m₁ es m → ∀ e' m', ActionStep m e' m' →
          Respects a (usecAdd now m₀.inhibitDelayMax) m e' m'.core) := by
  obtain ⟨_, rfl⟩ := hstep
  obtain ⟨w, hw⟩ : ∃ w, e.requestWorld = some w := by
    cases e with
    | request w _ | handle w _ | scheduledShutdown w _ => exact ⟨w, rfl⟩
    | scheduleShutdown | cancelScheduledShutdown | inhibit | inhibitorRelease | inhibitTimeout
    | dispatchDelayed | childStatus | sigchld | reload => cases hasks
  have hreq := step_request hw (jobDelayed_of_run hrun).job_none
  have hdel : (m₀.step e).delayedAction = (m₀.step e).core.delayedAction := rfl
  rw [hdel]
  generalize hc : (m₀.step e).core = c' at hreq
  cases hreq with
  | refused => exact ⟨not_executes_of_length (Nat.le_refl _), .inl rfl⟩
  | @taken b r _ hb hfree hnow _ =>
      have hba : b = a := by
        rw [hasks] at hb
        cases hb
        rfl
      subst hba
      cases hnow with
      | failed _ | notArmed _ _ _ _ => exact ⟨not_executes_of_length (Nat.le_refl _), .inl rfl⟩
      | now hnot _ => exact absurd ⟨hmax, hlock⟩ hnot
      | @later now hnow _ _ =>
          have hout : m₀.core.actionJob = none := (jobDelayed_of_run hrun).job_none hfree
          refine ⟨not_executes_of_length (Nat.le_refl _), .inr ⟨w, now, hw, hnow, ⟨rfl, hout⟩, ?_⟩⟩
          intro es m hrun' e' m' ⟨hen, hm'⟩
          have hwaits : Waits b (usecAdd now m₀.inhibitDelayMax) (m₀.step e).core := by
            rw [hc]
            exact ⟨⟨rfl, hout⟩, true, rfl⟩
          subst hm'
          exact (step_waits (hwaits.run hrun') hen).1

/-- A call of `Inhibit` that takes a delay lock on sleep. -/
def sleepLockRequest : InhibitRequest where
  what := some .sleep
  mode := some .delay
  who := "editor"
  why := "unsaved documents"
  polkit := .ok true
  uid := .ok 1000
  pid := .ok 42
  create := .ok ()
  now := 500

/-- A manager on which somebody has taken a delay lock on sleep. -/
def sleepLocked : ActionManager := ActionManager.init.step (.inhibit sleepLockRequest)

/-- Suspending under a delay lock: the request waits, for five seconds at most. -/
theorem delayLocks_respected_suspend :
    (∀ b, ¬ Executes sleepLocked.core
      (sleepLocked.step (.request goodWorld suspendRequest)).core b) ∧
    ∀ es m, Run (WaitStep (handleActionLookup .suspend))
        (sleepLocked.step (.request goodWorld suspendRequest)) es m →
      ∀ e' m', ActionStep m e' m' →
        Respects (handleActionLookup .suspend) 5001000 m e' m'.core := by
  have hrun : Run ActionStep .init [.inhibit sleepLockRequest] sleepLocked :=
    .single ⟨trivial, rfl⟩
  obtain ⟨hnot, hcases⟩ := delayLocks_respected (e := .request goodWorld suspendRequest)
    (a := handleActionLookup .suspend) hrun ⟨⟨.inr rfl, goodWorld_fresh rfl⟩, rfl⟩ rfl
    (by decide) (by decide)
  refine ⟨hnot, ?_⟩
  rcases hcases with hsame | ⟨w, now, hw, hnow, _, hrest⟩
  · exact absurd hsame (by decide)
  · cases hw
    cases hnow
    exact hrest

end Elogind
