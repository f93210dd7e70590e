/-
  Elogind.Login.Collector

  The garbage collector ends.  Its three loops take objects out of three queues
  while what they call puts objects in: stopping a seat queues the seat, finalizing
  a session queues the session and its user, and stopping or finalizing a user
  queues the user.  Each of these is freed within the same round, which takes it
  out of its queue again, so that every round leaves one object less waiting.
-/

import Mathlib.Data.List.Perm.Subperm
import Elogind.Lib.Loop
import Elogind.Login.DecomposeTeardown

namespace Elogind

open Function Lib Manager List

/-! ## Functions that leave the lists and queues alone -/

section Lists

variable {D : Option Ref} {m m' : Manager}

theorem lists_of_withoutSds (h : m'.withoutSds = m.withoutSds) : m'.lists = m.lists := by
  have hlists := congrArg lists h
  exact hlists

theorem lists_retire (m : Manager) (s : Ref) : (m.sessionRetire s).lists = m.lists := by
  unfold sessionRetire
  split
  · rfl
  · exact lists_evict ..

theorem lists_electDisplay (m : Manager) (u : Ref) : (m.userElectDisplay u).lists = m.lists := by
  have hloop : ∀ (l : List Ref) (m : Manager),
      (l.foldl (electDisplay u) m).lists = m.lists := by
    intro l
    induction l with
    | nil => exact fun _ => rfl
    | cons s l ih =>
      intro m
      rw [foldl_cons, ih]
      unfold electDisplay
      split <;> rfl
  exact hloop _ m

theorem lists_sessionStop (m : Manager) (s : Ref) : (m.sessionStop s).lists = m.lists := by
  unfold sessionStop
  split
  · rfl
  · split
    · rfl
    · exact (lists_electDisplay _ _).trans (lists_retire m s)

theorem lists_stopSessions (l : List Ref) (m : Manager) :
    (l.foldl Manager.sessionStop m).lists = m.lists := by
  induction l generalizing m with
  | nil => rfl
  | cons s l ih => rw [foldl_cons, ih, lists_sessionStop]

theorem lists_setActive (env : Env) (m : Manager) (x : Ref) (a : Option Ref) :
    (m.seatSetActive env x a).lists = m.lists := by
  have hput : (m.seatPutActive x a).lists = m.lists := rfl
  exact (lists_of_withoutSds (withoutSds_setActive env m x a)).trans hput

/-- Freeing a device of a seat that has its flag puts nothing into a queue. -/
theorem lists_deviceFree (hw : Wf D m) {d : Ref}
    (hd : ∀ x, m.device.seat d = some x → m.seat.inGcQueue x = true) :
    (m.deviceFree d).lists =
      { m.lists with seatDevices := fun x => (m.seat.devices x).erase d } := by
  have hdevices := devices_deviceFree hw d
  have hframe : ((m.device.sessionDevices d).foldl sessionDeviceFree m).lists = m.lists :=
    lists_of_withoutSds (withoutSds_foldl (fun _ sd => withoutSds_free sd)
      (m.device.sessionDevices d) m)
  -- apart from the devices
  have hrest : { (m.deviceFree d).lists with seatDevices := m.seat.devices } = m.lists := by
    show { (m.deviceDetach d).lists with seatDevices := m.seat.devices } = m.lists
    unfold deviceDetach
    split
    · rfl
    · next x hx =>
      have hflag := congrFun (congrArg Lists.seatFlag hframe) x
      have hunlink : { (((m.device.sessionDevices d).foldl sessionDeviceFree
          m).seatUnlinkDevice x d).lists with seatDevices := m.seat.devices } = m.lists := by
        show { ((m.device.sessionDevices d).foldl sessionDeviceFree m).lists with
          seatDevices := m.seat.devices } = m.lists
        rw [hframe]
        rfl
      dsimp only
      split
      · exact hunlink
      · unfold seatAddToGcQueue
        rw [if_pos]
        · exact hunlink
        · exact hflag.trans (hd x hx)
  rw [← hdevices, ← hrest]
  rfl

theorem deviceFree_seat (hw : Wf D m) (d e : Ref) {x : Ref}
    (he : (m.deviceFree d).device.seat e = some x) : m.device.seat e = some x := by
  have hw' := (does_deviceFree (P := fun _ => True) trivial hw d).wf hw
  have hmem := (hw'.seatDevices.mem_iff x e).mpr he
  rw [devices_deviceFree hw d] at hmem
  exact (hw.seatDevices.mem_iff x e).mp (mem_of_mem_erase hmem)

theorem lists_freeDevicesOf (hw : Wf D m) {l : List Ref}
    (hl : ∀ d ∈ l, ∀ x, m.device.seat d = some x → m.seat.inGcQueue x = true) :
    (l.foldl Manager.deviceFree m).lists =
      { m.lists with seatDevices := fun x => l.foldl List.erase (m.seat.devices x) } := by
  induction l generalizing m with
  | nil => rfl
  | cons d l ih =>
    have hstep := lists_deviceFree hw (hl d (by simp))
    have hflag : (m.deviceFree d).seat.inGcQueue = m.seat.inGcQueue :=
      congrArg Lists.seatFlag hstep
    have hdevices : (m.deviceFree d).seat.devices = fun x => (m.seat.devices x).erase d :=
      congrArg Lists.seatDevices hstep
    rw [foldl_cons, ih ((does_deviceFree (P := fun _ => True) trivial hw d).wf hw), hstep,
      hdevices]
    · rfl
    · intro e he x hx
      rw [hflag]
      exact hl e (by simp [he]) x (deviceFree_seat hw d e hx)

/-- Taking a list of objects out of a list without repetitions. -/
theorem mem_foldl_erase {l q : List Ref} (hq : q.Nodup) (r : Ref) :
    r ∈ l.foldl List.erase q ↔ r ∈ q ∧ r ∉ l := by
  induction l generalizing q with
  | nil => simp
  | cons a l ih =>
    rw [foldl_cons, ih (hq.erase a), hq.mem_erase_iff, mem_cons]
    constructor
    · rintro ⟨⟨hne, hr⟩, hl⟩
      exact ⟨hr, fun h => h.elim hne hl⟩
    · rintro ⟨hr, hl⟩
      exact ⟨⟨fun h => hl (.inl h), hr⟩, fun h => hl (.inr h)⟩

end Lists

/-! ## What functions put into the queues -/

/-- The queue of seats stays, and what is new in the other two is among the given
    objects. -/
structure Queues (m m' : Manager) (sessions users : List Ref) : Prop where
  seats : m'.seatGcQueue = m.seatGcQueue
  sessions : ∀ s ∈ m'.sessionGcQueue, s ∈ sessions ∨ s ∈ m.sessionGcQueue
  users : ∀ u ∈ m'.userGcQueue, u ∈ users ∨ u ∈ m.userGcQueue

namespace Queues

variable {D : Option Ref} {m m' m'' : Manager} {sessions users : List Ref}

theorem of_lists (h : m'.lists = m.lists) : Queues m m' sessions users := by
  have hsessions : m'.sessionGcQueue = m.sessionGcQueue := congrArg Lists.sessionQueue h
  have husers : m'.userGcQueue = m.userGcQueue := congrArg Lists.userQueue h
  exact ⟨congrArg Lists.seatQueue h, fun s hs => .inr (hsessions ▸ hs),
    fun u hu => .inr (husers ▸ hu)⟩

theorem trans (h : Queues m m' sessions users) (h' : Queues m' m'' sessions users) :
    Queues m m'' sessions users where
  seats := h'.seats.trans h.seats
  sessions s hs := (h'.sessions s hs).elim .inl (h.sessions s)
  users u hu := (h'.users u hu).elim .inl (h.users u)

theorem queueSession (m : Manager) {s : Ref} (hs : s ∈ sessions) :
    Queues m (m.sessionAddToGcQueue s) sessions users := by
  unfold sessionAddToGcQueue
  split
  · exact of_lists rfl
  · refine ⟨rfl, ?_, fun u hu => .inr hu⟩
    intro t ht
    rcases mem_cons.mp ht with rfl | ht
    · exact .inl hs
    · exact .inr ht

theorem queueUser (m : Manager) {u : Ref} (hu : u ∈ users) :
    Queues m (m.userAddToGcQueue u) sessions users := by
  unfold userAddToGcQueue
  split
  · exact of_lists rfl
  · refine ⟨rfl, fun s hs => .inr hs, ?_⟩
    intro t ht
    rcases mem_cons.mp ht with rfl | ht
    · exact .inl hu
    · exact .inr ht

/-- `session_finalize` queues the session and its user. -/
theorem finalize (env : Env) (m : Manager) {s : Ref} (hs : s ∈ sessions)
    (hu : ∀ u, m.session.user s = some u → u ∈ users) :
    Queues m (m.sessionFinalize env s) sessions users := by
  unfold sessionFinalize
  split
  · exact of_lists rfl
  · next u huser =>
    have hfree : Queues m ((m.sessionRetire s).sessionFreeDevices s) sessions users :=
      of_lists ((lists_of_withoutSds (withoutSds_freeDevices s)).trans (lists_retire m s))
    have hqueue := (hfree.trans (queueSession _ hs)).trans (queueUser _ (hu u huser))
    dsimp only
    generalize ((((m.sessionRetire s).sessionFreeDevices s).sessionAddToGcQueue
      s).userAddToGcQueue u) = m₁ at hqueue ⊢
    have hstopped : Queues m (m₁.sessionPutStarted s false) sessions users :=
      hqueue.trans (of_lists rfl)
    refine hstopped.trans (of_lists ?_)
    rw [lists_resetLeader]
    split
    · rfl
    · split
      · exact lists_setActive ..
      · rfl

/-- `user_finalize` queues the user and its sessions. -/
theorem finalizeAll (hw : Wf D m) (env : Env) {l : List Ref} (hl : ∀ s ∈ l, s ∈ sessions)
    (hu : ∀ s ∈ l, ∀ u, m.session.user s = some u → u ∈ users) :
    Queues m (l.foldl (Manager.sessionFinalize env) m) sessions users := by
  induction l generalizing m with
  | nil => exact of_lists rfl
  | cons s l ih =>
    have hobj := (does_sessionFinalize plain_steady account_steady hw env s).objects
    have huser : (m.sessionFinalize env s).session.user = m.session.user :=
      congrArg Objects.sessionUser hobj
    refine (finalize env m (hl s (by simp)) (hu s (by simp))).trans
      (ih ((does_sessionFinalize (P := fun _ => True) trivial trivial hw env s).wf hw) ?_ ?_)
    · exact fun t ht => hl t (by simp [ht])
    · intro t ht
      rw [huser]
      exact hu t (by simp [ht])

end Queues

/-! ## One round of each loop -/

section Rounds

variable {D : Option Ref} {m : Manager}

/-- Stopping and freeing a seat leaves nothing of it in its queue. -/
theorem seatQueue_stopFree (hw : Wf none m) (env : Env) {x : Ref} (hx : m.seat.live x)
    (hflag : m.seat.inGcQueue x = false) :
    ((m.seatStop x).seatFree env x).seatGcQueue = m.seatGcQueue := by
  have hstop : (m.seatStop x).lists =
      { m.lists with
        seatFlag := update m.seat.inGcQueue x true
        seatQueue := x :: m.seatGcQueue } := by
    have hlists := lists_stopSessions (m.seat.sessions x) m
    have hsame : (m.seatStopSessions x).seat.inGcQueue = m.seat.inGcQueue :=
      congrArg Lists.seatFlag hlists
    show ((m.seatStopSessions x).seatAddToGcQueue x).lists = _
    unfold seatAddToGcQueue
    rw [if_neg (by rw [hsame, hflag]; exact Bool.false_ne_true)]
    show { (m.seatStopSessions x).lists with
      seatFlag := update (m.seatStopSessions x).seat.inGcQueue x true
      seatQueue := x :: (m.seatStopSessions x).lists.seatQueue } = _
    rw [hsame, show (m.seatStopSessions x).lists = m.lists from hlists]
    rfl
  have hw₁ := (does_seatStop (P := fun _ => True) trivial trivial hw hx).wf hw
  have hset := seatStop_flag m x
  have hqueue : (m.seatStop x).seatGcQueue = x :: m.seatGcQueue := congrArg Lists.seatQueue hstop
  generalize m.seatStop x = m₁ at hw₁ hset hqueue
  unfold seatFree
  rw [if_pos hset]
  have hw₂ := hw₁.seatUnqueue hset
  have hrest : (m₁.seatUnqueue x).seatGcQueue = m.seatGcQueue := by
    show m₁.seatGcQueue.erase x = m.seatGcQueue
    rw [hqueue, erase_cons_head]
  have hset₂ : (m₁.seatUnqueue x).seat.inGcQueue x = true := hset
  generalize m₁.seatUnqueue x = m₂ at hw₂ hrest hset₂
  have hfree := lists_freeSessions hw₂ env (m₂.seat.sessions x)
  have hw₃ := (does_freeSessions tears_true hw₂ env
    (m₂.seat.sessions x)).wf hw₂
  dsimp only
  generalize (m₂.seat.sessions x).foldl (sessionFree env) m₂ = m₃ at hfree hw₃
  have hset₃ : m₃.seat.inGcQueue x = true :=
    (congrFun (congrArg Lists.seatFlag hfree) x).trans hset₂
  have hrest₃ : m₃.seatGcQueue = m.seatGcQueue := (congrArg Lists.seatQueue hfree).trans hrest
  -- the flag, which is still set, keeps the devices from queueing their seat again
  have hdevices := lists_freeDevicesOf (l := m₃.seat.devices x) hw₃ (by
    intro d hd y hy
    have heq := Option.some.inj (hy.symm.trans ((hw₃.seatDevices.mem_iff x d).mp hd))
    rw [heq]
    exact hset₃)
  exact (congrArg Lists.seatQueue hdevices).trans hrest₃

/-- A round of the first loop: the queue gets shorter, and a seat that may go is
    gone. -/
theorem gcSeat_round (hw : Wf none m) (env : Env) (dropNotStarted : Bool) {x : Ref}
    {rest : List Ref} (hq : m.seatGcQueue = x :: rest) :
    ((m.seatPop x rest).gcSeat env x dropNotStarted).seatGcQueue = rest ∧
    ((m.seatPop x rest).seatMayGc x dropNotStarted = true →
      ((m.seatPop x rest).gcSeat env x dropNotStarted).seat.live x = false) := by
  have hw₁ : Wf none (m.seatPop x rest) := hw.seatPop hq
  unfold gcSeat
  split
  · refine ⟨?_, fun _ => update_self ..⟩
    exact seatQueue_stopFree hw₁ env (seatQueue_live hw hq) (update_self ..)
  · next hmay => exact ⟨rfl, fun h => absurd h hmay⟩

theorem electDisplay_session (m : Manager) (u : Ref) :
    (m.userElectDisplay u).session = m.session ∧
    (m.userElectDisplay u).user =
      { m.user with display := (m.userElectDisplay u).user.display } := by
  have hloop : ∀ (l : List Ref) (m : Manager),
      (l.foldl (electDisplay u) m).session = m.session ∧
      (l.foldl (electDisplay u) m).user =
        { m.user with display := (l.foldl (electDisplay u) m).user.display } := by
    intro l
    induction l with
    | nil => exact fun _ => ⟨rfl, rfl⟩
    | cons s l ih =>
      intro m
      have hstep : (m.electDisplay u s).session = m.session ∧
          (m.electDisplay u s).user =
            { m.user with display := (m.electDisplay u s).user.display } := by
        unfold electDisplay
        split <;> exact ⟨rfl, rfl⟩
      obtain ⟨hsession, huser⟩ := ih (m.electDisplay u s)
      rw [foldl_cons, hsession, huser, hstep.2]
      exact ⟨hstep.1, rfl⟩
  exact hloop _ m

theorem retire_session (m : Manager) (s : Ref) :
    (m.sessionRetire s).session =
      { m.session with
        timer := update m.session.timer s false
        position := (m.sessionRetire s).session.position } ∧
    (m.sessionRetire s).user = m.user := by
  have hevict : ∀ (m : Manager) x, (m.seatEvictPosition x s).user = m.user := by
    intro m x
    unfold seatEvictPosition
    dsimp only
    split
    · rfl
    · split <;> rfl
  unfold sessionRetire
  split
  · exact ⟨rfl, rfl⟩
  · rw [evict_session, hevict]
    exact ⟨rfl, rfl⟩

/-- `session_stop` on a session that can be stopped. -/
theorem sessionStop_session {s u : Ref} (hu : m.session.user s = some u)
    (hrun : (!m.session.started s || m.session.stopping s) = false) :
    (m.sessionStop s).session =
      { m.session with
        timer := update m.session.timer s false
        position := (m.sessionRetire s).session.position
        fifo := update m.session.fifo s false
        stopping := update m.session.stopping s true } := by
  unfold sessionStop
  rw [hu]
  dsimp only
  rw [hrun, if_neg Bool.false_ne_true, (electDisplay_session _ u).1]
  show { (m.sessionRetire s).session with
    fifo := update (m.sessionRetire s).session.fifo s false
    stopping := update (m.sessionRetire s).session.stopping s true } = _
  rw [(retire_session m s).1]

/-- Stopping a session that may be collected does not make it needed again. -/
theorem sessionMayGc_stop (env : Env) {s : Ref} {dropNotStarted : Bool}
    (h : m.sessionMayGc env s dropNotStarted = true) :
    (m.sessionStop s).sessionMayGc env s dropNotStarted = true := by
  cases hu : m.session.user s with
  | none =>
    have hsame : m.sessionStop s = m := by
      unfold sessionStop
      rw [hu]
    rw [hsame]
    exact h
  | some u =>
    cases hrun : !m.session.started s || m.session.stopping s with
    | true =>
      have hsame : m.sessionStop s = m := by
        unfold sessionStop
        rw [hu]
        dsimp only
        rw [hrun, if_pos rfl]
      rw [hsame]
      exact h
    | false =>
      have hstarted : m.session.started s = true := by
        rw [Bool.or_eq_false_iff] at hrun
        simpa using hrun.1
      unfold sessionMayGc at h ⊢
      rw [sessionStop_session hu hrun]
      rw [hstarted, hu] at h ⊢
      generalize (if (m.session.leader s).isNone = true then Except.error Errno.ESRCH
        else env.leaderAlive s) = alive at h ⊢
      -- there is no FIFO any more, and the session is stopping
      cases alive with
      | error e => simp
      | ok b =>
        cases b with
        | false => simp
        | true => simp at h

/-- Finalizing and freeing a session takes it out of its queue. -/
theorem queues_finalizeFree (hw : Wf D m) (env : Env) (s : Ref) :
    ((m.sessionFinalize env s).sessionFree env s).seatGcQueue = m.seatGcQueue ∧
    ∀ t ∈ ((m.sessionFinalize env s).sessionFree env s).sessionGcQueue,
      t ≠ s ∧ t ∈ m.sessionGcQueue := by
  have hfinal : Queues m (m.sessionFinalize env s) [s] (m.session.user s).toList :=
    .finalize env m (mem_singleton.mpr rfl) (by simp)
  have hw₁ := (does_sessionFinalize (P := fun _ => True) trivial trivial hw env s).wf hw
  generalize m.sessionFinalize env s = m₁ at hfinal hw₁
  have hfree := lists_sessionFree hw₁ env s
  have hseats : (m₁.sessionFree env s).seatGcQueue = m₁.seatGcQueue :=
    congrArg Lists.seatQueue hfree
  have hsessions : (m₁.sessionFree env s).sessionGcQueue = m₁.sessionGcQueue.erase s :=
    congrArg Lists.sessionQueue hfree
  refine ⟨hseats.trans hfinal.seats, ?_⟩
  intro t ht
  rw [hsessions, hw₁.sessionQueue.nodup.mem_erase_iff] at ht
  refine ⟨ht.1, (hfinal.sessions t ht.2).resolve_left ?_⟩
  rw [mem_singleton]
  exact ht.1

/-- A round of the second loop. -/
theorem gcSession_round (hw : Wf D m) (env : Env) (dropNotStarted : Bool) {s : Ref}
    {rest : List Ref} (hq : m.sessionGcQueue = s :: rest) :
    ((m.sessionPop s rest).gcSession env env s dropNotStarted).seatGcQueue = m.seatGcQueue ∧
    (∀ t ∈ ((m.sessionPop s rest).gcSession env env s dropNotStarted).sessionGcQueue,
      t ∈ rest) ∧
    ((m.sessionPop s rest).sessionMayGc env s dropNotStarted = true →
      ((m.sessionPop s rest).gcSession env env s dropNotStarted).session.live s = false) := by
  have hw₁ : Wf D (m.sessionPop s rest) := hw.sessionPop hq
  have hseats₁ : (m.sessionPop s rest).seatGcQueue = m.seatGcQueue := rfl
  have hrest : (m.sessionPop s rest).sessionGcQueue = rest := rfl
  generalize m.sessionPop s rest = m₁ at hw₁ hseats₁ hrest
  -- stopping the session leaves the queues alone and the session collectable
  obtain ⟨m₂, hm₂, hw₂, hlists, hmay⟩ : ∃ m₂,
      (if m₁.sessionMayGc env s dropNotStarted && m₁.sessionGetState s != .closing then
        m₁.sessionStop s else m₁) = m₂ ∧ Wf D m₂ ∧ m₂.lists = m₁.lists ∧
      (m₁.sessionMayGc env s dropNotStarted = true →
        m₂.sessionMayGc env s dropNotStarted = true) := by
    split
    · exact ⟨_, rfl, (does_sessionStop (P := fun _ => True) trivial trivial hw₁ s).wf hw₁,
        lists_sessionStop m₁ s, sessionMayGc_stop env⟩
    · exact ⟨m₁, rfl, hw₁, rfl, id⟩
  have hseats₂ : m₂.seatGcQueue = m.seatGcQueue := (congrArg Lists.seatQueue hlists).trans hseats₁
  have hrest₂ : m₂.sessionGcQueue = rest := (congrArg Lists.sessionQueue hlists).trans hrest
  unfold gcSession
  rw [hm₂]
  dsimp only
  split
  · obtain ⟨hseats, hsessions⟩ := queues_finalizeFree hw₂ env s
    refine ⟨hseats.trans hseats₂, ?_, fun _ => update_self ..⟩
    intro t ht
    rw [← hrest₂]
    exact (hsessions t ht).2
  · next hnot =>
    refine ⟨hseats₂, ?_, fun h => absurd (hmay h) hnot⟩
    intro t ht
    rw [← hrest₂]
    exact ht

/-- Stopping sessions changes of users only the display, and no class. -/
theorem stopSessions_user (l : List Ref) (m : Manager) :
    (l.foldl Manager.sessionStop m).user =
      { m.user with display := (l.foldl Manager.sessionStop m).user.display } ∧
    (l.foldl Manager.sessionStop m).session.sessionClass = m.session.sessionClass := by
  induction l generalizing m with
  | nil => exact ⟨rfl, rfl⟩
  | cons s l ih =>
    have hstep : (m.sessionStop s).user =
        { m.user with display := (m.sessionStop s).user.display } ∧
        (m.sessionStop s).session.sessionClass = m.session.sessionClass := by
      unfold sessionStop
      split
      · exact ⟨rfl, rfl⟩
      · next u _ =>
        split
        · exact ⟨rfl, rfl⟩
        · obtain ⟨hsession, huser⟩ := electDisplay_session
            (((m.sessionRetire s).sessionPutFifo s false).sessionSetStopping s) u
          obtain ⟨hretire, hretireUser⟩ := retire_session m s
          have hput : (((m.sessionRetire s).sessionPutFifo s false).sessionSetStopping s).user =
            m.user := hretireUser
          refine ⟨?_, ?_⟩
          · rw [hput] at huser
            exact huser
          · rw [hsession]
            show (m.sessionRetire s).session.sessionClass = _
            rw [hretire]
    obtain ⟨huser, hclass⟩ := ih (m.sessionStop s)
    rw [foldl_cons, huser, hclass, hstep.1]
    exact ⟨rfl, hstep.2⟩

/-- Stopping a user that may be collected does not make it needed again. -/
theorem userMayGc_stop (env : Env) {u : Ref} {dropNotStarted : Bool}
    (h : m.userMayGc env u dropNotStarted = true) :
    (m.userStop u).userMayGc env u dropNotStarted = true := by
  unfold userStop
  split
  · exact h
  · next hrun =>
    obtain ⟨huser, hclass⟩ := stopSessions_user (m.user.sessions u) m
    have hqueue : ∀ m : Manager,
        (m.userAddToGcQueue u).user =
          { m.user with inGcQueue := (m.userAddToGcQueue u).user.inGcQueue } ∧
        (m.userAddToGcQueue u).session = m.session := by
      intro m
      unfold userAddToGcQueue
      split <;> exact ⟨rfl, rfl⟩
    generalize (m.user.sessions u).foldl sessionStop m = m₁ at huser hclass
    obtain ⟨huser₂, hsession₂⟩ := hqueue m₁
    generalize m₁.userAddToGcQueue u = m₂ at huser₂ hsession₂
    have hpinned : (m₂.userPutStopping u true).userPinnedBySessions u =
        m.userPinnedBySessions u := by
      show m₂.userPinnedBySessions u = m.userPinnedBySessions u
      unfold userPinnedBySessions
      rw [huser₂, huser, hsession₂, hclass]
    unfold userMayGc at h ⊢
    rw [hpinned]
    have hstarted : (m₂.userPutStopping u true).user.started = m.user.started := by
      show m₂.user.started = m.user.started
      rw [huser₂, huser]
    have hlast : (m₂.userPutStopping u true).user.lastSession = m.user.lastSession := by
      show m₂.user.lastSession = m.user.lastSession
      rw [huser₂, huser]
    have hstopping : (m₂.userPutStopping u true).user.stopping u = true := update_self ..
    rw [hstarted, hlast, hstopping]
    have hlater : ∀ notStarted pinned wait stopping : Bool,
        (if notStarted then true else if pinned then false else if wait then false
          else dropNotStarted || stopping) = true →
        (if notStarted then true else if pinned then false else if wait then false
          else dropNotStarted || true) = true := by
      cases dropNotStarted <;> decide
    exact hlater _ _ _ _ h

/-- `user_stop` queues the user. -/
theorem Queues.userStop (m : Manager) (u : Ref) : Queues m (m.userStop u) [] [u] := by
  unfold Manager.userStop
  split
  · exact .of_lists rfl
  · have hstop : Queues m ((m.user.sessions u).foldl sessionStop m) [] [u] :=
      .of_lists (lists_stopSessions ..)
    exact (hstop.trans (.queueUser _ (mem_singleton.mpr rfl))).trans (.of_lists rfl)

/-- Finalizing and freeing a user takes it and its sessions out of their queues. -/
theorem queues_finalizeFreeUser (hw : Wf D m) (env : Env) {u : Ref} (hu : m.user.live u) :
    ((m.userFinalize env u).userFree env u).seatGcQueue = m.seatGcQueue ∧
    (∀ s ∈ ((m.userFinalize env u).userFree env u).sessionGcQueue, s ∈ m.sessionGcQueue) ∧
    ∀ v ∈ ((m.userFinalize env u).userFree env u).userGcQueue, v ≠ u ∧ v ∈ m.userGcQueue := by
  have hfinal : Queues m (m.userFinalize env u) (m.user.sessions u) [u] := by
    have hsessions : Queues m ((m.user.sessions u).foldl (sessionFinalize env) m)
        (m.user.sessions u) [u] := by
      refine .finalizeAll hw env (fun s hs => hs) ?_
      intro s hs v hv
      have huser := (hw.userSessions.mem_iff u s).mp hs
      exact mem_singleton.mpr (Option.some.inj (hv.symm.trans huser))
    exact (hsessions.trans (.queueUser _ (mem_singleton.mpr rfl))).trans (.of_lists rfl)
  have hsame : (m.userFinalize env u).user.sessions u = m.user.sessions u :=
    congrFun (congrArg Objects.userSessions
      (does_userFinalize plain_steady account_steady hw env hu).objects) u
  have hw₁ := (does_userFinalize (P := fun _ => True) trivial trivial hw env hu).wf hw
  generalize m.userFinalize env u = m₁ at hfinal hsame hw₁
  unfold userFree
  rw [userDequeue_eq hw₁]
  have hw₂ := hw₁.userDequeue u
  have hsessions₂ : (m₁.userDequeue u).user.sessions u = m.user.sessions u := hsame
  have hfree := lists_freeSessions hw₂ env ((m₁.userDequeue u).user.sessions u)
  rw [hsessions₂] at hfree
  dsimp only
  rw [hsessions₂]
  generalize (m.user.sessions u).foldl (sessionFree env) (m₁.userDequeue u) = m₃ at hfree
  have hseats : m₃.seatGcQueue = m₁.seatGcQueue := congrArg Lists.seatQueue hfree
  have hsessions : m₃.sessionGcQueue =
      (m.user.sessions u).foldl List.erase m₁.sessionGcQueue := congrArg Lists.sessionQueue hfree
  have husers : m₃.userGcQueue = m₁.userGcQueue.erase u := congrArg Lists.userQueue hfree
  refine ⟨hseats.trans hfinal.seats, ?_, ?_⟩
  · intro s hs
    have hs₃ : s ∈ m₃.sessionGcQueue := hs
    rw [hsessions, mem_foldl_erase hw₁.sessionQueue.nodup] at hs₃
    exact (hfinal.sessions s hs₃.1).resolve_left hs₃.2
  · intro v hv
    have hv₃ : v ∈ m₃.userGcQueue := hv
    rw [husers, hw₁.userQueue.nodup.mem_erase_iff] at hv₃
    refine ⟨hv₃.1, (hfinal.users v hv₃.2).resolve_left ?_⟩
    rw [mem_singleton]
    exact hv₃.1

/-- A round of the third loop. -/
theorem gcUser_round (hw : Wf D m) (env : Env) (dropNotStarted : Bool) {u : Ref}
    {rest : List Ref} (hq : m.userGcQueue = u :: rest) :
    ((m.userPop u rest).gcUser env env u dropNotStarted).seatGcQueue = m.seatGcQueue ∧
    (∀ s ∈ ((m.userPop u rest).gcUser env env u dropNotStarted).sessionGcQueue,
      s ∈ m.sessionGcQueue) ∧
    (∀ v ∈ ((m.userPop u rest).gcUser env env u dropNotStarted).userGcQueue, v ∈ rest) ∧
    ((m.userPop u rest).userMayGc env u dropNotStarted = true →
      ((m.userPop u rest).gcUser env env u dropNotStarted).user.live u = false) := by
  have hw₁ : Wf D (m.userPop u rest) := hw.userPop hq
  have hlive : (m.userPop u rest).user.live u := userQueue_live hw hq
  have hseats₁ : (m.userPop u rest).seatGcQueue = m.seatGcQueue := rfl
  have hsessions₁ : (m.userPop u rest).sessionGcQueue = m.sessionGcQueue := rfl
  have hrest : (m.userPop u rest).userGcQueue = rest := rfl
  generalize m.userPop u rest = m₁ at hw₁ hlive hseats₁ hsessions₁ hrest
  unfold gcUser
  cases hmay : m₁.userMayGc env u dropNotStarted with
  | false =>
    rw [if_neg Bool.false_ne_true]
    dsimp only
    rw [hmay, if_neg Bool.false_ne_true, hsessions₁, hrest]
    exact ⟨hseats₁, fun s hs => hs, fun v hv => hv, nofun⟩
  | true =>
    rw [if_pos rfl]
    have hstop := Queues.userStop m₁ u
    have hw₂ := (does_userStop (P := fun _ => True) trivial trivial hw₁ hlive).wf hw₁
    have hlive₂ : (m₁.userStop u).user.live u :=
      (congrFun (congrArg Objects.userLive
        (does_userStop plain_steady account_steady hw₁ hlive).objects) u).trans hlive
    have hagain := userMayGc_stop env hmay
    dsimp only
    generalize m₁.userStop u = m₂ at hstop hw₂ hlive₂ hagain
    rw [hagain, if_pos rfl]
    obtain ⟨hseats, hsessions, husers⟩ := queues_finalizeFreeUser hw₂ env hlive₂
    refine ⟨(hseats.trans hstop.seats).trans hseats₁, ?_, ?_, fun _ => update_self ..⟩
    · intro s hs
      have hs₁ := (hstop.sessions s (hsessions s hs)).resolve_left not_mem_nil
      rwa [hsessions₁] at hs₁
    · intro v hv
      obtain ⟨hne, hv₂⟩ := husers v hv
      have hv₁ := (hstop.users v hv₂).resolve_left (by rw [mem_singleton]; exact hne)
      rwa [hrest] at hv₁

end Rounds

/-! ## The loops -/

/-- Answers of the system that stay the same. -/
def Manager.GcEnv.fixed (env : Env) : Manager.GcEnv where
  seats _ := env
  sessions _ := env
  users _ := env

namespace Manager

/-- A round of the first loop of `manager_gc`. -/
def seatRound (env : Env) (dropNotStarted : Bool) (m : Manager) : Option Manager :=
  match m.seatGcQueue with
  | [] => none
  | x :: rest => some ((m.seatPop x rest).gcSeat env x dropNotStarted)

/-- A round of the second loop. -/
def sessionRound (env : Env) (dropNotStarted : Bool) (m : Manager) : Option Manager :=
  match m.sessionGcQueue with
  | [] => none
  | s :: rest => some ((m.sessionPop s rest).gcSession env env s dropNotStarted)

/-- A round of the third loop. -/
def userRound (env : Env) (dropNotStarted : Bool) (m : Manager) : Option Manager :=
  match m.userGcQueue with
  | [] => none
  | u :: rest => some ((m.userPop u rest).gcUser env env u dropNotStarted)

/-- The seat that is taken out of the queue next can not be collected, or is freed
    in this round. -/
def SeatSettled (env : Env) (dropNotStarted : Bool) (m : Manager) : Prop :=
  ∀ x rest, m.seatGcQueue = x :: rest →
    (m.seatPop x rest).seatMayGc x dropNotStarted = false ∨
    ((m.seatPop x rest).gcSeat env x dropNotStarted).seat.live x = false

def SessionSettled (env : Env) (dropNotStarted : Bool) (m : Manager) : Prop :=
  ∀ s rest, m.sessionGcQueue = s :: rest →
    (m.sessionPop s rest).sessionMayGc env s dropNotStarted = false ∨
    ((m.sessionPop s rest).gcSession env env s dropNotStarted).session.live s = false

def UserSettled (env : Env) (dropNotStarted : Bool) (m : Manager) : Prop :=
  ∀ u rest, m.userGcQueue = u :: rest →
    (m.userPop u rest).userMayGc env u dropNotStarted = false ∨
    ((m.userPop u rest).gcUser env env u dropNotStarted).user.live u = false

end Manager

section Loops

variable {m m' : Manager} {heads : List Manager} {env : Env} {dropNotStarted : Bool}

/-- The queue of a round is the one before without its first element, or less. -/
theorem length_le_of_mem {q rest : List Ref} (hq : q.Nodup) (hmem : ∀ r ∈ q, r ∈ rest) :
    q.length ≤ rest.length :=
  (Nodup.subperm hq hmem).length_le

theorem seatRound_step {t : Manager} (hw : Wf none m)
    (ht : m.seatRound env dropNotStarted = some t) :
    Wf none t ∧ t.seatGcQueue.length < m.seatGcQueue.length := by
  unfold seatRound at ht
  split at ht
  · cases ht
  · next x rest hq =>
    cases ht
    have hpop := hw.seatPop hq
    refine ⟨(does_gcSeat tears_true hpop env
      (seatQueue_live hw hq) dropNotStarted).wf hpop, ?_⟩
    rw [(gcSeat_round hw env dropNotStarted hq).1, hq, length_cons]
    exact Nat.lt_succ_self _

theorem sessionRound_step {t : Manager} (hw : Wf none m)
    (ht : m.sessionRound env dropNotStarted = some t) :
    Wf none t ∧ t.seatGcQueue = m.seatGcQueue ∧
      t.sessionGcQueue.length < m.sessionGcQueue.length := by
  unfold sessionRound at ht
  split at ht
  · cases ht
  · next s rest hq =>
    cases ht
    have hpop := hw.sessionPop hq
    have hw' := (does_gcSession tears_true hpop env env s
      dropNotStarted).wf hpop
    obtain ⟨hseats, hsessions, -⟩ := gcSession_round hw env dropNotStarted hq
    refine ⟨hw', hseats, ?_⟩
    rw [hq, length_cons]
    exact Nat.lt_succ_of_le (length_le_of_mem hw'.sessionQueue.nodup hsessions)

theorem userRound_step {t : Manager} (hw : Wf none m)
    (ht : m.userRound env dropNotStarted = some t) :
    Wf none t ∧ t.seatGcQueue = m.seatGcQueue ∧
      (∀ s ∈ t.sessionGcQueue, s ∈ m.sessionGcQueue) ∧
      t.userGcQueue.length < m.userGcQueue.length := by
  unfold userRound at ht
  split at ht
  · cases ht
  · next u rest hq =>
    cases ht
    have hpop := hw.userPop hq
    have hw' := (does_gcUser tears_true hpop env env
      (userQueue_live hw hq) dropNotStarted).wf hpop
    obtain ⟨hseats, hsessions, husers, -⟩ := gcUser_round hw env dropNotStarted hq
    refine ⟨hw', hseats, hsessions, ?_⟩
    rw [hq, length_cons]
    exact Nat.lt_succ_of_le (length_le_of_mem hw'.userQueue.nodup husers)

/-- With enough rounds, the bounded loops are the loops. -/
theorem gcSeats_eq (hloop : Loop (Manager.seatRound env dropNotStarted) m heads m') {n : Nat}
    (hn : heads.length ≤ n) : m.gcSeats (fun _ => env) dropNotStarted n = m' := by
  refine hloop.eq_of_fuel (f := gcSeats (fun _ => env) dropNotStarted) ?_ (fun _ => rfl) hn
  intro n m
  unfold seatRound
  rw [gcSeats]
  cases m.seatGcQueue <;> rfl

theorem gcSessions_eq (hloop : Loop (Manager.sessionRound env dropNotStarted) m heads m') {n : Nat}
    (hn : heads.length ≤ n) : m.gcSessions (fun _ => env) dropNotStarted n = m' := by
  refine hloop.eq_of_fuel (f := gcSessions (fun _ => env) dropNotStarted) ?_
    (fun _ => rfl) hn
  intro n m
  unfold sessionRound
  rw [gcSessions]
  cases m.sessionGcQueue <;> rfl

theorem gcUsers_eq (hloop : Loop (Manager.userRound env dropNotStarted) m heads m') {n : Nat}
    (hn : heads.length ≤ n) : m.gcUsers (fun _ => env) dropNotStarted n = m' := by
  refine hloop.eq_of_fuel (f := gcUsers (fun _ => env) dropNotStarted) ?_ (fun _ => rfl) hn
  intro n m
  unfold userRound
  rw [gcUsers]
  cases m.userGcQueue <;> rfl

/-- The first loop ends with its queue empty. -/
theorem seatLoop_ends (hw : Wf none m) (env : Env) (dropNotStarted : Bool) :
    ∃ heads, Loop (Manager.seatRound env dropNotStarted) m heads
        (m.gcSeats (fun _ => env) dropNotStarted m.seatGcQueue.length) ∧
      Wf none (m.gcSeats (fun _ => env) dropNotStarted m.seatGcQueue.length) ∧
      (m.gcSeats (fun _ => env) dropNotStarted m.seatGcQueue.length).seatGcQueue = [] ∧
      ∀ t ∈ heads, t.SeatSettled env dropNotStarted := by
  obtain ⟨heads, m', hloop, hlen⟩ := Loop.exists_of_measure (I := Wf none)
    (f := fun m => m.seatGcQueue.length) seatRound_step hw
  rw [gcSeats_eq hloop hlen]
  obtain ⟨hw', hheads⟩ := hloop.invariant hw fun hw ht => (seatRound_step hw ht).1
  have hend := hloop.next_end
  refine ⟨heads, hloop, hw', ?_, ?_⟩
  · unfold seatRound at hend
    split at hend
    · assumption
    · cases hend
  · intro t ht x rest hq
    cases hmay : (t.seatPop x rest).seatMayGc x dropNotStarted with
    | false => exact .inl rfl
    | true => exact .inr ((gcSeat_round (hheads t ht) env dropNotStarted hq).2 hmay)

/-- The second loop ends with its queue empty, and leaves the first queue alone. -/
theorem sessionLoop_ends (hw : Wf none m) (env : Env) (dropNotStarted : Bool) :
    ∃ heads, Loop (Manager.sessionRound env dropNotStarted) m heads
        (m.gcSessions (fun _ => env) dropNotStarted m.sessionGcQueue.length) ∧
      Wf none (m.gcSessions (fun _ => env) dropNotStarted m.sessionGcQueue.length) ∧
      ((m.gcSessions (fun _ => env) dropNotStarted m.sessionGcQueue.length).seatGcQueue =
          m.seatGcQueue ∧
        (m.gcSessions (fun _ => env) dropNotStarted m.sessionGcQueue.length).sessionGcQueue = []) ∧
      ∀ t ∈ heads, t.SessionSettled env dropNotStarted := by
  obtain ⟨heads, m', hloop, hlen⟩ := Loop.exists_of_measure (I := Wf none)
    (f := fun m => m.sessionGcQueue.length)
    (fun hw ht => ⟨(sessionRound_step hw ht).1, (sessionRound_step hw ht).2.2⟩) hw
  rw [gcSessions_eq hloop hlen]
  obtain ⟨⟨hw', hseats⟩, hheads⟩ := hloop.invariant
    (I := fun t => Wf none t ∧ t.seatGcQueue = m.seatGcQueue) ⟨hw, rfl⟩ fun hI ht =>
      ⟨(sessionRound_step hI.1 ht).1, (sessionRound_step hI.1 ht).2.1.trans hI.2⟩
  have hend := hloop.next_end
  refine ⟨heads, hloop, hw', ⟨hseats, ?_⟩, ?_⟩
  · unfold sessionRound at hend
    split at hend
    · assumption
    · cases hend
  · intro t ht s rest hq
    cases hmay : (t.sessionPop s rest).sessionMayGc env s dropNotStarted with
    | false => exact .inl rfl
    | true => exact .inr ((gcSession_round (hheads t ht).1 env dropNotStarted hq).2.2 hmay)

/-- The third loop ends with its queue empty, and puts nothing into the others. -/
theorem userLoop_ends (hw : Wf none m) (env : Env) (dropNotStarted : Bool) :
    ∃ heads, Loop (Manager.userRound env dropNotStarted) m heads
        (m.gcUsers (fun _ => env) dropNotStarted (2 * m.userGcQueue.length)) ∧
      ((m.gcUsers (fun _ => env) dropNotStarted (2 * m.userGcQueue.length)).seatGcQueue =
          m.seatGcQueue ∧
        (∀ s ∈ (m.gcUsers (fun _ => env) dropNotStarted
          (2 * m.userGcQueue.length)).sessionGcQueue, s ∈ m.sessionGcQueue) ∧
        (m.gcUsers (fun _ => env) dropNotStarted (2 * m.userGcQueue.length)).userGcQueue = []) ∧
      ∀ t ∈ heads, t.UserSettled env dropNotStarted := by
  obtain ⟨heads, m', hloop, hlen⟩ := Loop.exists_of_measure (I := Wf none)
    (f := fun m => m.userGcQueue.length)
    (fun hw ht => ⟨(userRound_step hw ht).1, (userRound_step hw ht).2.2.2⟩) hw
  rw [gcUsers_eq hloop (Nat.le_trans hlen (by omega))]
  obtain ⟨⟨hw', hseats, hsessions⟩, hheads⟩ := hloop.invariant
    (I := fun t => Wf none t ∧ t.seatGcQueue = m.seatGcQueue ∧
      ∀ s ∈ t.sessionGcQueue, s ∈ m.sessionGcQueue) ⟨hw, rfl, fun _ hs => hs⟩ (by
        intro s t hI ht
        obtain ⟨hw', hseats, hsessions, -⟩ := userRound_step hI.1 ht
        exact ⟨hw', hseats.trans hI.2.1, fun r hr => hI.2.2 r (hsessions r hr)⟩)
  have hend := hloop.next_end
  refine ⟨heads, hloop, ⟨hseats, hsessions, ?_⟩, ?_⟩
  · unfold userRound at hend
    split at hend
    · assumption
    · cases hend
  · intro t ht u rest hq
    cases hmay : (t.userPop u rest).userMayGc env u dropNotStarted with
    | false => exact .inl rfl
    | true => exact .inr ((gcUser_round (hheads t ht).1 env dropNotStarted hq).2.2.2 hmay)

/-- For answers of the system that stay the same, the three loops of `manager_gc`
    end one after the other, all queues are empty afterwards, and what was taken out
    of a queue could not be collected at that moment or was freed. -/
theorem managerGc_ends (hw : Wf none m) (env : Env) (dropNotStarted : Bool) :
    ∃ seats sessions users m₁ m₂,
      Loop (Manager.seatRound env dropNotStarted) m seats m₁ ∧
      Loop (Manager.sessionRound env dropNotStarted) m₁ sessions m₂ ∧
      Loop (Manager.userRound env dropNotStarted) m₂ users
        (m.managerGc (.fixed env) dropNotStarted) ∧
      ((m.managerGc (.fixed env) dropNotStarted).seatGcQueue = [] ∧
        (m.managerGc (.fixed env) dropNotStarted).sessionGcQueue = [] ∧
        (m.managerGc (.fixed env) dropNotStarted).userGcQueue = []) ∧
      (∀ t ∈ seats, t.SeatSettled env dropNotStarted) ∧
      (∀ t ∈ sessions, t.SessionSettled env dropNotStarted) ∧
      ∀ t ∈ users, t.UserSettled env dropNotStarted := by
  obtain ⟨seats, hloop₁, hw₁, hqueue₁, hsettled₁⟩ := seatLoop_ends hw env dropNotStarted
  obtain ⟨sessions, hloop₂, hw₂, hqueue₂, hsettled₂⟩ := sessionLoop_ends hw₁ env dropNotStarted
  obtain ⟨users, hloop₃, hqueue₃, hsettled₃⟩ := userLoop_ends hw₂ env dropNotStarted
  refine ⟨seats, sessions, users, _, _, hloop₁, hloop₂, hloop₃, ⟨?_, ?_, ?_⟩, hsettled₁,
    hsettled₂, hsettled₃⟩
  · exact (hqueue₃.1.trans hqueue₂.1).trans hqueue₁
  · refine eq_nil_iff_forall_not_mem.mpr fun s hs => ?_
    have hmem := hqueue₃.2.1 s hs
    rw [hqueue₂.2] at hmem
    cases hmem
  · exact hqueue₃.2.2

/-- The only session of user 1000 has lost its leader; nothing else is queued. -/
def lostSession : Manager :=
  ((((((empty false).userNew 1000).1.sessionNew (ascii "1")).1.userLinkSession 0
    1).sessionAddToGcQueue 1).userPutStarted 0 true).sessionPutStarted 1 true

/-- The second loop stops and finalizes the session, which queues the session again
    and its user for the third loop, and in the end both are gone. -/
theorem managerGc_ends_of_lostSession :
    (lostSession.sessionGcQueue = [1] ∧ lostSession.userGcQueue = []) ∧
    ∃ seats sessions users m₁ m₂,
      Loop (Manager.seatRound .calm true) lostSession seats m₁ ∧
      Loop (Manager.sessionRound .calm true) m₁ sessions m₂ ∧
      Loop (Manager.userRound .calm true) m₂ users
        (lostSession.managerGc (.fixed .calm) true) ∧
      (lostSession.managerGc (.fixed .calm) true).sessions = [] ∧
      (lostSession.managerGc (.fixed .calm) true).users = [] := by
  have hlinked : Wf none ((((empty false).userNew 1000).1.sessionNew
      (ascii "1")).1.userLinkSession 0 1) :=
    (((wf_empty false).userNew 1000).sessionNew (ascii "1")).attachUser rfl rfl rfl
  have hw : Wf none lostSession :=
    (hlinked.sessionAddToGcQueue (s := 1) rfl).same rfl
  obtain ⟨seats, sessions, users, m₁, m₂, hloop₁, hloop₂, hloop₃, -⟩ :=
    managerGc_ends hw .calm true
  exact ⟨by decide, seats, sessions, users, m₁, m₂, hloop₁, hloop₂, hloop₃, by decide, by decide⟩

end Loops

end Elogind
