/-
  Elogind.Login.DecomposeTeardown

  Freeing sessions, users and seats, and the garbage collector, taken apart into
  elementary changes.
-/

import Elogind.Login.DecomposeSession

namespace Elogind

open Function Lib Manager List

section Functions

variable {P : ChangeKind → Prop} {D : Option Ref} {m : Manager}

/-- The kinds of changes that are made when objects are stopped and freed. -/
structure Tears (P : ChangeKind → Prop) : Prop where
  plain : P .plain
  account : P .account
  control : P .control
  remove : P .remove

theorem tears_true : Tears fun _ => True := ⟨trivial, trivial, trivial, trivial⟩

/-! ## Freeing a session -/

/-- The first part of `session_free`: the queue, the controller and the devices. -/
def Manager.sessionStrip (m : Manager) (s : Ref) : Manager :=
  let m := if m.session.inGcQueue s then m.sessionDequeue s else m
  (m.sessionDropController s).sessionFreeDevices s

/-- The second part of `session_free`: the links, and the memory. -/
def Manager.sessionUnlink (env : Env) (m : Manager) (s : Ref) : Manager :=
  (((m.sessionUnlinkUser env s).sessionUnlinkSeat s).sessionResetLeader s).freeSession s

theorem sessionFree_eq (env : Env) (m : Manager) (s : Ref) :
    m.sessionFree env s = (m.sessionStrip s).sessionUnlink env s := rfl

theorem dequeue_eq (hw : Wf D m) (s : Ref) :
    (if m.session.inGcQueue s then m.sessionDequeue s else m) = m.sessionDequeue s := by
  split
  · rfl
  · next hflag =>
    have hnot : s ∉ m.sessionGcQueue := by
      rw [hw.sessionQueue.mem_iff]
      exact hflag
    unfold sessionDequeue
    rw [erase_of_not_mem hnot, ← Bool.eq_false_iff.mpr hflag, update_eq_self]

/-- Without control and devices, the first part only takes the session out of the
    queue. -/
theorem withoutControl_strip (hw : Wf D m) (s : Ref) :
    (m.sessionStrip s).withoutControl = (m.sessionDequeue s).withoutControl := by
  unfold sessionStrip
  rw [dequeue_eq hw]
  rw [withoutControl_of_withoutSds (withoutSds_freeDevices s),
    withoutControl_drop]

theorem release_controller (m : Manager) (s : Ref) (notify : Bool) :
    (m.sessionReleaseController s notify).session.controller s = none := by
  unfold sessionReleaseController
  split
  · next h => exact Option.isNone_iff_eq_none.mp h
  · exact update_self ..

theorem drop_controller (m : Manager) (s : Ref) :
    (m.sessionDropController s).session.controller s = none := by
  unfold sessionDropController
  split
  · next h => exact Option.isNone_iff_eq_none.mp h
  · exact release_controller ((m.sessionUntrack s).sessionSetType s _) s false

theorem strip_controller (m : Manager) (s : Ref) :
    (m.sessionStrip s).session.controller s = none := by
  have hcontrol := control_of_withoutSds (withoutSds_freeDevices
    (m := (if m.session.inGcQueue s then m.sessionDequeue s else m).sessionDropController s) s)
  exact (congrFun (congrArg Control.controller hcontrol) s).trans (drop_controller _ s)

theorem does_strip (hP : P .plain) (hcontrol : P .control) (hw : Wf D m) (s : Ref) :
    Does P D m (m.sessionStrip s) := by
  unfold sessionStrip
  rw [dequeue_eq hw]
  have hqueue : Does P D m (m.sessionDequeue s) := .one (.sessionDequeue s) hP
  have hdrop := hqueue.trans (.one (.drop s) hcontrol)
  exact hdrop.trans (does_freeDevices hP (hdrop.wf hw) s)

theorem strip_devices (hw : Wf D m) (s : Ref) : (m.sessionStrip s).session.devices s = [] := by
  unfold sessionStrip
  rw [dequeue_eq hw]
  exact Wf.devices_sessionFreeDevices ((hw.sessionDequeue s).sessionDropController s) s

/-- A session that has left its user is a session as before in every other way. -/
theorem unlinkUser_session (env : Env) (m : Manager) (s : Ref) :
    (m.sessionUnlinkUser env s).session.user = update m.session.user s none ∧
    (m.sessionUnlinkUser env s).session =
      { m.session with user := (m.sessionUnlinkUser env s).session.user } ∧
    (m.sessionUnlinkUser env s).seat = m.seat := by
  have htimer : ∀ (m : Manager) u, (m.userUpdateLastSessionTimer env u).session = m.session ∧
      (m.userUpdateLastSessionTimer env u).seat = m.seat := by
    intro m u
    unfold userUpdateLastSessionTimer
    split
    · exact ⟨rfl, rfl⟩
    · split
      · exact ⟨rfl, rfl⟩
      · split <;> exact ⟨rfl, rfl⟩
  unfold sessionUnlinkUser
  split
  · next h =>
    refine ⟨?_, rfl, rfl⟩
    rw [← h, update_eq_self]
  · next u h =>
    rw [(htimer _ u).1, (htimer _ u).2]
    exact ⟨rfl, rfl, rfl⟩

theorem evict_session (m : Manager) (x s : Ref) :
    (m.seatEvictPosition x s).session =
      { m.session with position := update m.session.position s 0 } := by
  unfold seatEvictPosition
  dsimp only
  split
  · rfl
  · split <;> rfl

/-- A session that has left its seat is a session as before but for its position. -/
theorem unlinkSeat_session (m : Manager) (s : Ref) :
    (m.sessionUnlinkSeat s).session.seat = update m.session.seat s none ∧
    (m.sessionUnlinkSeat s).session =
      { m.session with
        seat := (m.sessionUnlinkSeat s).session.seat
        position := (m.sessionUnlinkSeat s).session.position } ∧
    (m.sessionUnlinkSeat s).user = m.user := by
  have huser : ∀ (m : Manager) x, (m.seatEvictPosition x s).user = m.user := by
    intro m x
    unfold seatEvictPosition
    dsimp only
    split
    · rfl
    · split <;> rfl
  unfold sessionUnlinkSeat
  split
  · next h =>
    refine ⟨?_, rfl, rfl⟩
    rw [← h, update_eq_self]
  · next x h =>
    have hevict := evict_session (m.seatForgetSession x s) x s
    refine ⟨?_, ?_, ?_⟩
    · show update ((m.seatForgetSession x s).seatEvictPosition x s).session.seat s none = _
      rw [hevict]
      rfl
    · unfold seatUnlinkSession
      rw [hevict]
      rfl
    · exact huser (m.seatForgetSession x s) x

theorem does_unlink (hP : P .plain) (haccount : P .account) (hremove : P .remove) (env : Env) {s : Ref}
    (hdevices : m.session.devices s = []) (hcontroller : m.session.controller s = none)
    (hqueue : m.session.inGcQueue s = false) :
    Does P D m (m.sessionUnlink env s) := by
  unfold sessionUnlink
  obtain ⟨huser, hsession, -⟩ := unlinkUser_session env m s
  have hleave : Does P D m (m.sessionUnlinkUser env s) := by
    unfold sessionUnlinkUser
    split
    · exact .refl m
    · next u hu => exact Does.trans (.one (.leaveUser hu) hremove) (does_updateTimer haccount env u)
  generalize m.sessionUnlinkUser env s = m₁ at huser hsession hleave
  have hdevices₁ : m₁.session.devices s = [] := by rw [hsession]; exact hdevices
  have hseat := hleave.trans (.one (.leaveSeat hdevices₁) hremove)
  obtain ⟨hseat₂, hsession₂, -⟩ := unlinkSeat_session m₁ s
  generalize m₁.sessionUnlinkSeat s = m₂ at hseat hseat₂ hsession₂
  have hreset := hseat.trans (.one (.resetLeader s) hP)
  have hsame : (m₂.sessionResetLeader s).session =
      { m₂.session with leader := (m₂.sessionResetLeader s).session.leader } := by
    unfold sessionResetLeader
    split <;> rfl
  have hleader := resetLeader_leader m₂ s
  generalize m₂.sessionResetLeader s = m₃ at hreset hsame hleader
  refine hreset.trans (.one (.freeSession ?_ ?_ hleader ?_ ?_) hremove)
  · rw [hsame]
    rw [hseat₂, update_self]
  · rw [hsame]
    rw [hsession₂]
    rw [huser, update_self]
  · rw [hsame]
    rw [hsession₂]
    rw [hsession]
    exact hqueue
  · rw [hsame]
    rw [hsession₂]
    rw [hsession]
    exact hcontroller

theorem strip_inGcQueue (hw : Wf D m) (s : Ref) :
    (m.sessionStrip s).session.inGcQueue s = false := by
  have hflag := congrArg (fun m => m.session.inGcQueue s) (withoutControl_strip hw s)
  exact hflag.trans (update_self ..)

theorem does_sessionFree (hP : Tears P) (hw : Wf D m) (env : Env) (s : Ref) : Does P D m (m.sessionFree env s) := by
  have hstrip := does_strip hP.plain hP.control hw s
  exact hstrip.trans (does_unlink hP.plain hP.account hP.remove env (strip_devices hw s) (strip_controller m s)
    (strip_inGcQueue hw s))

/-! ## What freeing a session leaves -/

/-- The lists, flags and queues of seats and users. -/
structure Lists where
  seatSessions : Ref → List Ref
  userSessions : Ref → List Ref
  seatDevices : Ref → List Ref
  seatFlag : Ref → Bool
  userFlag : Ref → Bool
  seatQueue : List Ref
  sessionQueue : List Ref
  userQueue : List Ref

def Manager.lists (m : Manager) : Lists where
  seatSessions := m.seat.sessions
  userSessions := m.user.sessions
  seatDevices := m.seat.devices
  seatFlag := m.seat.inGcQueue
  userFlag := m.user.inGcQueue
  seatQueue := m.seatGcQueue
  sessionQueue := m.sessionGcQueue
  userQueue := m.userGcQueue

theorem lists_evict (m : Manager) (x s : Ref) : (m.seatEvictPosition x s).lists = m.lists := by
  unfold seatEvictPosition
  dsimp only
  split
  · rfl
  · split <;> rfl

theorem lists_updateTimer (env : Env) (m : Manager) (u : Ref) :
    (m.userUpdateLastSessionTimer env u).lists = m.lists := by
  unfold userUpdateLastSessionTimer
  split
  · rfl
  · split
    · rfl
    · split <;> rfl

theorem lists_resetLeader (m : Manager) (s : Ref) : (m.sessionResetLeader s).lists = m.lists := by
  unfold sessionResetLeader
  split <;> rfl

/-- Taking a child out of the list of its parent is taking it out of every list. -/
theorem update_erase_eq {parent : Ref → Option Ref} {children : Ref → List Ref} {c p : Ref}
    (h : BackRefs parent children) (hc : parent c = some p) :
    update children p ((children p).erase c) = fun q => (children q).erase c := by
  funext q
  by_cases hq : q = p
  · rw [hq, update_self]
  · have hnot : c ∉ children q := by
      rw [h.mem_iff, hc, Option.some.injEq]
      exact fun heq => hq heq.symm
    rw [update_of_ne hq, erase_of_not_mem hnot]

theorem erase_eq_self {parent : Ref → Option Ref} {children : Ref → List Ref} {c : Ref}
    (h : BackRefs parent children) (hc : parent c = none) :
    (fun q => (children q).erase c) = children := by
  funext q
  exact erase_of_not_mem (h.not_mem_of_none hc q)

theorem lists_unlinkUser (hw : Wf D m) (env : Env) (s : Ref) :
    (m.sessionUnlinkUser env s).lists =
      { m.lists with userSessions := fun u => (m.user.sessions u).erase s } := by
  unfold sessionUnlinkUser
  split
  · next h =>
    rw [erase_eq_self hw.userSessions h]
    rfl
  · next u h =>
    rw [lists_updateTimer, ← update_erase_eq hw.userSessions h]
    rfl

theorem lists_unlinkSeat (hw : Wf D m) (s : Ref) :
    (m.sessionUnlinkSeat s).lists =
      { m.lists with seatSessions := fun x => (m.seat.sessions x).erase s } := by
  unfold sessionUnlinkSeat
  split
  · next h =>
    rw [erase_eq_self hw.seatSessions h]
    rfl
  · next x h =>
    rw [← update_erase_eq hw.seatSessions h]
    have hevict := lists_evict (m.seatForgetSession x s) x s
    have hunlink : ∀ m : Manager, (m.seatUnlinkSession x s).lists =
        { m.lists with
          seatSessions := update m.lists.seatSessions x ((m.lists.seatSessions x).erase s) } :=
      fun m => rfl
    rw [hunlink, hevict]
    rfl

theorem lists_unlink (hw : Wf D m) (env : Env) (s : Ref) :
    (m.sessionUnlink env s).lists =
      { m.lists with
        seatSessions := fun x => (m.seat.sessions x).erase s
        userSessions := fun u => (m.user.sessions u).erase s } := by
  have hw₁ : Wf D (m.sessionUnlinkUser env s) := by
    have hleave : Does (fun _ => True) D m (m.sessionUnlinkUser env s) := by
      unfold sessionUnlinkUser
      split
      · exact .refl m
      · next u hu =>
        exact Does.trans (.one (.leaveUser hu) trivial) (does_updateTimer trivial env u)
    exact hleave.wf hw
  have hfree : ∀ m : Manager, (m.freeSession s).lists = m.lists := fun m => rfl
  unfold sessionUnlink
  rw [hfree, lists_resetLeader, lists_unlinkSeat hw₁, (unlinkUser_session env m s).2.2,
    lists_unlinkUser hw]

/-- Freeing a session takes it out of all lists and of its queue. -/
theorem lists_sessionFree (hw : Wf D m) (env : Env) (s : Ref) :
    (m.sessionFree env s).lists =
      { m.lists with
        seatSessions := fun x => (m.seat.sessions x).erase s
        userSessions := fun u => (m.user.sessions u).erase s
        sessionQueue := m.sessionGcQueue.erase s } := by
  have hstrip := congrArg lists (withoutControl_strip hw s)
  have hlists : (m.sessionStrip s).lists = (m.sessionDequeue s).lists := hstrip
  rw [sessionFree_eq, lists_unlink ((does_strip (P := fun _ => True) trivial trivial hw s).wf hw)]
  have hseat := congrArg Lists.seatSessions hlists
  have huser := congrArg Lists.userSessions hlists
  rw [hlists, show (m.sessionStrip s).seat.sessions = m.seat.sessions from hseat,
    show (m.sessionStrip s).user.sessions = m.user.sessions from huser]
  rfl

/-! ## Loops that free -/

/-- Freeing the sessions in a list one after the other. -/
theorem does_freeSessions (hP : Tears P) (hw : Wf D m) (env : Env) (l : List Ref) :
    Does P D m (l.foldl (Manager.sessionFree env) m) :=
  .foldl (fun hw s _ => does_sessionFree hP hw env s) hw

/-- Freeing sessions only takes them out of the lists of sessions. -/
theorem lists_freeSessions (hw : Wf D m) (env : Env) (l : List Ref) :
    (l.foldl (Manager.sessionFree env) m).lists =
      { m.lists with
        seatSessions := fun x => l.foldl List.erase (m.seat.sessions x)
        userSessions := fun u => l.foldl List.erase (m.user.sessions u)
        sessionQueue := l.foldl List.erase m.sessionGcQueue } := by
  induction l generalizing m with
  | nil => rfl
  | cons s l ih =>
    have hstep := lists_sessionFree hw env s
    have hseat : (m.sessionFree env s).seat.sessions = fun x => (m.seat.sessions x).erase s :=
      congrArg Lists.seatSessions hstep
    have huser : (m.sessionFree env s).user.sessions = fun u => (m.user.sessions u).erase s :=
      congrArg Lists.userSessions hstep
    have hqueue : (m.sessionFree env s).sessionGcQueue = m.sessionGcQueue.erase s :=
      congrArg Lists.sessionQueue hstep
    rw [foldl_cons, ih ((does_sessionFree tears_true hw env
      s).wf hw), hseat, huser, hqueue, hstep]
    rfl

theorem foldl_erase_self (l : List Ref) : l.foldl List.erase l = [] := by
  induction l with
  | nil => rfl
  | cons a l ih => rw [foldl_cons, erase_cons_head, ih]

theorem devices_deviceFree (hw : Wf D m) (d : Ref) :
    (m.deviceFree d).seat.devices = fun x => (m.seat.devices x).erase d := by
  have hqueue : ∀ (m : Manager) x, (m.seatAddToGcQueue x).seat.devices = m.seat.devices := by
    intro m x
    unfold seatAddToGcQueue
    split <;> rfl
  have hframe := congrArg (fun m => m.seat.devices)
    (withoutSds_foldl (fun _ sd => withoutSds_free sd)
      (m.device.sessionDevices d) m)
  show (m.deviceDetach d).seat.devices = _
  unfold deviceDetach
  split
  · next h => exact (erase_eq_self hw.seatDevices h).symm
  · next x h =>
    have hunlink : (((m.device.sessionDevices d).foldl sessionDeviceFree
        m).seatUnlinkDevice x d).seat.devices = fun x => (m.seat.devices x).erase d := by
      rw [← update_erase_eq hw.seatDevices h]
      have hdevices : ((m.device.sessionDevices d).foldl sessionDeviceFree m).seat.devices =
        m.seat.devices := hframe
      show update ((m.device.sessionDevices d).foldl sessionDeviceFree m).seat.devices x
        (List.erase (((m.device.sessionDevices d).foldl sessionDeviceFree
          m).seat.devices x) d) = _
      rw [hdevices]
    dsimp only
    split
    · exact hunlink
    · rw [hqueue]
      exact hunlink

theorem does_freeDevicesOf (hP : P .plain) (hw : Wf D m) (l : List Ref) :
    Does P D m (l.foldl Manager.deviceFree m) :=
  .foldl (fun hw d _ => does_deviceFree hP hw d) hw

theorem devices_foldl_free (hw : Wf D m) (x : Ref) (l : List Ref) :
    (l.foldl Manager.deviceFree m).seat.devices x = l.foldl List.erase (m.seat.devices x) := by
  induction l generalizing m with
  | nil => rfl
  | cons d l ih =>
    rw [foldl_cons, foldl_cons,
      ih ((does_deviceFree (P := fun _ => True) trivial hw d).wf hw), devices_deviceFree hw d]

/-! ## Seats -/

theorem does_stopSessions (hP : P .plain) (haccount : P .account) (hw : Wf D m) (l : List Ref) :
    Does P D m (l.foldl Manager.sessionStop m) :=
  .foldl (fun hw s _ => does_sessionStop hP haccount hw s) hw

theorem does_seatStop (hP : P .plain) (haccount : P .account) (hw : Wf D m) {x : Ref} (hx : m.seat.live x) :
    Does P D m (m.seatStop x) := by
  have hstop := does_stopSessions (P := P) hP haccount hw (m.seat.sessions x)
  have hobj := (does_stopSessions plain_steady account_steady hw (m.seat.sessions x)).objects
  have hlive := (congrFun (congrArg Objects.seatLive hobj) x).trans hx
  exact (hstop.trans (.one (.seatQueue hlive) hP)).trans (.quiet hP rfl)

theorem seatStop_flag (m : Manager) (x : Ref) : (m.seatStop x).seat.inGcQueue x = true := by
  have hqueue : ∀ m : Manager, (m.seatAddToGcQueue x).seat.inGcQueue x = true := by
    intro m
    unfold seatAddToGcQueue
    split
    · assumption
    · exact update_self ..
  exact hqueue _

/-- The part of `seat_free` after the queue, for a seat that is out of it. -/
theorem does_seatEmpty (hP : Tears P) (hw : Wf D m) (env : Env) (x : Ref)
    (hx : D = some x ∨ D = none ∧ m.seat.inGcQueue x = false ∧ m.seat.devices x = []) :
    Reaches Change P (D, m) (none, (((m.seat.sessions x).foldl (Manager.sessionFree env)
      m).seat.devices x).foldl Manager.deviceFree
        ((m.seat.sessions x).foldl (Manager.sessionFree env) m) |>.freeSeat x) := by
  have hfree := does_freeSessions hP hw env (m.seat.sessions x)
  have hlists := lists_freeSessions hw env (m.seat.sessions x)
  have hsessions := congrFun (congrArg Lists.seatSessions hlists) x
  have hdevices := congrFun (congrArg Lists.seatDevices hlists) x
  have hflag := congrFun (congrArg Lists.seatFlag hlists) x
  have hw₁ := hfree.wf hw
  dsimp only [lists] at hsessions hdevices hflag
  rw [foldl_erase_self] at hsessions
  generalize (m.seat.sessions x).foldl (sessionFree env) m = m₁
    at hfree hsessions hdevices hflag hw₁ ⊢
  have hdetach := does_freeDevicesOf hP.plain hw₁ (m₁.seat.devices x)
  have hnil := devices_foldl_free hw₁ x (m₁.seat.devices x)
  rw [foldl_erase_self] at hnil
  have hobj := (does_freeDevicesOf plain_steady hw₁ (m₁.seat.devices x)).objects
  have hempty := (congrFun (congrArg Objects.seatSessions hobj) x).trans hsessions
  refine Reaches.trans (hfree.trans hdetach) (.single (.freeSeat ?_ hempty hnil) hP.remove)
  rcases hx with hx | ⟨hD, hnot, hno⟩
  · exact .inl hx
  · refine .inr ⟨hD, ?_⟩
    rw [hdevices, hno]
    exact hflag.trans hnot

/-- `seat_free`, for a seat that is in the queue or has no devices. -/
theorem does_seatFree (hP : Tears P) (hw : Wf none m) (env : Env) {x : Ref}
    (hx : m.seat.inGcQueue x = true ∨ m.seat.devices x = []) :
    Does P none m (m.seatFree env x) := by
  unfold seatFree
  split
  · next hflag =>
    have hqueue : Reaches Change P (none, m) (some x, m.seatUnqueue x) :=
      .single (.seatUnqueue hflag) hP.remove
    have hw₁ : Wf (some x) (m.seatUnqueue x) := hw.seatUnqueue hflag
    exact hqueue.trans (does_seatEmpty hP hw₁ env x (.inl rfl))
  · next hflag =>
    have hdevices := hx.resolve_left hflag
    exact does_seatEmpty hP hw env x
      (.inr ⟨rfl, Bool.eq_false_iff.mpr hflag, hdevices⟩)

/-! ## Users -/

theorem does_userStop (hP : P .plain) (haccount : P .account) (hw : Wf D m) {u : Ref} (hu : m.user.live u) :
    Does P D m (m.userStop u) := by
  unfold userStop
  split
  · exact .refl m
  · have hstop := does_stopSessions (P := P) hP haccount hw (m.user.sessions u)
    have hobj := (does_stopSessions plain_steady account_steady hw (m.user.sessions u)).objects
    have hlive := (congrFun (congrArg Objects.userLive hobj) u).trans hu
    exact (hstop.trans (.one (.userQueue hlive) hP)).trans (.quiet hP rfl)

theorem does_finalizeSessions (hP : P .plain) (haccount : P .account) (hw : Wf D m) (env : Env) (l : List Ref) :
    Does P D m (l.foldl (Manager.sessionFinalize env) m) :=
  .foldl (fun hw s _ => does_sessionFinalize hP haccount hw env s) hw

theorem does_userFinalize (hP : P .plain) (haccount : P .account) (hw : Wf D m) (env : Env) {u : Ref}
    (hu : m.user.live u) : Does P D m (m.userFinalize env u) := by
  have hfinal := does_finalizeSessions (P := P) hP haccount hw env (m.user.sessions u)
  have hobj := (does_finalizeSessions plain_steady account_steady hw env (m.user.sessions u)).objects
  have hlive := (congrFun (congrArg Objects.userLive hobj) u).trans hu
  exact (hfinal.trans (.one (.userQueue hlive) hP)).trans (.quiet hP rfl)

theorem userDequeue_eq (hw : Wf D m) (u : Ref) :
    (if m.user.inGcQueue u then m.userDequeue u else m) = m.userDequeue u := by
  split
  · rfl
  · next hflag =>
    have hnot : u ∉ m.userGcQueue := by
      rw [hw.userQueue.mem_iff]
      exact hflag
    unfold userDequeue
    rw [erase_of_not_mem hnot, ← Bool.eq_false_iff.mpr hflag, update_eq_self]

theorem does_userFree (hP : Tears P) (hw : Wf D m) (env : Env) (u : Ref) : Does P D m (m.userFree env u) := by
  unfold userFree
  rw [userDequeue_eq hw]
  have hqueue : Does P D m (m.userDequeue u) := .one (.userDequeue u) hP.plain
  have hw₁ := hqueue.wf hw
  have hflag : (m.userDequeue u).user.inGcQueue u = false := update_self ..
  generalize m.userDequeue u = m₁ at hqueue hw₁ hflag
  have hlists := lists_freeSessions hw₁ env (m₁.user.sessions u)
  have hsessions := congrFun (congrArg Lists.userSessions hlists) u
  have hstill := congrFun (congrArg Lists.userFlag hlists) u
  dsimp only [lists] at hsessions hstill
  rw [foldl_erase_self] at hsessions
  exact (hqueue.trans (does_freeSessions hP hw₁ env (m₁.user.sessions u))).trans
    (.one (.freeUser hsessions (hstill.trans hflag)) hP.remove)

/-! ## The garbage collector -/

theorem does_gcSeat (hP : Tears P) (hw : Wf none m) (env : Env) {x : Ref} (hx : m.seat.live x)
    (dropNotStarted : Bool) : Does P none m (m.gcSeat env x dropNotStarted) := by
  unfold gcSeat
  split
  · have hstop := does_seatStop hP.plain hP.account hw hx
    exact hstop.trans (does_seatFree hP (hstop.wf hw) env
      (.inl (seatStop_flag m x)))
  · exact .refl m

theorem does_gcSession (hP : Tears P) (hw : Wf D m) (env env' : Env) (s : Ref) (dropNotStarted : Bool) :
    Does P D m (m.gcSession env env' s dropNotStarted) := by
  have hstop : Does P D m (if m.sessionMayGc env s dropNotStarted &&
      m.sessionGetState s != .closing then m.sessionStop s else m) := by
    split
    · exact does_sessionStop hP.plain hP.account hw s
    · exact .refl m
  unfold gcSession
  dsimp only
  generalize (if m.sessionMayGc env s dropNotStarted && m.sessionGetState s != .closing then
    m.sessionStop s else m) = m₁ at hstop ⊢
  split
  · have hfinal := hstop.trans (does_sessionFinalize hP.plain hP.account (hstop.wf hw) env' s)
    exact hfinal.trans (does_sessionFree hP (hfinal.wf hw) env' s)
  · exact hstop

theorem does_gcUser (hP : Tears P) (hw : Wf D m) (env env' : Env) {u : Ref} (hu : m.user.live u)
    (dropNotStarted : Bool) : Does P D m (m.gcUser env env' u dropNotStarted) := by
  have hstop : Does P D m (if m.userMayGc env u dropNotStarted then m.userStop u else m) := by
    split
    · exact does_userStop hP.plain hP.account hw hu
    · exact .refl m
  have hobj : (if m.userMayGc env u dropNotStarted then m.userStop u else m).objects =
      m.objects := by
    split
    · exact (does_userStop plain_steady account_steady hw hu).objects
    · rfl
  unfold gcUser
  dsimp only
  generalize (if m.userMayGc env u dropNotStarted then m.userStop u else m) = m₁ at hstop hobj ⊢
  have hu₁ : m₁.user.live u := (congrFun (congrArg Objects.userLive hobj) u).trans hu
  split
  · have hfinal := hstop.trans (does_userFinalize hP.plain hP.account (hstop.wf hw) env' hu₁)
    exact hfinal.trans (does_userFree hP (hfinal.wf hw) env' u)
  · exact hstop

theorem seatQueue_live (hw : Wf none m) {x : Ref} {rest : List Ref}
    (hq : m.seatGcQueue = x :: rest) : m.seat.live x :=
  hw.seatQueueLive ((hw.seatQueue.mem_iff x).mp (by simp [hq]))

theorem userQueue_live (hw : Wf D m) {u : Ref} {rest : List Ref}
    (hq : m.userGcQueue = u :: rest) : m.user.live u :=
  hw.userQueueLive ((hw.userQueue.mem_iff u).mp (by simp [hq]))

theorem does_gcSeats (hP : Tears P) (hw : Wf none m) (env : Nat → Env) (dropNotStarted : Bool) (n : Nat) :
    Does P none m (m.gcSeats env dropNotStarted n) := by
  induction n generalizing m with
  | zero => exact .refl m
  | succ n ih =>
    unfold gcSeats
    split
    · exact .refl m
    · next x rest hq =>
      have hpop : Does P none m (m.seatPop x rest) := .one (.seatPop hq) hP.plain
      have hgc := hpop.trans (does_gcSeat hP (hpop.wf hw) (env n)
        (x := x) (seatQueue_live hw hq) dropNotStarted)
      exact hgc.trans (ih (hgc.wf hw))

theorem does_gcSessions (hP : Tears P) (hw : Wf D m) (env : Nat → Env) (dropNotStarted : Bool) (n : Nat) :
    Does P D m (m.gcSessions env dropNotStarted n) := by
  induction n generalizing m with
  | zero => exact .refl m
  | succ n ih =>
    unfold gcSessions
    split
    · exact .refl m
    · next s rest hq =>
      have hpop : Does P D m (m.sessionPop s rest) := .one (.sessionPop hq) hP.plain
      have hgc := hpop.trans (does_gcSession hP (hpop.wf hw)
        (env (2 * n + 1)) (env (2 * n)) s dropNotStarted)
      exact hgc.trans (ih (hgc.wf hw))

theorem does_gcUsers (hP : Tears P) (hw : Wf D m) (env : Nat → Env) (dropNotStarted : Bool) (n : Nat) :
    Does P D m (m.gcUsers env dropNotStarted n) := by
  induction n generalizing m with
  | zero => exact .refl m
  | succ n ih =>
    unfold gcUsers
    split
    · exact .refl m
    · next u rest hq =>
      have hpop : Does P D m (m.userPop u rest) := .one (.userPop hq) hP.plain
      have hgc := hpop.trans (does_gcUser hP (hpop.wf hw)
        (env (2 * n + 1)) (env (2 * n)) (u := u) (userQueue_live hw hq) dropNotStarted)
      exact hgc.trans (ih (hgc.wf hw))

theorem does_managerGc (hP : Tears P) (hw : Wf none m) (env : Manager.GcEnv) (dropNotStarted : Bool) :
    Does P none m (m.managerGc env dropNotStarted) := by
  unfold managerGc
  have hseats := does_gcSeats hP hw env.seats dropNotStarted
    m.seatGcQueue.length
  generalize gcSeats env.seats dropNotStarted m.seatGcQueue.length m = m₁ at hseats ⊢
  have hsessions := hseats.trans (does_gcSessions hP (hseats.wf hw)
    env.sessions dropNotStarted m₁.sessionGcQueue.length)
  exact hsessions.trans (does_gcUsers hP (hsessions.wf hw) env.users
    dropNotStarted _)

end Functions

end Elogind
