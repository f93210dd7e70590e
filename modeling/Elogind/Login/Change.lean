/-
  Elogind.Login.Change

  The elementary changes of the manager's memory.  Each comes with the condition
  under which the functions make it and with a kind.  A function is taken apart
  into such changes once; what all changes of certain kinds preserve is then
  preserved by every function that makes only changes of these kinds.

  The state of a run of changes is the manager together with the seat that is
  being freed, as in `Wf`.
-/

import Elogind.Lib.Run
import Elogind.Login.Graph

namespace Elogind

open Function Lib Manager

/-! ## Changes of session devices only -/

/-- The manager without its session devices and without the signals about them. -/
def Manager.withoutSds (m : Manager) : Manager :=
  { m with
    sd := (Manager.empty false).sd
    session.devices := fun _ => []
    device.sessionDevices := fun _ => []
    signals := [] }

namespace Manager

variable {m m' : Manager}

@[simp] theorem withoutSds_notify (sd : Ref) (n : Notification) :
    (m.sessionDeviceNotify sd n).withoutSds = m.withoutSds := by
  unfold sessionDeviceNotify
  split
  · rfl
  · split <;> rfl

@[simp] theorem withoutSds_start (env : Env) (sd : Ref) :
    (m.sessionDeviceStart env sd).1.withoutSds = m.withoutSds := by
  unfold sessionDeviceStart
  split
  · rfl
  · split
    · split
      · rfl
      · split <;> rfl
    · split <;> rfl
    · split <;> rfl
    · rfl

@[simp] theorem withoutSds_stop (sd : Ref) :
    (m.sessionDeviceStop sd).withoutSds = m.withoutSds := by
  unfold sessionDeviceStop
  split
  · rfl
  · split <;> rfl

@[simp] theorem withoutSds_save (env : Env) (sd : Ref) :
    (m.sessionDeviceSave env sd).1.withoutSds = m.withoutSds := by
  unfold sessionDeviceSave
  split
  · rfl
  · split <;> rfl

@[simp] theorem withoutSds_resume (env : Env) (sd : Ref) :
    (m.sessionDeviceResume env sd).withoutSds = m.withoutSds := by
  unfold sessionDeviceResume
  split
  · rfl
  · dsimp only
    split
    · simp
    · split <;> simp

@[simp] theorem withoutSds_pause (sd : Ref) :
    (m.sessionDevicePause sd).withoutSds = m.withoutSds := by
  unfold sessionDevicePause
  split <;> simp

@[simp] theorem withoutSds_free (sd : Ref) :
    (m.sessionDeviceFree sd).withoutSds = m.withoutSds := by
  have hfree : ∀ m : Manager, (m.freeSessionDevice sd).withoutSds = m.withoutSds := fun _ => rfl
  have hunlink : ∀ m : Manager, (m.sessionDeviceUnlink sd).withoutSds = m.withoutSds := by
    intro m
    unfold sessionDeviceUnlink
    split <;> rfl
  unfold sessionDeviceFree
  rw [hfree, hunlink, withoutSds_notify, withoutSds_stop]

/-- A loop whose rounds leave everything but session devices alone. -/
theorem withoutSds_foldl {f : Manager → Ref → Manager}
    (hf : ∀ m sd, (f m sd).withoutSds = m.withoutSds) (l : List Ref) (m : Manager) :
    (l.foldl f m).withoutSds = m.withoutSds := by
  induction l generalizing m with
  | nil => rfl
  | cons sd l ih => rw [List.foldl_cons, ih, hf]

@[simp] theorem withoutSds_resumeAll (env : Env) (s : Ref) :
    (m.sessionDeviceResumeAll env s).withoutSds = m.withoutSds :=
  withoutSds_foldl (fun _ sd => withoutSds_resume env sd) _ m

@[simp] theorem withoutSds_pauseAll (s : Ref) :
    (m.sessionDevicePauseAll s).withoutSds = m.withoutSds :=
  withoutSds_foldl (fun _ sd => withoutSds_pause sd) _ m

/-- `seat_set_active` assigns the session in the foreground; everything else it does
    concerns session devices. -/
theorem withoutSds_setActive (env : Env) (m : Manager) (x : Ref) (a : Option Ref) :
    (m.seatSetActive env x a).withoutSds = (m.seatPutActive x a).withoutSds := by
  have hswitch : (m.seatSwitch x a).withoutSds = (m.seatPutActive x a).withoutSds := by
    unfold seatSwitch
    split
    · rfl
    · exact withoutSds_pauseAll _
  unfold seatSetActive
  split
  · next heq =>
    have hself : m.seatPutActive x a = m := by
      unfold seatPutActive
      rw [heq, update_eq_self]
    rw [hself]
    split
    · rfl
    · exact withoutSds_resumeAll env _
  · dsimp only
    split
    · exact hswitch
    · split
      · exact (withoutSds_resumeAll env _).trans hswitch
      · exact hswitch

@[simp] theorem withoutSds_freeDevices (s : Ref) :
    (m.sessionFreeDevices s).withoutSds = m.withoutSds :=
  withoutSds_foldl (fun _ sd => withoutSds_free sd) _ m

/-- The manager without its session devices and without the control of its
    sessions. -/
def withoutControl (m : Manager) : Manager :=
  { m.withoutSds with
    session.controller := fun _ => none
    session.track := fun _ => none
    session.type := fun _ => .unspecified
    session.vtfd := fun _ => false }

theorem withoutControl_of_withoutSds (h : m'.withoutSds = m.withoutSds) :
    m'.withoutControl = m.withoutControl := by
  unfold withoutControl
  rw [h]

theorem withoutControl_release (m : Manager) (s : Ref) (notify : Bool) :
    (m.sessionReleaseController s notify).withoutControl = m.withoutControl := by
  have hfree : ∀ m : Manager,
      (((m.sessionFreeDevices s).sessionPutController s none).sessionUntrack s).withoutControl =
        m.withoutControl := by
    intro m
    have hsame := withoutControl_of_withoutSds (withoutSds_freeDevices (m := m) s)
    exact hsame
  unfold sessionReleaseController
  split
  · rfl
  · rw [hfree]
    split <;> rfl

/-- Setting a controller concerns the control of sessions only. -/
theorem withoutControl_setController (env : Env) (m : Manager) (s : Ref) (sender : Bytes)
    (force prepare : Bool) :
    (m.sessionSetController env s sender force prepare).1.withoutControl = m.withoutControl := by
  have hprepare : ∀ m : Manager, (m.sessionPrepareVt env s).1.withoutControl = m.withoutControl := by
    intro m
    unfold sessionPrepareVt
    split
    · rfl
    · split <;> rfl
  have hput : ∀ (m : Manager) names, (m.sessionPutTrack s names).withoutControl = m.withoutControl :=
    fun _ _ => rfl
  have hcontroller : ∀ (m : Manager) c,
      (m.sessionPutController s c).withoutControl = m.withoutControl := fun _ _ => rfl
  unfold sessionSetController sessionUntrack
  split
  · rfl
  · split
    · rfl
    · split
      · rfl
      · dsimp only
        split
        · exact hput m none
        · split
          · rw [hput, hput]
          · have htrack : (((m.sessionPutTrack s none).sessionPutTrack s (some [])).sessionPutTrack s
                (some [sender])).withoutControl = m.withoutControl := by
              rw [hput, hput, hput]
            generalize ((m.sessionPutTrack s none).sessionPutTrack s (some [])).sessionPutTrack s
              (some [sender]) = m₁ at htrack
            -- the VT may have to be prepared
            obtain ⟨m₂, r, hr, hprep⟩ : ∃ m₂ r,
                (if prepare then m₁.sessionPrepareVt env s else (m₁, .ok ())) = (m₂, r) ∧
                m₂.withoutControl = m₁.withoutControl := by
              split
              · exact ⟨_, _, rfl, hprepare m₁⟩
              · exact ⟨_, _, rfl, rfl⟩
            have hboth := hprep.trans htrack
            rw [hr]
            cases r with
            | error e => exact (hput m₂ none).trans hboth
            | ok _ =>
              exact ((hcontroller _ _).trans (withoutControl_release m₂ s true)).trans hboth

theorem withoutControl_drop (m : Manager) (s : Ref) :
    (m.sessionDropController s).withoutControl = m.withoutControl := by
  unfold sessionDropController
  split
  · rfl
  · exact withoutControl_release ((m.sessionUntrack s).sessionSetType s _) s false

end Manager

/-! ## The changes -/

/-- What kind of change it is. -/
inductive ChangeKind where
  /-- Seats, sessions and users, the links between them and the control of the
      sessions stay. -/
  | plain
  /-- There is a new object. -/
  | create
  /-- A session is linked to its seat or to its user. -/
  | attach
  /-- A session leaves its seat or its user, or an object is freed. -/
  | remove
  /-- A device is attached to a seat, or becomes a master. -/
  | devices
  /-- What users and sessions know of each other: the display and the stop timer of
      a user, and the class, the start and the stop of a session. -/
  | account
  /-- A session claims a position. -/
  | claim (pos : Nat)
  /-- A session gets a session device. -/
  | take
  /-- The controller, the tracker or the type of a session is assigned. -/
  | control
  /-- A controller or a tracker is replaced while the session has one. -/
  | takeover
  /-- A device is given to a session without a controller, or the type of a
      session is read from its state file. -/
  | restore
  deriving DecidableEq

/-- An elementary change of the manager's memory. -/
inductive Change : Option Ref × Manager → ChangeKind → Option Ref × Manager → Prop where
  | quiet {D m m'} (h : m'.core = m.core) : Change (D, m) .plain (D, m')
  -- new objects
  | seatNew {D m} (id : Bytes) : Change (D, m) .create (D, (m.seatNew id).1)
  | sessionNew {D m} (id : Bytes) : Change (D, m) .create (D, (m.sessionNew id).1)
  | userNew {D m} (uid : Nat) : Change (D, m) .create (D, (m.userNew uid).1)
  | deviceNew {D m} (syspath : Bytes) (master : Bool) :
      Change (D, m) .create (D, (m.deviceNew syspath master).1)
  | setSeat0 {D m x} (hx : m.seat.sessions x = []) :
      Change (D, m) .create (D, { m with seat0 := some x })
  -- sessions and seats
  | attachSeat {D m x s} (hs : m.session.seat s = none) (hlive : m.session.live s)
      (hx : m.seat.live x) :
      Change (D, m) .attach (D, m.seatLinkSession x s)
  | leaveSeat {D m s} (hs : m.session.devices s = []) :
      Change (D, m) .remove (D, m.sessionUnlinkSeat s)
  | switch {D m x a} (ha : ∀ s, a = some s → m.session.seat s = some x) :
      Change (D, m) .plain (D, m.seatSwitch x a)
  | setPending {D m x a} (ha : ∀ s, a = some s → m.session.seat s = some x) :
      Change (D, m) .plain (D, m.seatPutPending x a)
  -- sessions and users
  | attachUser {D m s u} (hs : m.session.user s = none) (hlive : m.session.live s)
      (hu : m.user.live u) :
      Change (D, m) .attach (D, m.userLinkSession u s)
  | leaveUser {D m s u} (hs : m.session.user s = some u) :
      Change (D, m) .remove (D, m.userUnlinkSession u s)
  | setDisplay {D m s u} (hs : m.session.user s = some u) :
      Change (D, m) .account (D, m.userPutDisplay u s)
  | setClass {D m} (s : Ref) (c : SessionClass) : Change (D, m) .account (D, m.sessionPutClass s c)
  | setStarted {D m} (s : Ref) (b : Bool) : Change (D, m) .account (D, m.sessionPutStarted s b)
  | setGcMode {D m} (u : Ref) (mode : UserGcMode) :
      Change (D, m) .account (D, m.userPutGcMode u mode)
  | setLastSession {D m} (u : Ref) (lastSession : Option Nat) (timer : Bool) :
      Change (D, m) .account (D, m.userPutTimer u lastSession timer)
  -- devices
  | attachDevice {D m d x l} (hd : m.device.seat d = none) (hlive : m.device.live d)
      (hx : m.seat.live x) (hl : l.Perm (d :: m.seat.devices x)) :
      Change (D, m) .devices (D, m.seatLinkDevice x d l)
  | setMaster {D m} (d : Ref) (b : Bool) :
      Change (D, m) .devices
        (D, { m with device.master := update m.device.master d b })
  | leaveDevice {D m d x} (hd : m.device.seat d = some x)
      (hsds : m.device.sessionDevices d = []) :
      Change (D, m) .plain (D, m.seatUnlinkDevice x d)
  -- session devices
  | sdLink {D m s d dev x type active fd k} (hs : m.session.seat s = some x)
      (hd : m.device.seat d = some x) (htype : type ≠ .unknown)
      (hkey : ∀ sd, m.sd.session sd = some s → m.sd.dev sd ≠ dev)
      (hactive : active = true → m.seat.active x = some s ∧ fd.isSome = true)
      (hk : k = .take ∧ (m.session.controller s).isSome = true ∨ k = .restore) :
      Change (D, m) k (D, m.sessionDeviceLink s d dev type active fd)
  | sdStart {D m s sd x} (env : Env) (hsd : sd ∈ m.session.devices s)
      (hs : m.session.seat s = some x) (hx : m.seat.active x = some s) :
      Change (D, m) .plain (D, (m.sessionDeviceStart env sd).1)
  | sdStop {D m} (sd : Ref) : Change (D, m) .plain (D, m.sessionDeviceStop sd)
  | sdFree {D m} (sd : Ref) :
      Change (D, m) .plain (D, (m.sessionDeviceUnlink sd).freeSessionDevice sd)
  -- queues
  | seatQueue {D m x} (hx : m.seat.live x) : Change (D, m) .plain (D, m.seatAddToGcQueue x)
  | sessionQueue {D m s} (hs : m.session.live s) :
      Change (D, m) .plain (D, m.sessionAddToGcQueue s)
  | userQueue {D m u} (hu : m.user.live u) : Change (D, m) .plain (D, m.userAddToGcQueue u)
  | sessionDequeue {D m} (s : Ref) : Change (D, m) .plain (D, m.sessionDequeue s)
  | userDequeue {D m} (u : Ref) : Change (D, m) .plain (D, m.userDequeue u)
  | seatPop {m x rest} (hq : m.seatGcQueue = x :: rest) :
      Change (none, m) .plain (none, m.seatPop x rest)
  | sessionPop {D m s rest} (hq : m.sessionGcQueue = s :: rest) :
      Change (D, m) .plain (D, m.sessionPop s rest)
  | userPop {D m u rest} (hq : m.userGcQueue = u :: rest) :
      Change (D, m) .plain (D, m.userPop u rest)
  -- leaders
  | resetLeader {D m} (s : Ref) : Change (D, m) .plain (D, m.sessionResetLeader s)
  | setLeader {D m s} (hs : m.session.leader s = none) (p : PidRef) :
      Change (D, m) .plain (D, m.sessionPutLeader s p)
  | putLeader {D m s p} (hlive : m.session.live s) (hs : m.session.leader s = some p) :
      Change (D, m) .plain (D, m.leaderPut p.pid s)
  -- positions
  | retire {D m} (s : Ref) : Change (D, m) .plain (D, m.sessionRetire s)
  | claim {D m x s} (env : Env) (pos : Nat) (hs : m.session.seat s = some x) :
      Change (D, m) (.claim (m.claimedPosition x s pos)) (D, m.seatClaimPosition env x s pos)
  | setStopping {D m} (s : Ref) : Change (D, m) .account (D, m.sessionSetStopping s)
  | setTimer {D m s} (b : Bool) (hs : m.session.timer s = false) :
      Change (D, m) .plain (D, m.sessionPutTimer s b)
  | setVtnr {D m s v} (hv : v < 2 ^ 32)
      (hs : ∀ x, m.session.seat s = some x → m.seatHasVts x = false) :
      Change (D, m) .plain (D, m.sessionPutVtnr s v)
  -- types and controllers
  | initType {D m} (s : Ref) (t : SessionType) :
      Change (D, m) .control (D, m.sessionPutTypes s t t)
  | setType {D m s} (t : SessionType) (hs : (m.session.controller s).isSome = true) :
      Change (D, m) .control (D, m.sessionSetType s t)
  | restoreType {D m} (s : Ref) (t t' : SessionType) :
      Change (D, m) .restore (D, m.sessionPutTypes s t t')
  | track {D m s k} (names : Option (List Bytes))
      (hk : k = .control ∧ m.session.controller s = none ∨ k = .takeover) :
      Change (D, m) k (D, m.sessionPutTrack s names)
  | putController {D m s c k}
      (hk : k = .control ∧ (∃ n, c = some n ∧ m.session.track s = some [n]) ∨ k = .takeover) :
      Change (D, m) k (D, m.sessionPutController s c)
  | drop {D m} (s : Ref) : Change (D, m) .control (D, m.sessionDropController s)
  -- freed objects
  | freeSession {D m s} (hseat : m.session.seat s = none) (huser : m.session.user s = none)
      (hleader : m.session.leader s = none) (hqueue : m.session.inGcQueue s = false)
      (hcontroller : m.session.controller s = none) :
      Change (D, m) .remove (D, m.freeSession s)
  | freeDevice {D m d} (hd : m.device.seat d = none) : Change (D, m) .plain (D, m.freeDevice d)
  | freeUser {D m u} (hu : m.user.sessions u = []) (hqueue : m.user.inGcQueue u = false) :
      Change (D, m) .remove (D, m.freeUser u)
  | seatUnqueue {m x} (hx : m.seat.inGcQueue x = true) :
      Change (none, m) .remove (some x, m.seatUnqueue x)
  | freeSeat {D m x} (hx : D = some x ∨ D = none ∧ m.seat.inGcQueue x = false)
      (hsessions : m.seat.sessions x = []) (hdevices : m.seat.devices x = []) :
      Change (D, m) .remove (none, m.freeSeat x)

/-! ## Changes keep the objects well-formed -/

namespace Manager

theorem links_putTimer (m : Manager) (s : Ref) (b : Bool) :
    (m.sessionPutTimer s b).links = m.links := rfl

theorem links_putPositions (m : Manager) (x : Ref) (positions : List (Option Ref)) :
    (m.seatPutPositions x positions).links = m.links := rfl

theorem links_putPosition (m : Manager) (s : Ref) (pos : Nat) :
    (m.sessionPutPosition s pos).links = m.links := rfl

theorem links_evict (m : Manager) (x s : Ref) : (m.seatEvictPosition x s).links = m.links := by
  unfold seatEvictPosition
  dsimp only
  split
  · exact links_putPosition m s 0
  · split
    · rw [links_putPositions, links_putPosition]
    · exact links_putPosition m s 0

theorem links_retire (m : Manager) (s : Ref) : (m.sessionRetire s).links = m.links := by
  unfold sessionRetire
  split
  · exact links_putTimer m s false
  · rw [links_evict, links_putTimer]

theorem links_claim (env : Env) (m : Manager) (x s : Ref) (pos : Nat) :
    (m.seatClaimPosition env x s pos).links = m.links := by
  unfold seatClaimPosition
  dsimp only
  split
  · rfl
  · split
    · rw [links_putPositions, links_putPosition, links_evict, links_putPositions]
    · rw [links_putPosition, links_evict, links_putPositions]

theorem links_start (env : Env) (m : Manager) (sd : Ref) :
    (m.sessionDeviceStart env sd).1.links = m.links := by
  unfold sessionDeviceStart
  split
  · rfl
  · split
    · split
      · rfl
      · split <;> rfl
    · split <;> rfl
    · split <;> rfl
    · rfl

end Manager

namespace Wf

variable {D : Option Ref} {m m' : Manager}

theorem seatSwitch (h : Wf D m) {x : Ref} {a : Option Ref}
    (ha : ∀ s, a = some s → m.session.seat s = some x) : Wf D (m.seatSwitch x a) := by
  unfold Manager.seatSwitch
  split
  · exact h.setActive ha
  · exact (h.setActive ha).sessionDevicePauseAll _

theorem sessionUnlinkSeat (h : Wf D m) {s : Ref} (hs : m.session.devices s = []) :
    Wf D (m.sessionUnlinkSeat s) := by
  unfold Manager.sessionUnlinkSeat
  split
  · exact h
  · next x hx =>
    have hforget : Wf D (m.seatForgetSession x s) :=
      { h with
        active := h.active.clear
        pending := h.pending.clear }
    have hlinks := links_evict (m.seatForgetSession x s) x s
    have hactive := congrArg (fun m => m.seat.active x) hlinks
    have hpending := congrArg (fun m => m.seat.pendingSwitch x) hlinks
    have hdevices := congrArg (fun m => m.session.devices s) hlinks
    have hsession := congrArg (fun m => m.session.seat s) hlinks
    refine (hforget.same hlinks).leaveSeat (hsession.trans hx) ?_ ?_ (hdevices.trans hs)
    · exact fun heq => Points.clear_ne (hactive.symm.trans heq)
    · exact fun heq => Points.clear_ne (hpending.symm.trans heq)

theorem sessionUntrack (h : Wf D m) (s : Ref) : Wf D (m.sessionUntrack s) := h.same rfl

theorem sessionSetType (h : Wf D m) (s : Ref) (t : SessionType) : Wf D (m.sessionSetType s t) :=
  h.same rfl

theorem sessionPutController (h : Wf D m) (s : Ref) (c : Option Bytes) :
    Wf D (m.sessionPutController s c) := h.same rfl

theorem sessionRestoreVt (h : Wf D m) (s : Ref) : Wf D (m.sessionRestoreVt s) := h.same rfl

theorem sessionReleaseController (h : Wf D m) (s : Ref) (notify : Bool) :
    Wf D (m.sessionReleaseController s notify) := by
  unfold Manager.sessionReleaseController
  split
  · exact h
  · refine ((Wf.sessionFreeDevices ?_ s).sessionPutController s none).sessionUntrack s
    split
    · exact h
    · exact h.sessionPutController s none

theorem sessionDropController (h : Wf D m) (s : Ref) : Wf D (m.sessionDropController s) := by
  unfold Manager.sessionDropController
  split
  · exact h
  · exact (((h.sessionUntrack s).sessionSetType s _).sessionReleaseController s
      false).sessionRestoreVt s

end Wf

/-- Every change keeps the objects well-formed. -/
theorem Change.wf {p q : Option Ref × Manager} {k : ChangeKind} (hc : Change p k q)
    (h : Wf p.1 p.2) : Wf q.1 q.2 := by
  cases hc with
  | quiet hq => exact h.same (links_of_core hq)
  | seatNew id => exact h.seatNew id
  | sessionNew id => exact h.sessionNew id
  | userNew uid => exact h.userNew uid
  | deviceNew syspath master => exact h.deviceNew syspath master
  | setSeat0 hx => exact { h with }
  | attachSeat hs hlive hx => exact h.attachSeat hs hlive hx
  | leaveSeat hs => exact h.sessionUnlinkSeat hs
  | switch ha => exact h.seatSwitch ha
  | setPending ha => exact h.setPending ha
  | attachUser hs hlive hu => exact h.attachUser hs hlive hu
  | leaveUser hs => exact h.leaveUser hs
  | setDisplay hs => exact h.setDisplay hs
  | setClass s c | setStarted s b | setGcMode u mode | setLastSession u lastSession timer | setMaster d b
  | setStopping s | setTimer b _ | setVtnr _ _ | initType s t | setType t _ | restoreType s t t'
  | track names _ | putController _ => exact h.same rfl
  | attachDevice hd hlive hx hl => exact h.attachDevice hd hlive hx hl
  | leaveDevice hd hsds => exact h.leaveDevice hd hsds
  | sdLink hs hd htype hkey _ _ => exact h.sessionDeviceLink hs hd htype hkey
  | sdStart env _ _ _ => exact h.same (links_start env _ _)
  | sdStop sd => exact h.sessionDeviceStop sd
  | sdFree sd => exact h.sdFree sd
  | seatQueue hx => exact h.seatAddToGcQueue hx
  | sessionQueue hs => exact h.sessionAddToGcQueue hs
  | userQueue hu => exact h.userAddToGcQueue hu
  | sessionDequeue s => exact h.sessionDequeue s
  | userDequeue u => exact h.userDequeue u
  | seatPop hq => exact h.seatPop hq
  | sessionPop hq => exact h.sessionPop hq
  | userPop hq => exact h.userPop hq
  | resetLeader s => exact h.sessionResetLeader s
  | setLeader hs p => exact h.setLeader hs p
  | putLeader hlive hs => exact h.putLeader hlive hs
  | retire s => exact h.same (links_retire _ s)
  | claim env pos _ => exact h.same (links_claim env _ _ _ pos)
  | drop s => exact h.sessionDropController s
  | freeSession hseat huser hleader hqueue _ => exact h.freeSession hseat huser hleader hqueue
  | freeDevice hd => exact h.freeDevice hd
  | freeUser hu hqueue => exact h.freeUser hu hqueue
  | seatUnqueue hx => exact h.seatUnqueue hx
  | freeSeat hx hsessions hdevices =>
    refine Wf.freeSeat ?_ hsessions hdevices
    rcases hx with rfl | ⟨rfl, hflag⟩
    · exact .inl h
    · exact .inr ⟨h, hflag⟩

/-! ## Changes that keep the objects -/

/-- Which seats, sessions and users there are, and how they are linked. -/
structure Objects where
  seatLive : Ref → Bool
  sessionLive : Ref → Bool
  userLive : Ref → Bool
  sessionSeat : Ref → Option Ref
  sessionUser : Ref → Option Ref
  seatSessions : Ref → List Ref
  userSessions : Ref → List Ref
  seat0 : Option Ref
  consoleActive : Bool

def Manager.objects (m : Manager) : Objects where
  seatLive := m.seat.live
  sessionLive := m.session.live
  userLive := m.user.live
  sessionSeat := m.session.seat
  sessionUser := m.session.user
  seatSessions := m.seat.sessions
  userSessions := m.user.sessions
  seat0 := m.seat0
  consoleActive := m.consoleActive

namespace Manager

variable {m m' : Manager}

theorem objects_of_links (h : m'.links = m.links) : m'.objects = m.objects := by
  have hobjects := congrArg objects h
  exact hobjects

theorem objects_of_withoutSds (h : m'.withoutSds = m.withoutSds) : m'.objects = m.objects := by
  have hobjects := congrArg objects h
  exact hobjects

theorem objects_switch (m : Manager) (x : Ref) (a : Option Ref) :
    (m.seatSwitch x a).objects = m.objects := by
  have hactive : (m.seatPutActive x a).objects = m.objects := rfl
  unfold seatSwitch
  split
  · exact hactive
  · exact (objects_of_withoutSds (withoutSds_pauseAll _)).trans hactive

theorem objects_drop (m : Manager) (s : Ref) :
    (m.sessionDropController s).objects = m.objects := by
  have hobjects := congrArg objects (withoutControl_drop m s)
  exact hobjects

end Manager

/-- Objects and their links change only when an object is made, linked or
    removed. -/
def ChangeKind.Steady (k : ChangeKind) : Prop := k ≠ .create ∧ k ≠ .attach ∧ k ≠ .remove

theorem Change.objects {p q : Option Ref × Manager} {k : ChangeKind} (hc : Change p k q)
    (hk : k.Steady) : q.1 = p.1 ∧ q.2.objects = p.2.objects := by
  cases hc with
  | quiet hq => exact ⟨rfl, objects_of_links (links_of_core hq)⟩
  | seatNew id | sessionNew id | userNew uid | deviceNew syspath master | setSeat0 hx => exact absurd rfl hk.1
  | attachSeat hs hlive hx | attachUser hs hlive hu => exact absurd rfl hk.2.1
  | leaveSeat hs | leaveUser hs | freeSession _ _ _ _ _ | freeUser _ _ | seatUnqueue _ | freeSeat _ _ _ =>
    exact absurd rfl hk.2.2
  | switch ha => exact ⟨rfl, objects_switch ..⟩
  | setPending ha | setDisplay hs | setClass s c | setStarted s b | setGcMode u mode
  | setLastSession u lastSession timer | attachDevice hd hlive hx hl | setMaster d b | leaveDevice hd hsds
  | sdLink hs hd htype hkey _ _ | sessionDequeue s | userDequeue u | seatPop hq | sessionPop hq
  | userPop hq | setLeader hs p | putLeader hlive hs | setStopping s | setTimer b _ | setVtnr _ _
  | initType s t | setType t _ | restoreType s t t' | track names _ | putController _ | freeDevice hd =>
    exact ⟨rfl, rfl⟩
  | sdStart env _ _ _ =>
    exact ⟨rfl, objects_of_withoutSds (withoutSds_start env _)⟩
  | sdStop sd => exact ⟨rfl, objects_of_withoutSds (withoutSds_stop sd)⟩
  | sdFree sd =>
    refine ⟨rfl, ?_⟩
    unfold sessionDeviceUnlink
    split <;> rfl
  | seatQueue hx =>
    refine ⟨rfl, ?_⟩
    unfold seatAddToGcQueue
    split <;> rfl
  | sessionQueue hs =>
    refine ⟨rfl, ?_⟩
    unfold sessionAddToGcQueue
    split <;> rfl
  | userQueue hu =>
    refine ⟨rfl, ?_⟩
    unfold userAddToGcQueue
    split <;> rfl
  | resetLeader s =>
    refine ⟨rfl, ?_⟩
    unfold sessionResetLeader
    split <;> rfl
  | retire s => exact ⟨rfl, objects_of_links (links_retire _ s)⟩
  | claim env pos _ => exact ⟨rfl, objects_of_links (links_claim env _ _ _ pos)⟩
  | drop s => exact ⟨rfl, objects_drop _ s⟩

/-! ## Changes that keep the control of sessions -/

/-- Who controls the sessions, and their types. -/
structure Control where
  controller : Ref → Option Bytes
  track : Ref → Option (List Bytes)
  type : Ref → SessionType
  originalType : Ref → SessionType

def Manager.control (m : Manager) : Control where
  controller := m.session.controller
  track := m.session.track
  type := m.session.type
  originalType := m.session.originalType

namespace Manager

theorem control_of_withoutSds {m m' : Manager} (h : m'.withoutSds = m.withoutSds) :
    m'.control = m.control := by
  have hcontrol := congrArg control h
  exact hcontrol

end Manager

end Elogind
