/-
  Elogind.Login.State

  The objects of the daemon: seats, sessions, users, devices and session
  devices, and the manager that owns them (logind-seat.h, logind-session.h,
  logind-user.h, logind-device.h, logind-session-device.h, logind.h).

  Memory has one map for each member of each structure: what C writes as
  `s->seat` is `m.session.seat s`.  A reference is a number that is never
  handed out twice, so that a pointer to a freed object can be told from a
  pointer to a newer one; the members of an object that does not exist have
  their initial values.

  Members that only serve the state files, the bus interface or the idle logic
  are left out, and so are the event sources, except for what code asks about
  them.
-/

import Elogind.Basic.Errno
import Elogind.Login.SessionTypes

namespace Elogind

abbrev Ref := Nat

/-- `PidRef`: a process, and the inode number of its pidfd if it is known. -/
structure PidRef where
  pid : Nat
  fdId : Option Nat
  deriving DecidableEq, Repr

/-- `pidref_equal`, for two processes that are set. -/
def PidRef.equal (a b : PidRef) : Bool :=
  a.pid == b.pid && (a.fdId.isNone || b.fdId.isNone || a.fdId == b.fdId)

/-- `DeviceType` -/
inductive DeviceType where
  | unknown
  | drm
  | evdev
  | hidraw
  deriving DecidableEq, Repr

/-- `UserGCMode` -/
inductive UserGcMode where
  | byAny
  | byPin
  deriving DecidableEq, Repr

/-- The members of all seats. -/
structure SeatMem where
  live : Ref → Bool
  id : Ref → Bytes
  sessions : Ref → List Ref
  active : Ref → Option Ref
  pendingSwitch : Ref → Option Ref
  devices : Ref → List Ref
  /-- The array of positions, as long as it has been allocated. -/
  positions : Ref → List (Option Ref)
  started : Ref → Bool
  inGcQueue : Ref → Bool

/-- The members of all sessions. -/
structure SessionMem where
  live : Ref → Bool
  id : Ref → Bytes
  user : Ref → Option Ref
  seat : Ref → Option Ref
  leader : Ref → Option PidRef
  /-- The hash map of devices; its keys are the device numbers in the values. -/
  devices : Ref → List Ref
  type : Ref → SessionType
  originalType : Ref → SessionType
  sessionClass : Ref → SessionClass
  vtnr : Ref → Nat
  position : Ref → Nat
  controller : Ref → Option Bytes
  /-- The bus tracker, and the names it watches. -/
  track : Ref → Option (List Bytes)
  started : Ref → Bool
  stopping : Ref → Bool
  /-- There is a `timer_event_source`. -/
  timer : Ref → Bool
  /-- `fifo_fd >= 0` -/
  fifo : Ref → Bool
  /-- `vtfd >= 0` -/
  vtfd : Ref → Bool
  wasActive : Ref → Bool
  /-- `deserialized_pid`, if a valid one was read. -/
  deserializedPid : Ref → Option Nat
  inGcQueue : Ref → Bool

/-- The members of all users. -/
structure UserMem where
  live : Ref → Bool
  uid : Ref → Nat
  sessions : Ref → List Ref
  display : Ref → Option Ref
  started : Ref → Bool
  stopping : Ref → Bool
  gcMode : Ref → UserGcMode
  /-- `last_session_timestamp`, with `none` for infinity. -/
  lastSession : Ref → Option Nat
  /-- There is a `timer_event_source`. -/
  timer : Ref → Bool
  inGcQueue : Ref → Bool

/-- The members of all devices. -/
structure DeviceMem where
  live : Ref → Bool
  sysfs : Ref → Bytes
  seat : Ref → Option Ref
  sessionDevices : Ref → List Ref
  master : Ref → Bool

/-- The members of all session devices. -/
structure SessionDeviceMem where
  session : Ref → Option Ref
  device : Ref → Option Ref
  dev : Ref → Nat
  type : Ref → DeviceType
  /-- The file descriptor, if it is not negative. -/
  fd : Ref → Option Nat
  active : Ref → Bool
  pushedFd : Ref → Bool

/-- `SessionDeviceNotifications` -/
inductive Notification where
  | resume
  | tryPause
  | pause
  | release
  deriving DecidableEq, Repr

/-- A signal to the controller of a session about one of its devices. -/
structure DeviceSignal where
  session : Ref
  sd : Ref
  notification : Notification
  destination : Bytes
  deriving DecidableEq, Repr

/-- The manager and its memory. -/
structure Manager where
  seat : SeatMem
  session : SessionMem
  user : UserMem
  device : DeviceMem
  sd : SessionDeviceMem
  /-- The next reference to be handed out. -/
  next : Ref
  /-- The hash maps of the manager; their keys are members of the values. -/
  seats : List Ref
  sessions : List Ref
  users : List Ref
  devices : List Ref
  /-- `sessions_by_leader`, whose keys are compared by process number. -/
  sessionsByLeader : Nat → Option Ref
  seatGcQueue : List Ref
  sessionGcQueue : List Ref
  userGcQueue : List Ref
  seat0 : Option Ref
  /-- `console_active_fd >= 0` -/
  consoleActive : Bool
  sessionsMax : Nat
  sessionCounter : Nat
  /-- The signals sent so far, the latest first. -/
  signals : List DeviceSignal

namespace Manager

/-- The manager without any object. -/
def empty (consoleActive : Bool) : Manager where
  seat :=
    { live := fun _ => false, id := fun _ => [], sessions := fun _ => [], active := fun _ => none,
      pendingSwitch := fun _ => none, devices := fun _ => [], positions := fun _ => [],
      started := fun _ => false, inGcQueue := fun _ => false }
  session :=
    { live := fun _ => false, id := fun _ => [], user := fun _ => none, seat := fun _ => none,
      leader := fun _ => none, devices := fun _ => [], type := fun _ => .unspecified,
      originalType := fun _ => .unspecified, sessionClass := fun _ => .user, vtnr := fun _ => 0,
      position := fun _ => 0, controller := fun _ => none, track := fun _ => none,
      started := fun _ => false, stopping := fun _ => false, timer := fun _ => false,
      fifo := fun _ => false, vtfd := fun _ => false, wasActive := fun _ => false,
      deserializedPid := fun _ => none, inGcQueue := fun _ => false }
  user :=
    { live := fun _ => false, uid := fun _ => 0, sessions := fun _ => [], display := fun _ => none,
      started := fun _ => false, stopping := fun _ => false, gcMode := fun _ => .byAny,
      lastSession := fun _ => none, timer := fun _ => false, inGcQueue := fun _ => false }
  device :=
    { live := fun _ => false, sysfs := fun _ => [], seat := fun _ => none,
      sessionDevices := fun _ => [], master := fun _ => false }
  sd :=
    { session := fun _ => none, device := fun _ => none, dev := fun _ => 0,
      type := fun _ => .unknown, fd := fun _ => none, active := fun _ => false,
      pushedFd := fun _ => false }
  next := 0
  seats := []
  sessions := []
  users := []
  devices := []
  sessionsByLeader := fun _ => none
  seatGcQueue := []
  sessionGcQueue := []
  userGcQueue := []
  seat0 := none
  consoleActive := consoleActive
  sessionsMax := 8192
  sessionCounter := 0
  signals := []

/-- `seat_has_vts` -/
def seatHasVts (m : Manager) (x : Ref) : Bool := m.seat0 == some x && m.consoleActive

/-- `session_is_active` -/
def sessionIsActive (m : Manager) (s : Ref) : Bool :=
  match m.session.seat s with
  | none => true
  | some x => m.seat.active x == some s

/-- `session_get_state` -/
def sessionGetState (m : Manager) (s : Ref) : SessionState :=
  if m.session.stopping s || m.session.timer s then .closing
  else if (m.session.leader s).isNone && !m.session.fifo s then .opening
  else if m.sessionIsActive s then .active
  else .online

/-- `seat_has_master_device`: the list of devices starts with the masters. -/
def seatHasMasterDevice (m : Manager) (x : Ref) : Bool :=
  (m.seat.devices x).head?.any m.device.master

/-- `hashmap_get` on the devices of a session. -/
def sessionGetDevice (m : Manager) (s : Ref) (dev : Nat) : Option Ref :=
  (m.session.devices s).find? fun sd => m.sd.dev sd = dev

end Manager

/-! ## Assignments to members -/

namespace Manager

open Function

/-- `seat->started = …` -/
def seatPutStarted (m : Manager) (x : Ref) (b : Bool) : Manager :=
  { m with seat.started := update m.seat.started x b }

/-- `seat->active = …` -/
def seatPutActive (m : Manager) (x : Ref) (a : Option Ref) : Manager :=
  { m with seat.active := update m.seat.active x a }

/-- `seat->pending_switch = …` -/
def seatPutPending (m : Manager) (x : Ref) (a : Option Ref) : Manager :=
  { m with seat.pendingSwitch := update m.seat.pendingSwitch x a }

/-- `seat->positions = …` -/
def seatPutPositions (m : Manager) (x : Ref) (positions : List (Option Ref)) : Manager :=
  { m with seat.positions := update m.seat.positions x positions }

/-- `session->position = …` -/
def sessionPutPosition (m : Manager) (s : Ref) (pos : Nat) : Manager :=
  { m with session.position := update m.session.position s pos }

/-- `session->vtnr = …` -/
def sessionPutVtnr (m : Manager) (s : Ref) (vtnr : Nat) : Manager :=
  { m with session.vtnr := update m.session.vtnr s vtnr }

/-- `session->started = …` -/
def sessionPutStarted (m : Manager) (s : Ref) (b : Bool) : Manager :=
  { m with session.started := update m.session.started s b }

/-- `session->stopping = true` -/
def sessionSetStopping (m : Manager) (s : Ref) : Manager :=
  { m with session.stopping := update m.session.stopping s true }

/-- `session->timer_event_source = …` -/
def sessionPutTimer (m : Manager) (s : Ref) (b : Bool) : Manager :=
  { m with session.timer := update m.session.timer s b }

/-- `session->fifo_fd = …` -/
def sessionPutFifo (m : Manager) (s : Ref) (b : Bool) : Manager :=
  { m with session.fifo := update m.session.fifo s b }

/-- `session->vtfd = …` -/
def sessionPutVtfd (m : Manager) (s : Ref) (b : Bool) : Manager :=
  { m with session.vtfd := update m.session.vtfd s b }

/-- `session->was_active = …` -/
def sessionPutWasActive (m : Manager) (s : Ref) (b : Bool) : Manager :=
  { m with session.wasActive := update m.session.wasActive s b }

/-- `session->deserialized_pid = …` -/
def sessionPutDeserializedPid (m : Manager) (s : Ref) (pid : Nat) : Manager :=
  { m with session.deserializedPid := update m.session.deserializedPid s (some pid) }

/-- `session->leader = …` -/
def sessionPutLeader (m : Manager) (s : Ref) (p : PidRef) : Manager :=
  { m with session.leader := update m.session.leader s (some p) }

/-- `session->type = …` and `session->original_type = …` -/
def sessionPutTypes (m : Manager) (s : Ref) (type originalType : SessionType) : Manager :=
  { m with
    session.type := update m.session.type s type
    session.originalType := update m.session.originalType s originalType }

/-- `session->class = …` -/
def sessionPutClass (m : Manager) (s : Ref) (c : SessionClass) : Manager :=
  { m with session.sessionClass := update m.session.sessionClass s c }

/-- `session->track = …` -/
def sessionPutTrack (m : Manager) (s : Ref) (names : Option (List Bytes)) : Manager :=
  { m with session.track := update m.session.track s names }

/-- `session->controller = …` -/
def sessionPutController (m : Manager) (s : Ref) (c : Option Bytes) : Manager :=
  { m with session.controller := update m.session.controller s c }

/-- `user->started = …` -/
def userPutStarted (m : Manager) (u : Ref) (b : Bool) : Manager :=
  { m with user.started := update m.user.started u b }

/-- `user->stopping = …` -/
def userPutStopping (m : Manager) (u : Ref) (b : Bool) : Manager :=
  { m with user.stopping := update m.user.stopping u b }

/-- `user->gc_mode = …` -/
def userPutGcMode (m : Manager) (u : Ref) (mode : UserGcMode) : Manager :=
  { m with user.gcMode := update m.user.gcMode u mode }

/-- `user->last_session_timestamp = …` and `user->timer_event_source = …` -/
def userPutTimer (m : Manager) (u : Ref) (lastSession : Option Nat) (timer : Bool) : Manager :=
  { m with
    user.lastSession := update m.user.lastSession u lastSession
    user.timer := update m.user.timer u timer }

/-- `user->display = …` -/
def userPutDisplay (m : Manager) (u s : Ref) : Manager :=
  { m with user.display := update m.user.display u (some s) }

/-- `sessions_by_leader` gets an entry. -/
def leaderPut (m : Manager) (pid : Nat) (s : Ref) : Manager :=
  { m with sessionsByLeader := update m.sessionsByLeader pid (some s) }

/-- A session is put into the list of its seat. -/
def seatLinkSession (m : Manager) (x s : Ref) : Manager :=
  { m with
    session.seat := update m.session.seat s (some x)
    seat.sessions := update m.seat.sessions x (s :: m.seat.sessions x) }

/-- A session is put into the list of its user. -/
def userLinkSession (m : Manager) (u s : Ref) : Manager :=
  { m with
    session.user := update m.session.user s (some u)
    user.sessions := update m.user.sessions u (s :: m.user.sessions u) }

/-- A session is taken out of the list of its user and is not its display. -/
def userUnlinkSession (m : Manager) (u s : Ref) : Manager :=
  { m with
    session.user := update m.session.user s none
    user.sessions := update m.user.sessions u ((m.user.sessions u).erase s)
    user.display :=
      if m.user.display u = some s then update m.user.display u none else m.user.display }

/-- A session is no longer what a seat points to. -/
def seatForgetSession (m : Manager) (x s : Ref) : Manager :=
  { m with
    seat.active := if m.seat.active x = some s then update m.seat.active x none else m.seat.active
    seat.pendingSwitch :=
      if m.seat.pendingSwitch x = some s then update m.seat.pendingSwitch x none
      else m.seat.pendingSwitch }

/-- A session is taken out of the list of its seat. -/
def seatUnlinkSession (m : Manager) (x s : Ref) : Manager :=
  { m with
    session.seat := update m.session.seat s none
    seat.sessions := update m.seat.sessions x ((m.seat.sessions x).erase s) }

/-- The list of devices of a seat, with a new one. -/
def seatLinkDevice (m : Manager) (x d : Ref) (devices : List Ref) : Manager :=
  { m with
    device.seat := update m.device.seat d (some x)
    seat.devices := update m.seat.devices x devices }

/-- A device is taken out of the list of its seat. -/
def seatUnlinkDevice (m : Manager) (x d : Ref) : Manager :=
  { m with
    seat.devices := update m.seat.devices x ((m.seat.devices x).erase d)
    device.seat := update m.device.seat d none }

end Manager

/-- The answers one operation gets from the kernel, the bus and the C library. -/
structure Env where
  /-- Memory can be allocated. -/
  alloc : Bool
  /-- `session_device_open` for a device that is taken, active or not. -/
  openNode : Bool → Result Nat
  /-- Memory for an entry of the devices of a session. -/
  putDevice : Bool
  /-- `session_device_open` for a device that is started again. -/
  reopen : Ref → Option Nat
  /-- `sd_drmsetmaster` for a device that is started again. -/
  setMaster : Ref → Bool
  /-- `notify_push_fdf` for a session device. -/
  pushFd : Ref → Bool
  /-- The VT in the foreground, if `console_active_fd` can be read. -/
  activeVt : Option Nat
  /-- Whether a larger array of positions can be had, and how many elements
      more than asked for it has. -/
  growPositions : Option Nat
  /-- The monotonic clock. -/
  now : Nat
  /-- `user_get_stop_delay`, with `none` for infinity. -/
  stopDelay : Ref → Option Nat
  /-- An event source for a timer can be had. -/
  addTimer : Bool
  /-- `pidref_is_alive` for the leader of a session that has one. -/
  leaderAlive : Ref → Result Bool
  /-- `pipe_eof` on the FIFO of a session finds the end of the file. -/
  fifoEof : Ref → Bool
  /-- `user_check_linger_file` is positive. -/
  linger : Ref → Bool
  /-- `userdb_by_uid` -/
  userRecord : Nat → Result Unit
  /-- `user_runtime_dir`, when a user is started. -/
  runtimeDir : Result Unit
  /-- `session_start_cgroup` and `session_setup_stop_on_idle_timer` -/
  startCgroup : Result Unit
  stopOnIdle : Result Unit
  /-- `session_watch_pidfd`, and memory for an entry of `sessions_by_leader`. -/
  watchPidfd : Result Unit
  putLeader : Result Unit
  /-- The name of a controller can be copied, `sd_bus_track_new`,
      `sd_bus_track_add_name`, and what `session_prepare_vt` does to the VT. -/
  dupName : Bool
  trackNew : Result Unit
  trackAddName : Result Unit
  prepareVt : Result Unit
  /-- `chvt` -/
  chvt : Result Unit
  /-- The reply to a method call can be sent. -/
  reply : Result Unit

/-- The answers where nothing fails: there is memory, all processes live on, and
    nobody lingers. -/
def Env.calm : Env where
  alloc := true
  openNode _ := .ok 0
  putDevice := true
  reopen _ := some 0
  setMaster _ := true
  pushFd _ := true
  activeVt := none
  growPositions := some 0
  now := 0
  stopDelay _ := some 0
  addTimer := true
  leaderAlive _ := .ok true
  fifoEof _ := false
  linger _ := false
  userRecord _ := .ok ()
  runtimeDir := .ok ()
  startCgroup := .ok ()
  stopOnIdle := .ok ()
  watchPidfd := .ok ()
  putLeader := .ok ()
  dupName := true
  trackNew := .ok ()
  trackAddName := .ok ()
  prepareVt := .ok ()
  chvt := .ok ()
  reply := .ok ()

end Elogind
