/-
  Elogind.Login.Restore

  What the daemon restores when it starts again: `session_load` for every state
  file of a session (logind-session.c).

  The text of a state file and how its lines are read is in
  `Elogind.Login.SessionFile`; here a file is what reading it gives.  What
  `session_load` returns is only logged.
-/

import Elogind.Login.Teardown

namespace Elogind

open Function Errno

/-- What `session_load` reads from a state file.  An entry that is missing or can
    not be parsed is `none`, unless it is said otherwise. -/
structure StateFile where
  /-- `UID`, or the error if there is none or it is no number. -/
  uid : Result Nat
  vtnr : Option Nat
  seat : Option Bytes
  /-- `POSITION`: the number in `npos`. -/
  position : Option Nat
  type : Option SessionType
  /-- `ORIGINAL_TYPE`: `some none` if there is one that is no type. -/
  originalType : Option (Option SessionType)
  sessionClass : Option SessionClass
  /-- `STATE` is `closing`. -/
  closing : Bool
  /-- There is a `FIFO`. -/
  fifo : Bool
  /-- `ACTIVE` -/
  active : Option Bool
  /-- `IS_DISPLAY` is true. -/
  isDisplay : Bool
  controller : Option Bytes
  /-- The device numbers in `DEVICES`. -/
  devices : List Nat
  leader : Option Nat
  /-- `LEADER_FD_SAVED` is true, or is no boolean. -/
  leaderFdSaved : Bool
  deriving Repr

/-- The answers that one `session_load` gets from the system. -/
structure LoadAnswers where
  user : Env
  attach : Env
  claim : Env
  /-- `session_create_fifo` opens the FIFO. -/
  createFifo : Bool
  /-- `bus_name_has_owner` -/
  nameHasOwner : Bytes → Bool
  setController : Env
  /-- For each device number, the answers for `session_device_new` and what udev
      knows about the number. -/
  device : Nat → Env
  node : Nat → Result DeviceNode
  /-- `pidref_set_pid` -/
  pidrefSetPid : Nat → Result PidRef
  setLeader : Env

/-- The answers where nothing fails; udev knows no device. -/
def LoadAnswers.calm : LoadAnswers where
  user := .calm
  attach := .calm
  claim := .calm
  createFifo := true
  nameHasOwner _ := true
  setController := .calm
  device _ := .calm
  node _ := .error ENODEV
  pidrefSetPid pid := .ok ⟨pid, none⟩
  setLeader := .calm

namespace Manager

/-! ## Loading a session -/

/-- The user of the session, if it has none yet. -/
def sessionLoadUser (env : Env) (m : Manager) (s : Ref) (f : StateFile) : Option Manager :=
  if (m.session.user s).isSome then some m
  else
    match f.uid with
    | .error _ => none
    | .ok uid =>
      match m.getUser uid with
      | none => none
      | some u => some (m.sessionSetUser env s u)

/-- The VT of the session. -/
def sessionLoadVtnr (m : Manager) (s : Ref) (f : StateFile) : Manager :=
  match f.vtnr with
  | none => m
  | some vtnr => m.sessionPutVtnr s vtnr

/-- The seat of the session, if it has none yet. -/
def sessionLoadAttach (env : Env) (m : Manager) (s : Ref) (f : StateFile) : Manager :=
  match f.seat, m.session.seat s with
  | some id, none =>
    match m.getSeat id with
    | none => m
    | some x => (m.seatAttachSession env x s).1
  | _, _ => m

/-- Without VTs, a session has no VT number. -/
def sessionClearVtnr (m : Manager) (s : Ref) : Manager :=
  match m.session.seat s with
  | none => m.sessionPutVtnr s 0
  | some x => if m.seatHasVts x then m else m.sessionPutVtnr s 0

/-- The position of the session. -/
def sessionLoadPosition (env : Env) (m : Manager) (s : Ref) (f : StateFile) : Manager :=
  match f.position, m.session.seat s with
  | some npos, some x => m.seatClaimPosition env x s npos
  | _, _ => m

/-- The VT, the seat and the position. -/
def sessionLoadSeat (env env' : Env) (m : Manager) (s : Ref) (f : StateFile) : Manager :=
  (((m.sessionLoadVtnr s f).sessionLoadAttach env s f).sessionClearVtnr s).sessionLoadPosition
    env' s f

/-- The types and the class. -/
def sessionLoadTypes (m : Manager) (s : Ref) (f : StateFile) : Manager :=
  let type := f.type.getD (m.session.type s)
  let originalType :=
    match f.originalType with
    | none => type
    | some t => t.getD (m.session.originalType s)
  let m := m.sessionPutTypes s type originalType
  match f.sessionClass with
  | none => m
  | some c => m.sessionPutClass s c

/-- Whether the session is closing, and its FIFO. -/
def sessionLoadState (m : Manager) (s : Ref) (f : StateFile) (createFifo : Bool) : Manager :=
  let m := if f.closing then m.sessionSetStopping s else m
  if f.fifo && createFifo then m.sessionPutFifo s true else m

/-- Whether the session was active. -/
def sessionLoadActive (m : Manager) (s : Ref) (f : StateFile) : Manager :=
  match f.active with
  | none => m
  | some b => m.sessionPutWasActive s b

/-- Whether the session is the display of its user. -/
def sessionLoadDisplay (m : Manager) (s : Ref) (f : StateFile) : Manager :=
  match f.isDisplay, m.session.user s with
  | true, some u => m.userPutDisplay u s
  | _, _ => m

def sessionLoadFlags (m : Manager) (s : Ref) (f : StateFile) (createFifo : Bool) : Manager :=
  ((m.sessionLoadState s f createFifo).sessionLoadActive s f).sessionLoadDisplay s f

/-- `session_load_devices` -/
def sessionLoadDevices (env : LoadAnswers) (m : Manager) (s : Ref) (devices : List Nat) : Manager :=
  devices.foldl (fun m dev => (m.sessionDeviceNew (env.device dev) s dev false (env.node dev)).1) m

/-- The controller and its devices. -/
def sessionLoadController (env : LoadAnswers) (m : Manager) (s : Ref) (f : StateFile) : Manager :=
  match f.controller with
  | none => m
  | some c =>
    if env.nameHasOwner c then
      ((m.sessionSetController env.setController s c false false).1).sessionLoadDevices env s
        f.devices
    else m.sessionRestoreVt s

/-- The leader, unless its file descriptor is expected from the service manager. -/
def sessionLoadLeader (env : LoadAnswers) (m : Manager) (s : Ref) (f : StateFile) : Manager :=
  match f.leader with
  | none => m
  | some pid =>
    let m := m.sessionPutDeserializedPid s pid
    if f.leaderFdSaved then m
    else
      match env.pidrefSetPid pid with
      | .error _ => m
      | .ok p => (m.sessionSetLeaderConsume env.setLeader s p).1

/-- What `session_load` does after the user and the seat. -/
def sessionLoadRest (env : LoadAnswers) (m : Manager) (s : Ref) (f : StateFile) : Manager :=
  (((m.sessionLoadTypes s f).sessionLoadFlags s f env.createFifo).sessionLoadController env s
    f).sessionLoadLeader env s f

/-- `session_load` -/
def sessionLoad (env : LoadAnswers) (m : Manager) (s : Ref) (f : StateFile) : Manager :=
  match m.sessionLoadUser env.user s f with
  | none => m
  | some m => (m.sessionLoadSeat env.attach env.claim s f).sessionLoadRest env s f

/-! ## Starting the daemon -/

/-- A state file with its name, and the answers while it is loaded. -/
structure Entry where
  id : Bytes
  file : StateFile
  add : Env
  load : LoadAnswers

/-- What `manager_enumerate_sessions` does with a state file. -/
def enumerateSession (m : Manager) (e : Entry) : Manager :=
  match m.addSession e.add e.id with
  | (m, .error _) => m
  | (m, .ok s) => (m.sessionAddToGcQueue s).sessionLoad e.load s e.file

/-- A manager with `seat0`, with a second seat and with one user. -/
def twoSeats (consoleActive : Bool) : Manager :=
  (((((empty consoleActive).addSeat .calm (ascii "seat0")).1.addSeat .calm (ascii "seat1")).1.userNew
    1000)).1

/-- The state file of a graphical session of this user. -/
def userFile (seat : Bytes) (vtnr position : Option Nat) (active : Bool) (leader : Nat) :
    StateFile where
  uid := .ok 1000
  vtnr := vtnr
  seat := some seat
  position := position
  type := some .wayland
  originalType := some (some .wayland)
  sessionClass := some .user
  closing := false
  fifo := false
  active := some active
  isDisplay := false
  controller := none
  devices := []
  leader := some leader
  leaderFdSaved := false

/-- The entry for such a file on the second seat. -/
def secondSeatEntry (id : Bytes) (position : Nat) (active : Bool) (leader : Nat) : Entry where
  id := id
  file := userFile (ascii "seat1") none (some position) active leader
  add := .calm
  load := .calm

end Manager

end Elogind
