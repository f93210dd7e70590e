/-
  Elogind.Login.SessionFile

  The state file of a session (logind-session.c): `session_save` writes it, and
  after a restart `session_load` fills a new session from it.

  What the functions ask of the system is collected in `LoadEnv`.  Writing the
  file can fail as a whole, which is not modelled: then there is no file.
-/

import Elogind.Basic.EnvText
import Elogind.Basic.ParseUtil
import Elogind.Basic.TimeUtil
import Elogind.Login.SessionTypes

namespace Elogind

open Byte Errno

/-- `AUDIT_SESSION_INVALID` -/
def auditSessionInvalid : Nat := 2 ^ 32 - 1

/-- `audit_session_is_valid` -/
def auditSessionIsValid (id : Nat) : Bool := 0 < id && id != auditSessionInvalid

/-- The fields of a session that are to survive a restart. -/
structure Persisted where
  scope : Option Bytes
  fifoPath : Option Bytes
  tty : Option Bytes
  display : Option Bytes
  remoteHost : Option Bytes
  remoteUser : Option Bytes
  service : Option Bytes
  desktop : Option Bytes
  sessionClass : SessionClass
  type : SessionType
  originalType : SessionType
  vtnr : Nat
  position : Nat
  leader : Option Nat
  auditId : Nat
  realtime : Nat
  monotonic : Nat
  controller : Option Bytes
  deriving DecidableEq, Repr

/-- What a session has to know about its seat. -/
structure SeatRef where
  id : Bytes
  hasVts : Bool
  deriving DecidableEq, Repr

/-- What `session_save` reads of a session and of the objects it points to. -/
structure SessionRecord extends Persisted where
  user : Option (Nat × Bytes)
  started : Bool
  active : Bool
  isDisplay : Bool
  state : SessionState
  remote : Bool
  leaderFdSaved : Bool
  seat : Option SeatRef
  ttyValidity : Option TTYValidity
  devices : List (Nat × Nat)
  deriving DecidableEq, Repr

/-! ## Writing -/

/-- `session_save_devices` -/
def devicesText (devices : List (Nat × Nat)) : Bytes :=
  devices.flatMap fun d => decimal d.1 ++ 58 :: decimal d.2 ++ [space]

def comment : Bytes := ascii "# This is private data. Do not parse." ++ [newline]

/-- `dual_timestamp_is_set` -/
def Persisted.timestampIsSet (s : Persisted) : Bool :=
  Elogind.timestampIsSet s.realtime || Elogind.timestampIsSet s.monotonic

/-- The lines of the file, in their order. -/
def SessionRecord.entries (s : SessionRecord) : List FileEntry :=
  [⟨ascii "UID", s.user.map fun u => decimal u.1⟩,
    ⟨ascii "USER", s.user.map Prod.snd⟩,
    ⟨ascii "ACTIVE", some (oneZero s.active)⟩,
    ⟨ascii "IS_DISPLAY", some (oneZero s.isDisplay)⟩,
    ⟨ascii "STATE", some (sessionStateTable.toText s.state)⟩,
    ⟨ascii "REMOTE", some (oneZero s.remote)⟩,
    ⟨ascii "LEADER_FD_SAVED", some (oneZero s.leaderFdSaved)⟩,
    ⟨ascii "TYPE", some (sessionTypeTable.toText s.type)⟩,
    ⟨ascii "ORIGINAL_TYPE", some (sessionTypeTable.toText s.originalType)⟩,
    ⟨ascii "CLASS", some (sessionClassTable.toText s.sessionClass)⟩,
    ⟨ascii "SCOPE", s.scope⟩,
    ⟨ascii "FIFO", s.fifoPath⟩,
    ⟨ascii "SEAT", s.seat.map SeatRef.id⟩,
    ⟨ascii "TTY", s.tty⟩,
    ⟨ascii "TTY_VALIDITY", s.ttyValidity.map ttyValidityTable.toText⟩,
    ⟨ascii "DISPLAY", s.display⟩,
    ⟨ascii "REMOTE_HOST", s.remoteHost.map cescape⟩,
    ⟨ascii "REMOTE_USER", s.remoteUser.map cescape⟩,
    ⟨ascii "SERVICE", s.service.map cescape⟩,
    ⟨ascii "DESKTOP", s.desktop.map cescape⟩,
    ⟨ascii "VTNR", if s.seat.any SeatRef.hasVts then some (decimal s.vtnr) else none⟩,
    ⟨ascii "POSITION", if s.vtnr = 0 then some (decimal s.position) else none⟩,
    ⟨ascii "LEADER", s.leader.map decimal⟩,
    ⟨ascii "AUDIT", if auditSessionIsValid s.auditId then some (decimal s.auditId) else none⟩,
    ⟨ascii "REALTIME", if s.timestampIsSet then some (decimal s.realtime) else none⟩,
    ⟨ascii "MONOTONIC", if s.timestampIsSet then some (decimal s.monotonic) else none⟩,
    ⟨ascii "CONTROLLER", s.controller⟩,
    ⟨ascii "DEVICES",
      if s.controller.isSome && !s.devices.isEmpty then some (devicesText s.devices) else none⟩]

/-- `session_save`: the text of the file, if there is one to be written. -/
def sessionSave (s : SessionRecord) : Result (Option Bytes) :=
  if s.user.isNone then .error ESTALE
  else if !s.started then .ok none
  else .ok (some (comment ++ s.entries.flatMap FileEntry.line))

/-! ## Reading -/

/-- The answers `session_load` gets from the manager and from the system. -/
structure LoadEnv where
  /-- The users the manager knows. -/
  userKnown : Nat → Bool
  /-- The seats the manager knows, and whether they have VTs. -/
  seatHasVts : Bytes → Option Bool
  /-- The first free position of the seat. -/
  freePosition : Nat
  /-- The table of positions can be made larger, when the session is attached
      and when it claims its position. -/
  growAttach : Bool
  growClaim : Bool
  /-- What the variable for the position holds when nothing is stored in it. -/
  npos : Nat
  /-- `mkfifo` makes the FIFO, or it exists. -/
  mkfifo : Bytes → Bool
  /-- The path `session_create_fifo` makes up for a session without one. -/
  newFifoPath : Option Bytes
  /-- `bus_name_has_owner` -/
  nameHasOwner : Bytes → Bool
  /-- `session_set_controller` -/
  setController : Bytes → Bool
  /-- `pidref_set_pid` -/
  pidrefSetPid : Nat → Result Unit
  /-- `session_watch_pidfd`, and entering the leader into `sessions_by_leader`. -/
  watchPidfd : Result Unit
  putLeader : Result Unit
  /-- `audit_session_from_pid` -/
  auditSessionFromPid : Nat → Option Nat
  /-- The file descriptor of the leader was handed to the service manager. -/
  pushLeaderFd : Bool

/-- What `session_load` fills in. -/
structure LoadedSession extends Persisted where
  uid : Option Nat
  remote : Bool
  seat : Option SeatRef
  ttyValidity : Option TTYValidity
  stopping : Bool
  wasActive : Bool
  isDisplay : Bool
  devices : Option Bytes
  deserializedPid : Option Nat
  leaderFdSaved : Bool
  deriving DecidableEq, Repr

/-- A session as `session_new` makes it. -/
def LoadedSession.fresh : LoadedSession where
  scope := none
  fifoPath := none
  tty := none
  display := none
  remoteHost := none
  remoteUser := none
  service := none
  desktop := none
  sessionClass := .user
  type := .unspecified
  originalType := .unspecified
  vtnr := 0
  position := 0
  leader := none
  auditId := auditSessionInvalid
  realtime := 0
  monotonic := 0
  controller := none
  uid := none
  remote := false
  seat := none
  ttyValidity := none
  stopping := false
  wasActive := false
  isDisplay := false
  devices := none
  deserializedPid := none
  leaderFdSaved := false

namespace LoadedSession

/-- The strings that `parse_env_file` stores in the session itself. -/
def loadStrings (as : List Assignment) : LoadedSession :=
  { fresh with
    scope := lookup (ascii "SCOPE") as
    fifoPath := lookup (ascii "FIFO") as
    tty := lookup (ascii "TTY") as
    display := lookup (ascii "DISPLAY") as
    remoteHost := lookup (ascii "REMOTE_HOST") as
    remoteUser := lookup (ascii "REMOTE_USER") as
    service := lookup (ascii "SERVICE") as
    desktop := lookup (ascii "DESKTOP") as }

/-- The user of the session. -/
def loadUser (env : LoadEnv) (as : List Assignment) : Result Nat :=
  match lookup (ascii "UID") as with
  | none => .error ENOENT
  | some uid =>
    match parseUid uid with
    | .error e => .error e
    | .ok u => if env.userKnown u then .ok u else .error ENOENT

/-- `seat_claim_position`, as far as the session is concerned. -/
def claimPosition (hasVts grow : Bool) (pos : Nat) (s : LoadedSession) : LoadedSession :=
  let pos := if hasVts then s.vtnr else pos
  if grow then { s with position := pos } else s

/-- `seat_attach_session`, as far as the session is concerned. -/
def attachSeat (env : LoadEnv) (seat : SeatRef) (s : LoadedSession) : LoadedSession × Result Unit :=
  if (!seat.hasVts) != (s.vtnr == 0) then (s, .error EINVAL)
  else
    let s := { s with seat := some seat }
    if s.position > 0 then (s, .ok ())
    else (s.claimPosition seat.hasVts env.growAttach env.freePosition, .ok ())

/-- The VT, the seat and the position. -/
def loadSeat (env : LoadEnv) (as : List Assignment) (s : LoadedSession) :
    LoadedSession × Result Unit :=
  let s :=
    match (lookup (ascii "VTNR") as).map safeAtou with
    | some (.ok n) => { s with vtnr := n }
    | _ => s
  let (s, r) : LoadedSession × Result Unit :=
    match lookup (ascii "SEAT") as with
    | none => (s, .ok ())
    | some id =>
      match env.seatHasVts id with
      | none => (s, .ok ())
      | some hasVts => s.attachSeat env ⟨id, hasVts⟩
  let s := if s.seat.any SeatRef.hasVts then s else { s with vtnr := 0 }
  match lookup (ascii "POSITION") as, s.seat with
  | some position, some seat =>
    match safeAtou position with
    | .ok npos => (s.claimPosition seat.hasVts env.growClaim npos, r)
    | .error _ => (s.claimPosition seat.hasVts env.growClaim env.npos, r)
  | _, _ => (s, r)

/-- The fields that come from string tables. -/
def loadTypes (as : List Assignment) (s : LoadedSession) : LoadedSession :=
  let s := { s with
    ttyValidity := (lookup (ascii "TTY_VALIDITY") as).bind ttyValidityTable.fromString <|>
      s.ttyValidity
    type := ((lookup (ascii "TYPE") as).bind sessionTypeTable.fromString).getD s.type }
  { s with
    originalType :=
      match lookup (ascii "ORIGINAL_TYPE") as with
      | none => s.type
      | some t => (sessionTypeTable.fromString t).getD s.originalType
    sessionClass :=
      ((lookup (ascii "CLASS") as).bind sessionClassTable.fromString).getD s.sessionClass
    stopping := s.stopping || lookup (ascii "STATE") as == some (ascii "closing") }

/-- Recreating the FIFO; a FIFO that cannot be made is given a new path. -/
def loadFifo (env : LoadEnv) (s : LoadedSession) : LoadedSession :=
  match s.fifoPath with
  | none => s
  | some path => if env.mkfifo path then s else { s with fifoPath := env.newFifoPath }

/-- `parse_boolean` into a field that is left alone on failure. -/
def loadBool (as : List Assignment) (k : Bytes) (old : Bool) : Bool :=
  match (lookup k as).map parseBoolean with
  | some (.ok b) => b
  | _ => old

/-- `deserialize_usec` into a field that is left alone on failure. -/
def loadUsec (as : List Assignment) (k : Bytes) (old : Nat) : Nat :=
  match (lookup k as).map safeAtou64 with
  | some (.ok n) => n
  | _ => old

/-- The time stamps, and whether the session was active and the display of its
    user. -/
def loadTimes (as : List Assignment) (s : LoadedSession) : LoadedSession :=
  { s with
    realtime := loadUsec as (ascii "REALTIME") s.realtime
    monotonic := loadUsec as (ascii "MONOTONIC") s.monotonic
    wasActive := loadBool as (ascii "ACTIVE") s.wasActive
    isDisplay := loadBool as (ascii "IS_DISPLAY") s.isDisplay }

/-- The controller and its devices, if it is still there. -/
def loadController (env : LoadEnv) (as : List Assignment) (s : LoadedSession) : LoadedSession :=
  match lookup (ascii "CONTROLLER") as with
  | none => s
  | some c =>
    if env.nameHasOwner c then
      { s with
        controller := if env.setController c then some c else s.controller
        devices := lookup (ascii "DEVICES") as }
    else s

/-- `session_set_leader_consume` for a session without a leader. -/
def setLeader (env : LoadEnv) (pid : Nat) (s : LoadedSession) : LoadedSession × Result Unit :=
  let s := { s with leaderFdSaved := false, leader := some pid }
  match env.watchPidfd, env.putLeader with
  | .error e, _ => (s, .error e)
  | .ok _, .error e => (s, .error e)
  | .ok _, .ok _ =>
    ({ s with
        leaderFdSaved := env.pushLeaderFd
        auditId := (env.auditSessionFromPid pid).getD s.auditId }, .ok ())

/-- The leader, unless it is expected from the service manager. -/
def loadLeader (env : LoadEnv) (as : List Assignment) (r : Result Unit) (s : LoadedSession) :
    LoadedSession × Result Unit :=
  match lookup (ascii "LEADER") as with
  | none => (s, r)
  | some leader =>
    match parsePid leader with
    | .error e => (s, .error e)
    | .ok pid =>
      let s := { s with deserializedPid := some pid }
      match (lookup (ascii "LEADER_FD_SAVED") as).map parseBoolean with
      | some (.error e) => (s, .error e)
      | some (.ok true) => ({ s with leaderFdSaved := true }, .ok ())
      | _ =>
        let s := { s with leaderFdSaved := false }
        match env.pidrefSetPid pid with
        | .error e => (s, .error e)
        | .ok _ => s.setLeader env pid

end LoadedSession

open LoadedSession in
/-- `session_load`, on a session that has just been made. -/
def sessionLoad (env : LoadEnv) (text : Bytes) : LoadedSession × Result Unit :=
  match parseEnvFile text with
  | .error e =>
    (loadStrings ((parseEnvFileInternal text).takeWhile Assignment.utf8IsValid), .error e)
  | .ok as =>
    let s := loadStrings as
    match loadUser env as with
    | .error e => (s, .error e)
    | .ok uid =>
      let s := { s with uid := some uid, remote := loadBool as (ascii "REMOTE") s.remote }
      let (s, r) := s.loadSeat env as
      let s := ((s.loadTypes as).loadFifo env).loadTimes as
      (s.loadController env as).loadLeader env as r

/-- A session on VT 2 of the first seat, with the given desktop. -/
def sampleSession (desktop : Bytes) : SessionRecord where
  scope := none
  fifoPath := some (ascii "/run/systemd/sessions/c1.ref")
  tty := some (ascii "tty2")
  display := none
  remoteHost := none
  remoteUser := none
  service := some (ascii "gdm-password")
  desktop := some desktop
  sessionClass := .user
  type := .wayland
  originalType := .wayland
  vtnr := 2
  position := 2
  leader := some 700
  auditId := auditSessionInvalid
  realtime := 1000
  monotonic := 2000
  controller := some (ascii ":1.20")
  user := some (1000, ascii "alice")
  started := true
  active := true
  isDisplay := true
  state := .active
  remote := false
  leaderFdSaved := false
  seat := some ⟨ascii "seat0", true⟩
  ttyValidity := some .fromPam
  devices := [(226, 0)]

end Elogind
