/-
  Elogind.Login.Session

  Sessions (logind-session.c): their user and their leader, starting, stopping,
  finalizing and freeing them, switching to them, and their controllers.

  What the functions return is left out where it only says whether processes
  could be killed or files be written.
-/

import Elogind.Login.Device
import Elogind.Login.User

namespace Elogind

open Function Errno

/-- `session_id_valid`: letters and digits. -/
def sessionIdValid (id : Bytes) : Bool :=
  !id.isEmpty &&
    id.all fun c => (97 ≤ c && c ≤ 122) || (65 ≤ c && c ≤ 90) || (48 ≤ c && c ≤ 57)

namespace Manager

/-! ## User and leader -/

/-- `hashmap_get` on the sessions of the manager. -/
def getSession (m : Manager) (id : Bytes) : Option Ref :=
  m.sessions.find? fun s => m.session.id s = id

/-- `session_new`, after its checks. -/
def sessionNew (m : Manager) (id : Bytes) : Manager × Ref :=
  ({ m with
      next := m.next + 1
      sessions := m.next :: m.sessions
      session.live := update m.session.live m.next true
      session.id := update m.session.id m.next id }, m.next)

/-- `manager_add_session` -/
def addSession (env : Env) (m : Manager) (id : Bytes) : Manager × Result Ref :=
  match m.getSession id with
  | some s => (m, .ok s)
  | none =>
    if !sessionIdValid id then (m, .error EINVAL)
    else if !env.alloc then (m, .error ENOMEM)
    else
      let (m, s) := m.sessionNew id
      (m, .ok s)

/-- `session_set_user`, for a session without a user. -/
def sessionSetUser (env : Env) (m : Manager) (s u : Ref) : Manager :=
  (m.userLinkSession u s).userUpdateLastSessionTimer env u

/-- `session_reset_leader` -/
def sessionResetLeader (m : Manager) (s : Ref) : Manager :=
  match m.session.leader s with
  | none => m
  | some l =>
    { m with
      sessionsByLeader :=
        if m.sessionsByLeader l.pid = some s then update m.sessionsByLeader l.pid none
        else m.sessionsByLeader
      session.leader := update m.session.leader s none }

/-- `session_set_leader_consume` -/
def sessionSetLeaderConsume (env : Env) (m : Manager) (s : Ref) (p : PidRef) :
    Manager × Result Unit :=
  if (m.session.leader s).any (PidRef.equal · p) then (m, .ok ())
  else
    let m := (m.sessionResetLeader s).sessionPutLeader s p
    match env.watchPidfd with
    | .error e => (m, .error e)
    | .ok () =>
      if (m.sessionsByLeader p.pid).isSome then (m, .error EEXIST)
      else
        match env.putLeader with
        | .error e => (m, .error e)
        | .ok () => (m.leaderPut p.pid s, .ok ())

/-! ## Controllers -/

/-- `session_is_controller` -/
def sessionIsController (m : Manager) (s : Ref) (sender : Bytes) : Bool :=
  m.session.controller s == some sender

/-- `session_set_type` -/
def sessionSetType (m : Manager) (s : Ref) (t : SessionType) : Manager :=
  { m with session.type := update m.session.type s t }

/-- `s->track = sd_bus_track_unref(s->track)` -/
def sessionUntrack (m : Manager) (s : Ref) : Manager := m.sessionPutTrack s none

/-- `session_restore_vt` -/
def sessionRestoreVt (m : Manager) (s : Ref) : Manager := m.sessionPutVtfd s false

/-- `session_release_controller` -/
def sessionReleaseController (m : Manager) (s : Ref) (notify : Bool) : Manager :=
  if (m.session.controller s).isNone then m
  else
    let m := if notify then m else m.sessionPutController s none
    let m := m.sessionFreeDevices s
    (m.sessionPutController s none).sessionUntrack s

/-- `session_prepare_vt` -/
def sessionPrepareVt (env : Env) (m : Manager) (s : Ref) : Manager × Result Unit :=
  if m.session.vtnr s < 1 then (m, .ok ())
  else
    match env.prepareVt with
    | .error e => (m.sessionRestoreVt s, .error e)
    | .ok () => (m.sessionPutVtfd s true, .ok ())

/-- `session_set_controller` -/
def sessionSetController (env : Env) (m : Manager) (s : Ref) (sender : Bytes)
    (force prepare : Bool) : Manager × Result Unit :=
  if m.sessionIsController s sender then (m, .ok ())
  else if (m.session.controller s).isSome && !force then (m, .error EBUSY)
  else if !env.dupName then (m, .error ENOMEM)
  else
    let m := m.sessionUntrack s
    match env.trackNew with
    | .error e => (m, .error e)
    | .ok () =>
      let m := m.sessionPutTrack s (some [])
      match env.trackAddName with
      | .error e => (m, .error e)
      | .ok () =>
        let m := m.sessionPutTrack s (some [sender])
        let (m, r) := if prepare then m.sessionPrepareVt env s else (m, .ok ())
        match r with
        | .error e => (m.sessionUntrack s, .error e)
        | .ok () =>
          let m := m.sessionReleaseController s true
          (m.sessionPutController s (some sender), .ok ())

/-- `session_drop_controller` -/
def sessionDropController (m : Manager) (s : Ref) : Manager :=
  if (m.session.controller s).isNone then m
  else
    let m := m.sessionUntrack s
    let m := m.sessionSetType s (m.session.originalType s)
    (m.sessionReleaseController s false).sessionRestoreVt s

/-! ## The life of a session -/

/-- `session_add_to_gc_queue` -/
def sessionAddToGcQueue (m : Manager) (s : Ref) : Manager :=
  if m.session.inGcQueue s then m
  else
    { m with
      sessionGcQueue := s :: m.sessionGcQueue
      session.inGcQueue := update m.session.inGcQueue s true }

/-- The timer of a session is taken away and its position is given up. -/
def sessionRetire (m : Manager) (s : Ref) : Manager :=
  match m.session.seat s with
  | none => m.sessionPutTimer s false
  | some x => (m.sessionPutTimer s false).seatEvictPosition x s

/-- `session_stop` -/
def sessionStop (m : Manager) (s : Ref) : Manager :=
  match m.session.user s with
  | none => m
  | some u =>
    if !m.session.started s || m.session.stopping s then m
    else
      let m := ((m.sessionRetire s).sessionPutFifo s false).sessionSetStopping s
      m.userElectDisplay u

/-- `session_finalize` -/
def sessionFinalize (env : Env) (m : Manager) (s : Ref) : Manager :=
  match m.session.user s with
  | none => m
  | some u =>
    let m := m.sessionRetire s
    let m := m.sessionFreeDevices s
    let m := ((m.sessionAddToGcQueue s).userAddToGcQueue u).sessionPutStarted s false
    let m :=
      match m.session.seat s with
      | none => m
      | some x => if m.seat.active x = some s then m.seatSetActive env x none else m
    m.sessionResetLeader s

/-- A session leaves the queue of the garbage collector. -/
def sessionDequeue (m : Manager) (s : Ref) : Manager :=
  { m with
    sessionGcQueue := m.sessionGcQueue.erase s
    session.inGcQueue := update m.session.inGcQueue s false }

/-- A session leaves its user. -/
def sessionUnlinkUser (env : Env) (m : Manager) (s : Ref) : Manager :=
  match m.session.user s with
  | none => m
  | some u => (m.userUnlinkSession u s).userUpdateLastSessionTimer env u

/-- A session leaves its seat. -/
def sessionUnlinkSeat (m : Manager) (s : Ref) : Manager :=
  match m.session.seat s with
  | none => m
  | some x => ((m.seatForgetSession x s).seatEvictPosition x s).seatUnlinkSession x s

/-- The memory of a session is given back. -/
def freeSession (m : Manager) (s : Ref) : Manager :=
  { m with
    sessions := m.sessions.erase s
    session.live := update m.session.live s false
    session.id := update m.session.id s []
    session.type := update m.session.type s .unspecified
    session.originalType := update m.session.originalType s .unspecified
    session.sessionClass := update m.session.sessionClass s .user
    session.vtnr := update m.session.vtnr s 0
    session.track := update m.session.track s none
    session.started := update m.session.started s false
    session.stopping := update m.session.stopping s false
    session.timer := update m.session.timer s false
    session.fifo := update m.session.fifo s false
    session.vtfd := update m.session.vtfd s false
    session.wasActive := update m.session.wasActive s false
    session.deserializedPid := update m.session.deserializedPid s none }

/-- `session_free`.  The pointers to the user and the seat and the flag for the
    queue go with what they stand for, not with the memory of the session. -/
def sessionFree (env : Env) (m : Manager) (s : Ref) : Manager :=
  let m := if m.session.inGcQueue s then m.sessionDequeue s else m
  let m := m.sessionDropController s
  let m := m.sessionFreeDevices s
  let m := m.sessionUnlinkUser env s
  let m := m.sessionUnlinkSeat s
  (m.sessionResetLeader s).freeSession s

/-- `session_may_gc` -/
def sessionMayGc (env : Env) (m : Manager) (s : Ref) (dropNotStarted : Bool) : Bool :=
  let alive : Result Bool :=
    if (m.session.leader s).isNone then .error ESRCH else env.leaderAlive s
  let fifoOpen := m.session.fifo s && !env.fifoEof s
  if dropNotStarted && !m.session.started s then
    match alive with
    | .ok true => false
    | _ => !fifoOpen
  else if (m.session.user s).isNone then true
  else
    match alive with
    | .ok true => false
    | .error e =>
      if e = ESRCH then true else !fifoOpen && (dropNotStarted || m.session.stopping s)
    | .ok false => !fifoOpen && (dropNotStarted || m.session.stopping s)

end Manager

end Elogind
