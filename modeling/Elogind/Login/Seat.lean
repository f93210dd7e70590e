/-
  Elogind.Login.Seat

  Seats (logind-seat.c): the session in the foreground, the table of positions,
  attaching sessions, and the VT in the foreground.  Stopping and freeing a seat
  is in `Elogind.Login.Teardown`, since it stops and frees sessions.
-/

import Elogind.Login.SessionDevice

namespace Elogind

open Function Errno

namespace Manager

/-- `seat_add_to_gc_queue` -/
def seatAddToGcQueue (m : Manager) (x : Ref) : Manager :=
  if m.seat.inGcQueue x then m
  else
    { m with
      seatGcQueue := x :: m.seatGcQueue
      seat.inGcQueue := update m.seat.inGcQueue x true }

/-- `s->active = session` and pausing the devices of the session before. -/
def seatSwitch (m : Manager) (x : Ref) (session : Option Ref) : Manager :=
  match m.seat.active x with
  | none => m.seatPutActive x session
  | some old => (m.seatPutActive x session).sessionDevicePauseAll old

/-- `seat_set_active` -/
def seatSetActive (env : Env) (m : Manager) (x : Ref) (session : Option Ref) : Manager :=
  if session = m.seat.active x then
    match session with
    | none => m
    | some s => m.sessionDeviceResumeAll env s
  else
    let m := m.seatSwitch x session
    match session with
    | none => m
    | some s => if m.session.started s then m.sessionDeviceResumeAll env s else m

/-- The first session of the seat, other than a closing one, that has the
    position. -/
def seatFindPosition (m : Manager) (x : Ref) (pos : Nat) : Option Ref :=
  (m.seat.sessions x).find? fun i =>
    m.session.position i = pos && m.sessionGetState i != .closing

/-- `seat_evict_position` -/
def seatEvictPosition (m : Manager) (x s : Ref) : Manager :=
  let pos := m.session.position s
  let m := m.sessionPutPosition s 0
  if pos = 0 then m
  else if (m.seat.positions x)[pos]? = some (some s) then
    m.seatPutPositions x ((m.seat.positions x).set pos (m.seatFindPosition x pos))
  else m

/-- `GREEDY_REALLOC0` on the positions: new elements are null. -/
def growPositions (env : Env) (positions : List (Option Ref)) (need : Nat) :
    Option (List (Option Ref)) :=
  if positions ≠ [] ∧ need ≤ positions.length then some positions
  else
    match env.growPositions with
    | none => none
    | some slack =>
      let size := max (2 * need) 8 + slack
      some (positions ++ List.replicate (size - positions.length) none)

/-- With VTs, the position of a session is its VT. -/
def claimedPosition (m : Manager) (x s : Ref) (pos : Nat) : Nat :=
  if m.seatHasVts x then m.session.vtnr s else pos

/-- `seat_claim_position`.  The sum `pos + 1` is one of unsigned 32-bit numbers,
    and a position beyond the array is not stored. -/
def seatClaimPosition (env : Env) (m : Manager) (x s : Ref) (pos : Nat) : Manager :=
  let pos := m.claimedPosition x s pos
  match growPositions env (m.seat.positions x) ((pos + 1) % 2 ^ 32) with
  | none => m
  | some positions =>
    let m := ((m.seatPutPositions x positions).seatEvictPosition x s).sessionPutPosition s pos
    if pos > 0 then m.seatPutPositions x ((m.seat.positions x).set pos (some s)) else m

/-- The first position from 1 on that is free. -/
def seatFreePosition (m : Manager) (x : Ref) : Nat :=
  1 + (m.seat.positions x).tail.findIdx Option.isNone

/-- `seat_assign_position` -/
def seatAssignPosition (env : Env) (m : Manager) (x s : Ref) : Manager :=
  if m.session.position s > 0 then m
  else m.seatClaimPosition env x s (m.seatFreePosition x)

/-- `seat_attach_session`, for a session without a seat. -/
def seatAttachSession (env : Env) (m : Manager) (x s : Ref) : Manager × Result Unit :=
  if (!m.seatHasVts x) != (m.session.vtnr s == 0) then (m, .error EINVAL)
  else
    let m := (m.seatLinkSession x s).seatAssignPosition env x s
    let m := if m.seatHasVts x then m else m.seatSetActive env x (some s)
    (m, .ok ())

/-- `seat_active_vt_changed` -/
def seatActiveVtChanged (env : Env) (m : Manager) (x : Ref) (vtnr : Nat) : Manager :=
  if !m.seatHasVts x then m
  else
    let running := (m.seat.sessions x).find? fun i =>
      m.session.vtnr i = vtnr && !m.session.stopping i
    let newActive := running <|> (m.seat.sessions x).find? fun i => m.session.vtnr i = vtnr
    m.seatSetActive env x newActive

/-- `seat_read_active_vt` -/
def seatReadActiveVt (env : Env) (m : Manager) (x : Ref) : Manager :=
  if !m.seatHasVts x then m
  else
    match env.activeVt with
    | none => m
    | some vtnr => m.seatActiveVtChanged env x vtnr

/-- `seat_start` -/
def seatStart (env : Env) (m : Manager) (x : Ref) : Manager :=
  if m.seat.started x then m
  else (m.seatReadActiveVt env x).seatPutStarted x true

/-- `seat_may_gc` -/
def seatMayGc (m : Manager) (x : Ref) (dropNotStarted : Bool) : Bool :=
  if dropNotStarted && !m.seat.started x then true
  else if m.seat0 = some x then false
  else !m.seatHasMasterDevice x

end Manager

end Elogind
