/-
  Elogind.Login.Teardown

  Stopping and freeing seats and users together with their sessions
  (logind-seat.c, logind-user.c), and the garbage collector (logind.c).
-/

import Elogind.Login.Session

namespace Elogind

open Function

namespace Manager

/-! ## Seats -/

/-- `seat_stop_sessions` -/
def seatStopSessions (m : Manager) (x : Ref) : Manager :=
  (m.seat.sessions x).foldl sessionStop m

/-- `seat_stop` -/
def seatStop (m : Manager) (x : Ref) : Manager :=
  ((m.seatStopSessions x).seatAddToGcQueue x).seatPutStarted x false

/-- `LIST_REMOVE` on the queue of seats, which leaves the flag of the seat. -/
def seatUnqueue (m : Manager) (x : Ref) : Manager :=
  { m with seatGcQueue := m.seatGcQueue.erase x }

/-- The memory of a seat is given back. -/
def freeSeat (m : Manager) (x : Ref) : Manager :=
  { m with
    seats := m.seats.erase x
    seat.live := update m.seat.live x false
    seat.id := update m.seat.id x []
    seat.positions := update m.seat.positions x []
    seat.started := update m.seat.started x false
    seat.inGcQueue := update m.seat.inGcQueue x false }

/-- `seat_free` -/
def seatFree (env : Env) (m : Manager) (x : Ref) : Manager :=
  let m := if m.seat.inGcQueue x then m.seatUnqueue x else m
  let m := (m.seat.sessions x).foldl (sessionFree env) m
  let m := (m.seat.devices x).foldl deviceFree m
  m.freeSeat x

/-! ## Users -/

/-- `user_stop` -/
def userStop (m : Manager) (u : Ref) : Manager :=
  if !m.user.started u || m.user.stopping u then m
  else (((m.user.sessions u).foldl sessionStop m).userAddToGcQueue u).userPutStopping u true

/-- `user_finalize` -/
def userFinalize (env : Env) (m : Manager) (u : Ref) : Manager :=
  (((m.user.sessions u).foldl (sessionFinalize env) m).userAddToGcQueue u).userPutStarted u false

/-- A user leaves the queue of the garbage collector. -/
def userDequeue (m : Manager) (u : Ref) : Manager :=
  { m with
    userGcQueue := m.userGcQueue.erase u
    user.inGcQueue := update m.user.inGcQueue u false }

/-- The memory of a user is given back. -/
def freeUser (m : Manager) (u : Ref) : Manager :=
  { m with
    users := m.users.erase u
    user.live := update m.user.live u false
    user.uid := update m.user.uid u 0
    user.started := update m.user.started u false
    user.stopping := update m.user.stopping u false
    user.gcMode := update m.user.gcMode u .byAny
    user.lastSession := update m.user.lastSession u none
    user.timer := update m.user.timer u false }

/-- `user_free` -/
def userFree (env : Env) (m : Manager) (u : Ref) : Manager :=
  let m := if m.user.inGcQueue u then m.userDequeue u else m
  let m := (m.user.sessions u).foldl (sessionFree env) m
  m.freeUser u

/-! ## The garbage collector -/

/-- What `manager_gc` does with a seat from the queue. -/
def gcSeat (env : Env) (m : Manager) (x : Ref) (dropNotStarted : Bool) : Manager :=
  if m.seatMayGc x dropNotStarted then (m.seatStop x).seatFree env x else m

/-- What `manager_gc` does with a session from the queue.  It asks twice whether
    the session may go, and the answers of the system may have changed. -/
def gcSession (env env' : Env) (m : Manager) (s : Ref) (dropNotStarted : Bool) : Manager :=
  let m :=
    if m.sessionMayGc env s dropNotStarted && m.sessionGetState s != .closing then m.sessionStop s
    else m
  if m.sessionMayGc env' s dropNotStarted then (m.sessionFinalize env' s).sessionFree env' s else m

/-- What `manager_gc` does with a user from the queue, which is also asked for
    twice. -/
def gcUser (env env' : Env) (m : Manager) (u : Ref) (dropNotStarted : Bool) : Manager :=
  let m := if m.userMayGc env u dropNotStarted then m.userStop u else m
  if m.userMayGc env' u dropNotStarted then (m.userFinalize env' u).userFree env' u else m

/-- `LIST_POP` on the queue of seats, and the flag. -/
def seatPop (m : Manager) (x : Ref) (rest : List Ref) : Manager :=
  { m with seatGcQueue := rest, seat.inGcQueue := update m.seat.inGcQueue x false }

def sessionPop (m : Manager) (s : Ref) (rest : List Ref) : Manager :=
  { m with sessionGcQueue := rest, session.inGcQueue := update m.session.inGcQueue s false }

def userPop (m : Manager) (u : Ref) (rest : List Ref) : Manager :=
  { m with userGcQueue := rest, user.inGcQueue := update m.user.inGcQueue u false }

/-- The first loop of `manager_gc`, for at most so many rounds.  The answers of the
    system may be others in every round. -/
def gcSeats (env : Nat → Env) (dropNotStarted : Bool) : Nat → Manager → Manager
  | 0, m => m
  | n + 1, m =>
    match m.seatGcQueue with
    | [] => m
    | x :: rest => ((m.seatPop x rest).gcSeat (env n) x dropNotStarted).gcSeats env dropNotStarted n

/-- The second loop of `manager_gc`. -/
def gcSessions (env : Nat → Env) (dropNotStarted : Bool) : Nat → Manager → Manager
  | 0, m => m
  | n + 1, m =>
    match m.sessionGcQueue with
    | [] => m
    | s :: rest =>
      gcSessions env dropNotStarted n
        ((m.sessionPop s rest).gcSession (env (2 * n + 1)) (env (2 * n)) s dropNotStarted)

/-- The third loop of `manager_gc`. -/
def gcUsers (env : Nat → Env) (dropNotStarted : Bool) : Nat → Manager → Manager
  | 0, m => m
  | n + 1, m =>
    match m.userGcQueue with
    | [] => m
    | u :: rest =>
      gcUsers env dropNotStarted n
        ((m.userPop u rest).gcUser (env (2 * n + 1)) (env (2 * n)) u dropNotStarted)

/-- The answers of the system during the three loops of `manager_gc`. -/
structure GcEnv where
  seats : Nat → Env
  sessions : Nat → Env
  users : Nat → Env

/-- `manager_gc`.  No round of the first two loops puts an object into their
    queues that stays there, and a round of the third at most the user it has
    taken out, once: so many rounds empty the queues. -/
def managerGc (env : GcEnv) (dropNotStarted : Bool) (m : Manager) : Manager :=
  let m := gcSeats env.seats dropNotStarted m.seatGcQueue.length m
  let m := gcSessions env.sessions dropNotStarted m.sessionGcQueue.length m
  gcUsers env.users dropNotStarted (2 * m.userGcQueue.length) m

end Manager

end Elogind
