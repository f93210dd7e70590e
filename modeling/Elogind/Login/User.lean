/-
  Elogind.Login.User

  Users (logind-user.c): whether sessions keep a user around, the timer that
  runs after the last of them, the election of the display, and starting a user.
  Stopping and freeing a user is in `Elogind.Login.Teardown`.
-/

import Elogind.Login.State

namespace Elogind

open Function Errno

/-- `type_ranks` of `elect_display_compare`; lower numbers are preferred. -/
def SessionType.rank : SessionType → Int
  | .unspecified => 0
  | .tty => -2
  | .x11 => -3
  | .wayland => -3
  | .mir => -3
  | .web => -1

namespace Manager

/-- `user_pinned_by_sessions` -/
def userPinnedBySessions (m : Manager) (u : Ref) : Bool :=
  match m.user.gcMode u with
  | .byAny => !(m.user.sessions u).isEmpty
  | .byPin => (m.user.sessions u).any fun i => (m.session.sessionClass i).pinsUser

/-- `user_update_last_session_timer` -/
def userUpdateLastSessionTimer (env : Env) (m : Manager) (u : Ref) : Manager :=
  if m.userPinnedBySessions u then m.userPutTimer u none false
  else if (m.user.lastSession u).isSome then m
  else
    match env.stopDelay u with
    | none | some 0 => m.userPutTimer u (some env.now) (m.user.timer u)
    | some _ => m.userPutTimer u (some env.now) env.addTimer

/-- `elect_display_filter` -/
def electDisplayFilter (m : Manager) (s : Ref) : Bool :=
  (m.session.sessionClass s).canDisplay && m.session.started s && !m.session.stopping s

/-- `elect_display_compare`, where a null pointer is the least preferred; every
    session has a valid type here. -/
def electDisplayCompare (m : Manager) : Option Ref → Option Ref → Int
  | none, none => 0
  | none, some _ => 1
  | some _, none => -1
  | some s₁, some s₂ =>
    let rank (b : Bool) : Int := if b then 1 else 0
    if m.session.stopping s₁ ≠ m.session.stopping s₂ then
      rank (m.session.stopping s₁) - rank (m.session.stopping s₂)
    else
      let notClass (c : SessionClass) (s : Ref) : Bool := m.session.sessionClass s ≠ c
      if notClass .user s₁ ≠ notClass .user s₂ then
        rank (notClass .user s₁) - rank (notClass .user s₂)
      else if notClass .userEarly s₁ ≠ notClass .userEarly s₂ then
        rank (notClass .userEarly s₁) - rank (notClass .userEarly s₂)
      else (m.session.type s₁).rank - (m.session.type s₂).rank

/-- One round of `user_elect_display`. -/
def electDisplay (u : Ref) (m : Manager) (s : Ref) : Manager :=
  if m.electDisplayFilter s && m.electDisplayCompare (some s) (m.user.display u) < 0 then
    m.userPutDisplay u s
  else m

/-- `user_elect_display` -/
def userElectDisplay (m : Manager) (u : Ref) : Manager :=
  (m.user.sessions u).foldl (electDisplay u) m

/-- `user_add_to_gc_queue` -/
def userAddToGcQueue (m : Manager) (u : Ref) : Manager :=
  if m.user.inGcQueue u then m
  else
    { m with
      userGcQueue := u :: m.userGcQueue
      user.inGcQueue := update m.user.inGcQueue u true }

/-- `hashmap_get` on the users of the manager. -/
def getUser (m : Manager) (uid : Nat) : Option Ref :=
  m.users.find? fun u => m.user.uid u = uid

/-- `user_new`, after its checks. -/
def userNew (m : Manager) (uid : Nat) : Manager × Ref :=
  ({ m with
      next := m.next + 1
      users := m.next :: m.users
      user.live := update m.user.live m.next true
      user.uid := update m.user.uid m.next uid }, m.next)

/-- `user_may_gc` -/
def userMayGc (env : Env) (m : Manager) (u : Ref) (dropNotStarted : Bool) : Bool :=
  if dropNotStarted && !m.user.started u then true
  else if m.userPinnedBySessions u then false
  else
    let wait :=
      match m.user.lastSession u with
      | none => false
      | some t =>
        match env.stopDelay u with
        | none => true
        | some delay => 0 < delay && env.now < t + delay
    if wait || env.linger u then false
    else dropNotStarted || m.user.stopping u

end Manager

end Elogind
