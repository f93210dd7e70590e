/-
  Elogind.Varlink.Server

  Varlink servers and the connections to them (sd-varlink.c): who may connect, how connections are counted,
  and how that is undone when they are closed.  What the functions ask outside is in the arguments of a new
  connection.  A failed assertion has no result.
-/

import Elogind.Basic.ParseUtil
import Elogind.Lib.Run

namespace Elogind

open Lib Errno

/-! ## Servers and connections -/

/-- What the server knows of a connection that is linked to it, and whose process is at the other end. -/
structure VarlinkPeer where
  ucredAcquired : Bool
  /-- `ucred.uid`, if it was acquired. -/
  ucred : UInt32
  /-- The user of the process at the other end. -/
  peer : UInt32
  deriving DecidableEq, Repr

/-- `struct sd_varlink_server`, with the connections that are linked to it. -/
structure VarlinkServer where
  rootOnly : Bool
  myselfOnly : Bool
  accountUid : Bool
  nConnections : UInt32
  /-- The hash table from users to counts, where there is one: zero where there is no entry. -/
  byUid : Option (UInt32 → UInt32)
  connectionsMax : UInt32
  connectionsPerUidMax : UInt32
  /-- Whether there is an event loop. -/
  event : Bool
  connections : List VarlinkPeer

/-- The arguments of `sd_varlink_server_add_connection_pair`, and how what it calls ends. -/
structure NewConnection where
  /-- Whether both descriptors are the same. -/
  oneFd : Bool
  overrideUcred : Option UInt32
  /-- The user of the process at the other end of the socket. -/
  socketPeer : UInt32
  getpeercred : Option Errno
  varlinkNew : Option Errno
  hashmapEnsureAllocated : Option Errno
  hashmapReplace : Option Errno
  attachEvent : Option Errno
  deriving DecidableEq, Repr

/-- The user of the process at the other end, as far as the caller knows. -/
def NewConnection.peer (a : NewConnection) : UInt32 := a.overrideUcred.getD a.socketPeer

/-! ## New connections -/

namespace VarlinkServer

/-- `PTR_TO_UINT(hashmap_get(server->by_uid, UID_TO_PTR(uid)))` -/
def countOf (s : VarlinkServer) (uid : UInt32) : UInt32 := s.byUid.elim 0 fun m => m uid

/-- The value of `allowed` in `validate_connection`, where none is -1. -/
def allowed (s : VarlinkServer) (myself uid : UInt32) : Option Bool :=
  let allowed := if s.rootOnly then some (uid = 0 : Bool) else none
  if s.myselfOnly then some (allowed = some true ∨ uid = myself : Bool) else allowed

/-- `validate_connection` -/
def validateConnection (s : VarlinkServer) (myself uid : UInt32) : Bool :=
  if s.allowed myself uid = some false then false
  else if s.nConnections ≥ s.connectionsMax then false
  else if s.accountUid then uidIsValid uid.toNat && s.countOf uid < s.connectionsPerUidMax
  else true

/-- `count_connection` -/
def countConnection (s : VarlinkServer) (a : NewConnection) (uid : UInt32) : Option (VarlinkServer × Result Unit) :=
  let s := { s with nConnections := s.nConnections + 1 }
  if s.accountUid then
    if uidIsValid uid.toNat then
      match a.hashmapEnsureAllocated with
      | some er => some (s, .error er)
      | none =>
        let s := { s with byUid := some (s.byUid.getD fun _ => 0) }
        let c := s.countOf uid
        match a.hashmapReplace with
        | some er => some (s, .error er)
        | none => some ({ s with byUid := s.byUid.map fun m => Function.update m uid (c + 1) }, .ok ())
    else none
  else some (s, .ok ())

/-- `varlink_detach_server` for a connection that is linked to the server. -/
def detachServer (s : VarlinkServer) (v : VarlinkPeer) : Option VarlinkServer :=
  let s' : Option VarlinkServer :=
    if s.byUid.isSome && v.ucredAcquired && uidIsValid v.ucred.toNat then
      let c := s.countOf v.ucred
      if c > 0 then some { s with byUid := s.byUid.map fun m => Function.update m v.ucred (c - 1) } else none
    else some s
  s'.bind fun s =>
    if s.nConnections > 0 then
      some { s with nConnections := s.nConnections - 1, connections := s.connections.erase v }
    else none

/-- The credentials of the peer, and whether they were acquired, after validation. -/
def acquireUcred (s : VarlinkServer) (myself : UInt32) (a : NewConnection) : Result (UInt32 × Bool) :=
  if s.rootOnly || s.accountUid then
    let ucred : Result UInt32 :=
      match a.overrideUcred with
      | some uid => .ok uid
      | none =>
        if !a.oneFd then .error EOPNOTSUPP
        else
          match a.getpeercred with
          | some er => .error er
          | none => .ok a.socketPeer
    match ucred with
    | .error er => .error er
    | .ok uid => if s.validateConnection myself uid then .ok (uid, true) else .error EPERM
  else .ok (UInt32.ofNat (2 ^ 32 - 1), false)

/-- `sd_varlink_server_add_connection_pair` -/
def addConnectionPair (s : VarlinkServer) (myself : UInt32) (a : NewConnection) :
    Option (VarlinkServer × Result Unit) :=
  match s.acquireUcred myself a with
  | .error er => some (s, .error er)
  | .ok (uid, ucredAcquired) =>
    match a.varlinkNew with
    | some er => some (s, .error er)
    | none =>
      (s.countConnection a uid).bind fun
        | (s, .error er) => some (s, .error er)
        | (s, .ok ()) =>
          let v : VarlinkPeer := ⟨ucredAcquired, uid, a.peer⟩
          let s := { s with connections := v :: s.connections }
          match (if s.event then a.attachEvent else none) with
          | some er => (s.detachServer v).map fun s => (s, .error er)
          | none => some (s, .ok ())

/-! ## Runs -/

end VarlinkServer

/-- What happens to a server. -/
inductive ServerStep where
  | add (a : NewConnection)
  | close (v : VarlinkPeer)
  deriving DecidableEq, Repr

namespace VarlinkServer

/-- `sd_varlink_close` of a linked connection, or a new connection. -/
def serverStep (myself : UInt32) (s : VarlinkServer) : ServerStep → Option VarlinkServer
  | .add a => (s.addConnectionPair myself a).map Prod.fst
  | .close v => if v ∈ s.connections then s.detachServer v else some s

/-- A server without connections. -/
structure IsNew (s : VarlinkServer) : Prop where
  count : s.nConnections = 0
  noUid : s.byUid = none
  noConnection : s.connections = []

/-- The linked connections whose peer is this user. -/
def ofPeer (s : VarlinkServer) (uid : UInt32) : List VarlinkPeer := s.connections.filter fun v => v.peer = uid

/-- Connections are counted, and not more of them are linked than may be, nor others than those of the users
    who may connect. -/
structure Accounted (myself : UInt32) (s : VarlinkServer) : Prop where
  count : s.nConnections.toNat = s.connections.length
  max : s.connections.length ≤ s.connectionsMax.toNat
  byUid : s.accountUid = true → ∀ uid, (s.countOf uid).toNat = (s.ofPeer uid).length
  perUidMax : s.accountUid = true → ∀ uid, (s.ofPeer uid).length ≤ s.connectionsPerUidMax.toNat
  access : s.rootOnly = true ∨ s.myselfOnly = true →
    ∀ v ∈ s.connections, s.rootOnly = true ∧ v.peer = 0 ∨ s.myselfOnly = true ∧ v.peer = myself

end VarlinkServer

end Elogind
