/-
  Elogind.Shared.Polkit

  Asking polkit before a method call is served (bus-polkit.c).

  A handler that has to ask polkit interrupts the processing of its call.  What
  polkit answers is kept in a query, which is found again by the address of the
  call when the call is dispatched a second time, and is dropped when the event
  loop is idle.

  Calls are given by an identity, which is never used again, and by the address
  of their message, which can be used again once nobody holds the message.
-/

import Elogind.Lib.Run
import Elogind.Login.State

namespace Elogind

/-! ## Data -/

/-- `AsyncPolkitQueryAction`; details that are NULL are the empty list. -/
structure PolkitAction where
  action : Bytes
  details : List Bytes
  deriving DecidableEq, Repr

/-- A method call that is being served. -/
structure BusCall where
  id : Nat
  addr : Nat
  sender : Bytes
  deriving DecidableEq, Repr

/-- A call of `CheckAuthorization`: the name of the one who is to be authorized, the
    action with its details in pairs, and the flags. -/
structure PolkitCall where
  subject : Bytes
  action : Bytes
  details : List (Bytes × Bytes)
  flags : Nat
  deriving DecidableEq, Repr

/-- `AsyncPolkitQuery`.  `slot` holds the polkit call that is outstanding, `registered`
    says that `registry` is set, `deferSource` that there is a `defer_event_source`
    and `deferEnabled` that it will run when the loop is idle.  `error` is
    `error_action` with the code of the error that was kept for it. -/
structure AsyncPolkitQuery where
  nRef : Nat := 1
  request : BusCall
  action : Option PolkitAction := none
  slot : Option PolkitCall := none
  registered : Bool := false
  deferSource : Bool := false
  deferEnabled : Bool := false
  authorized : List PolkitAction := []
  denied : Option PolkitAction := none
  absent : Option PolkitAction := none
  error : Option (PolkitAction × Errno) := none
  deriving DecidableEq, Repr

/-- What `bus_verify_polkit_async_full` is asked, and what it finds on its way. -/
structure PolkitAsk where
  action : Bytes
  details : List Bytes := []
  /-- `none` is `UID_INVALID`. -/
  goodUser : Option Nat := none
  allowInteractive : Bool := false
  alwaysQuery : Bool := false
  defaultAllow : Bool := false
  /-- `sd_bus_query_sender_creds`: whether the euid is augmented, and the euid -/
  creds : Result (Bool × Result Nat) := .ok (false, .ok 0)
  /-- `sd_bus_query_sender_privilege` -/
  privilege : Result Bool := .ok false
  /-- `sd_bus_message_get_allow_interactive_authorization` -/
  interactive : Result Bool := .ok false
  /-- `bus_message_new_polkit_auth_call_for_bus` -/
  newCall : Result Unit := .ok ()
  queryAllocated : Bool := true
  actionAllocated : Bool := true
  stringsAllocated : Bool := true
  /-- `hashmap_ensure_put` -/
  put : Result Unit := .ok ()
  /-- `sd_bus_call_async` -/
  callAsync : Result Unit := .ok ()

/-- A reply of polkit, or what stands for it when there is none: an error with its
    code, and whether it can be copied; a result that cannot be read; or a result. -/
inductive PolkitReply where
  | error (name : String) (code : Errno) (copied : Bool)
  | unreadable (e : Errno)
  | result (authorized challenge : Bool)
  deriving DecidableEq, Repr

/-- What `async_polkit_process_reply` finds on its way. -/
structure PolkitReplyEnv where
  addDefer : Result Unit := .ok ()
  setPriority : Result Unit := .ok ()
  setEnabled : Result Unit := .ok ()
  rewind : Result Unit := .ok ()
  enqueue : Result Unit := .ok ()

/-- All that is left to do after a reply was read succeeds. -/
structure PolkitReplyEnv.Ready (env : PolkitReplyEnv) : Prop where
  setEnabled : env.setEnabled = .ok ()
  rewind : env.rewind = .ok ()
  enqueue : env.enqueue = .ok ()

/-- What has happened, as far as authorization is concerned. -/
inductive PolkitEvent where
  /-- Polkit has answered a query that was made for a call. -/
  | answered (c : BusCall) (pk : PolkitCall) (reply : PolkitReply)
  /-- `bus_verify_polkit_async_full` has returned. -/
  | returned (c : BusCall) (k : PolkitAsk) (r : Int)

/-- The queries and the calls of a daemon.  `registry` is the hashmap of queries by
    the addresses of calls, `queue` holds the calls that are yet to be dispatched, and
    `history` what has happened, the latest first. -/
structure Polkit where
  registry : Nat → Option Ref := fun _ => none
  query : Ref → Option AsyncPolkitQuery := fun _ => none
  next : Ref := 0
  queue : List BusCall := []
  nextCall : Nat := 0
  history : List PolkitEvent := []

/-! ## What is asked -/

namespace PolkitAsk

/-- `bus_message_check_good_user` -/
def checkGoodUser (k : PolkitAsk) : Int :=
  match k.goodUser with
  | none => 0
  | some uid =>
    match k.creds with
    | .error e => e.neg
    | .ok (true, _) => Errno.EPERM.neg
    | .ok (false, .error e) => e.neg
    | .ok (false, .ok euid) => if euid = uid then 1 else 0

/-- The sender has the user id of the good user, and the credential is not augmented. -/
def IsGoodUser (k : PolkitAsk) : Prop := ∃ uid, k.goodUser = some uid ∧ k.creds = .ok (false, .ok uid)

/-- The client is not asked for if it is privileged. -/
def checkPrivilege (k : PolkitAsk) : Int :=
  if k.alwaysQuery then 0
  else
    match k.privilege with
    | .error e => e.neg
    | .ok true => 1
    | .ok false => 0

/-- The action that is asked for. -/
def what (k : PolkitAsk) : PolkitAction := { action := k.action, details := k.details }

/-- `STRV_FOREACH_PAIR` -/
def strvPairs : List Bytes → List (Bytes × Bytes)
  | k :: v :: l => (k, v) :: strvPairs l
  | _ => []

/-- `bus_message_new_polkit_auth_call_for_bus` -/
def polkitCall (k : PolkitAsk) (c : BusCall) : PolkitCall where
  subject := c.sender
  action := k.action
  details := strvPairs k.details
  flags :=
    (if k.allowInteractive || k.interactive.toOption.getD false then 1 else 0) +
      (if k.alwaysQuery then 2 else 0)

/-- The message to polkit is made. -/
def checkCall (k : PolkitAsk) : Int :=
  match k.interactive with
  | .error e => e.neg
  | .ok _ =>
    match k.newCall with
    | .error e => e.neg
    | .ok () => 0

end PolkitAsk

/-- `async_polkit_query_check_action` -/
def AsyncPolkitQuery.checkAction (v : AsyncPolkitQuery) (k : PolkitAsk) : Int :=
  if v.authorized.any fun a => a.action = k.action && a.details = k.details then 1
  else
    match v.error.filter fun e => e.1.action = k.action with
    | some (_, e) => e.neg
    | none =>
      if (v.denied.filter fun a => a.action = k.action).isSome then Errno.EACCES.neg
      else if v.absent.isSome then (if k.defaultAllow then 1 else Errno.EACCES.neg)
      else 0

/-- What is asked is allowed without another question to polkit. -/
def AsyncPolkitQuery.Passes (v : AsyncPolkitQuery) (k : PolkitAsk) : Prop :=
  k.checkGoodUser = 1 ∨ k.checkGoodUser = 0 ∧
    (v.checkAction k = 1 ∨ v.checkAction k = 0 ∧ k.checkPrivilege = 1)

/-- What is asked is put to polkit. -/
structure AsyncPolkitQuery.Asks (v : AsyncPolkitQuery) (k : PolkitAsk) : Prop where
  goodUser : k.checkGoodUser = 0
  action : v.checkAction k = 0
  privilege : k.checkPrivilege = 0
  call : k.checkCall = 0
  actionAllocated : k.actionAllocated = true
  stringsAllocated : k.stringsAllocated = true
  callAsync : k.callAsync = .ok ()

namespace Polkit

/-! ## Queries -/

def modify (s : Polkit) (q : Ref) (f : AsyncPolkitQuery → AsyncPolkitQuery) : Polkit :=
  { s with query := Function.update s.query q ((s.query q).map f) }

/-- `async_polkit_query_free` -/
def queryFree (s : Polkit) (q : Ref) (v : AsyncPolkitQuery) : Polkit :=
  { s with
    query := Function.update s.query q none
    registry :=
      if v.registered then Function.update s.registry v.request.addr none else s.registry }

/-- `async_polkit_query_ref` -/
def queryRef (s : Polkit) (q : Ref) : Polkit := s.modify q fun v => { v with nRef := v.nRef + 1 }

/-- `async_polkit_query_unref` -/
def queryUnref (s : Polkit) (q : Ref) : Polkit :=
  match s.query q with
  | none => s
  | some v => if v.nRef ≤ 1 then s.queryFree q v else s.modify q fun v => { v with nRef := v.nRef - 1 }

/-- A query with one reference. -/
def queryNew (s : Polkit) (c : BusCall) : Polkit × Ref :=
  ({ s with
      next := s.next + 1
      query := Function.update s.query s.next (some { request := c }) }, s.next)

/-- The query is put into the registry, unless it is there already. -/
def register (s : Polkit) (c : BusCall) (k : PolkitAsk) (q : Ref) (registered : Bool) :
    Result Polkit :=
  if registered then .ok s
  else
    match k.put with
    | .error e => .error e
    | .ok () =>
      .ok { s.modify q fun v => { v with registered := true } with
        registry := Function.update s.registry c.addr (some q) }

/-- The last part of `bus_verify_polkit_async_full`, in which polkit is asked.  One
    reference to the query is the function's own; `none` if an assertion fails. -/
def askPolkit (s : Polkit) (c : BusCall) (k : PolkitAsk) (q : Ref) : Option (Polkit × Int) :=
  match s.query q with
  | none => none
  | some v =>
    if v.action.isSome then none
    else if !k.actionAllocated then some (s.queryUnref q, Errno.ENOMEM.neg)
    else
      let s := s.modify q fun v => { v with action := some k.what }
      if !k.stringsAllocated then some (s.queryUnref q, Errno.ENOMEM.neg)
      else
        match s.register c k q v.registered with
        | .error e => some (s.queryUnref q, e.neg)
        | .ok s =>
          match k.callAsync with
          | .error e => some (s.queryUnref q, e.neg)
          -- the polkit call now holds the reference
          | .ok () => some (s.modify q fun v => { v with slot := some (k.polkitCall c) }, 0)

/-- `bus_verify_polkit_async_full` -/
def busVerifyPolkitAsyncFull (s : Polkit) (c : BusCall) (k : PolkitAsk) : Option (Polkit × Int) :=
  if k.checkGoodUser ≠ 0 then some (s, k.checkGoodUser)
  else
    match s.registry c.addr with
    | some q =>
      let s := s.queryRef q
      match s.query q with
      | none => none
      | some v =>
        if v.checkAction k ≠ 0 then some (s.queryUnref q, v.checkAction k)
        else if k.checkPrivilege ≠ 0 then some (s.queryUnref q, k.checkPrivilege)
        else if k.checkCall ≠ 0 then some (s.queryUnref q, k.checkCall)
        else s.askPolkit c k q
    | none =>
      if k.checkPrivilege ≠ 0 then some (s, k.checkPrivilege)
      else if k.checkCall ≠ 0 then some (s, k.checkCall)
      else if !k.queryAllocated then some (s, Errno.ENOMEM.neg)
      else (s.queryNew c).1.askPolkit c k (s.queryNew c).2

/-! ## Replies -/

/-- `bus_error_is_unknown_service` -/
def isUnknownService (name : String) : Bool :=
  name == "org.freedesktop.DBus.Error.ServiceUnknown" ||
    name == "org.freedesktop.DBus.Error.NameHasNoOwner" ||
    name == "org.freedesktop.systemd1.NoSuchUnit"

/-- Errors of polkit that count as denial. -/
def isDenial (name : String) : Bool :=
  name == "org.freedesktop.PolicyKit1.Error.Failed" ||
    name == "org.freedesktop.PolicyKit1.Error.Cancelled" ||
    name == "org.freedesktop.PolicyKit1.Error.NotAuthorized"

end Polkit

namespace PolkitReply

/-- Polkit has authorized the action. -/
def Authorizes : PolkitReply → Prop
  | result true _ => True
  | _ => False

/-- Polkit is not there. -/
def TellsAbsence : PolkitReply → Prop
  | error name _ _ => Polkit.isUnknownService name = true
  | _ => False

/-- The reply can be read, and what it says can be kept. -/
def Readable : PolkitReply → Prop
  | error name _ copied =>
    Polkit.isUnknownService name = true ∨ Polkit.isDenial name = true ∨ copied = true
  | unreadable _ => False
  | result _ _ => True

end PolkitReply

/-- `async_polkit_read_reply`; `none` if an assertion fails. -/
def AsyncPolkitQuery.readReply (v : AsyncPolkitQuery) (reply : PolkitReply) :
    Option (AsyncPolkitQuery × Int) :=
  if v.denied.isSome || v.absent.isSome || v.error.isSome then none
  else
    match v.action with
    | none => none
    | some a =>
      let v := { v with action := none }
      match reply with
      | .error name code copied =>
        if Polkit.isUnknownService name then some ({ v with absent := some a }, 0)
        else if Polkit.isDenial name then some ({ v with denied := some a }, 0)
        else if copied then some ({ v with error := some (a, code) }, 0)
        else some ({ v with error := some (a, .ENOMEM) }, Errno.ENOMEM.neg)
      | .unreadable e => some (v, e.neg)
      | .result authorized challenge =>
        if authorized then some ({ v with authorized := a :: v.authorized }, 0)
        else if challenge then some ({ v with error := some (a, .EACCES) }, 0)
        else some ({ v with denied := some a }, 0)

/-- The rest of `async_polkit_process_reply`: the clean-up is put off until the loop is
    idle, and the call is made ready to be dispatched again. -/
def AsyncPolkitQuery.deferCleanup (v : AsyncPolkitQuery) (env : PolkitReplyEnv) :
    AsyncPolkitQuery × Int :=
  match (if v.deferSource then .ok () else env.addDefer : Result Unit) with
  | .error e => (v, e.neg)
  | .ok () =>
    -- a new source is enabled already
    let w := { v with deferSource := true, deferEnabled := v.deferEnabled || !v.deferSource }
    match (if v.deferSource then .ok () else env.setPriority : Result Unit) with
    | .error e => (w, e.neg)
    | .ok () =>
      match env.setEnabled with
      | .error e => (w, e.neg)
      | .ok () =>
        let w := { w with deferEnabled := true }
        match env.rewind, env.enqueue with
        | .error e, _ => (w, e.neg)
        | .ok (), .error e => (w, e.neg)
        | .ok (), .ok () => (w, 1)

namespace Polkit

/-- `async_polkit_process_reply` -/
def processReply (s : Polkit) (q : Ref) (v : AsyncPolkitQuery) (env : PolkitReplyEnv)
    (reply : PolkitReply) : Option (Polkit × Int) :=
  if v.slot.isNone then none
  else
    match ({ v with slot := none }).readReply reply with
    | none => none
    | some (v, r) =>
      if r < 0 then some ({ s with query := Function.update s.query q (some v) }, r)
      else
        let (v, r) := v.deferCleanup env
        some ({ s with
          query := Function.update s.query q (some v)
          queue := if r < 0 then s.queue else s.queue ++ [v.request] }, r)

/-- `async_polkit_callback` -/
def asyncPolkitCallback (s : Polkit) (q : Ref) (v : AsyncPolkitQuery) (env : PolkitReplyEnv)
    (reply : PolkitReply) : Option Polkit :=
  match s.processReply q v env reply with
  | none => none
  | some (s, r) => some (if r < 0 then s.queryUnref q else s)

/-- `async_polkit_defer`, an event source that runs once each time it is enabled -/
def asyncPolkitDefer (s : Polkit) (q : Ref) : Polkit :=
  (s.modify q fun v => { v with deferEnabled := false }).queryUnref q

/-! ## Steps -/

/-- A handler asks for one action after the other, and stops at the first answer other
    than 1. -/
def handle (s : Polkit) (c : BusCall) : List PolkitAsk → Option Polkit
  | [] => some s
  | k :: ks =>
    match s.busVerifyPolkitAsyncFull c k with
    | none => none
    | some (s, r) =>
      let s := { s with history := .returned c k r :: s.history }
      if r = 1 then s.handle c ks else some s

inductive Op where
  /-- A message comes in and is put at an address. -/
  | arrive (addr : Nat) (sender : Bytes)
  /-- The handler of a call runs, for the first time or again. -/
  | dispatch (c : BusCall) (asks : List PolkitAsk)
  /-- The polkit call of a query is over. -/
  | reply (q : Ref) (env : PolkitReplyEnv) (r : PolkitReply)
  /-- The event loop is idle. -/
  | idle (q : Ref)

/-- Somebody has a reference to the message of a call: it is queued, or there is a query
    for it. -/
def Held (s : Polkit) (c : BusCall) : Prop :=
  c ∈ s.queue ∨ ∃ q v, s.query q = some v ∧ v.request = c

/-- What can happen. -/
def Enabled (s : Polkit) : Op → Prop
  | .arrive addr _ => ∀ c, s.Held c → c.addr ≠ addr
  | .dispatch c _ => c ∈ s.queue
  | .reply q _ _ => ∃ v pk, s.query q = some v ∧ v.slot = some pk
  | .idle q => ∃ v, s.query q = some v ∧ v.deferEnabled = true

/-- `none` if an assertion fails. -/
def step (s : Polkit) : Op → Option Polkit
  | .arrive addr sender =>
    some { s with
      queue := s.queue ++ [{ id := s.nextCall, addr := addr, sender := sender }]
      nextCall := s.nextCall + 1 }
  | .dispatch c asks => { s with queue := s.queue.erase c }.handle c asks
  | .reply q env r =>
    match s.query q with
    | none => none
    | some v =>
      match v.slot with
      | none => none
      | some pk => { s with history := .answered v.request pk r :: s.history }.asyncPolkitCallback q v env r
  | .idle q => some (s.asyncPolkitDefer q)

/-- Steps that happen and come to their end. -/
def Step (s : Polkit) (op : Op) (s' : Polkit) : Prop := s.Enabled op ∧ s.step op = some s'

end Polkit

end Elogind
