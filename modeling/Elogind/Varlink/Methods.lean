/-
  Elogind.Varlink.Methods

  The server's side of a connection (sd-varlink.c): how method calls are dispatched and answered.  What the
  implementation of a method does is any sequence of the functions for it, and so is what is done later with a
  call that was left unanswered.  A failed assertion has no result.
-/

import Elogind.Varlink.Calls

namespace Elogind

open Lib Errno

def Errno.EBADE : Errno := ⟨52, by decide⟩
def Errno.EBADR : Errno := ⟨53, by decide⟩
def Errno.ENOTTY : Errno := ⟨25, by decide⟩
def Errno.EADDRNOTAVAIL : Errno := ⟨99, by decide⟩
def Errno.ETIMEDOUT : Errno := ⟨110, by decide⟩

/-! ## Errors -/

/-- `SD_VARLINK_ERROR_EXPECTED_MORE` and the others. -/
def varlinkErrorExpectedMore : Bytes := ascii "org.varlink.service.ExpectedMore"
def varlinkErrorInvalidParameter : Bytes := ascii "org.varlink.service.InvalidParameter"
def varlinkErrorMethodNotFound : Bytes := ascii "org.varlink.service.MethodNotFound"
def varlinkErrorSystem : Bytes := ascii "io.systemd.System"

/-- The table of `sd_varlink_error_to_errno`. -/
def varlinkErrors : List (Bytes × Errno) :=
  [(ascii "io.systemd.Disconnected", ECONNRESET), (ascii "io.systemd.TimedOut", ETIMEDOUT),
    (ascii "io.systemd.Protocol", EPROTO), (ascii "org.varlink.service.InterfaceNotFound", EADDRNOTAVAIL),
    (varlinkErrorMethodNotFound, ENXIO), (ascii "org.varlink.service.MethodNotImplemented", ENOTTY),
    (varlinkErrorInvalidParameter, EINVAL), (ascii "org.varlink.service.PermissionDenied", EACCES),
    (varlinkErrorExpectedMore, EBADE)]

/-- `sd_varlink_error_to_errno`, without what is read from the parameters of a system error. -/
def sdVarlinkErrorToErrno (error : Bytes) : Errno :=
  ((varlinkErrors.find? fun e => e.1 = error).map Prod.snd).getD EBADR

/-! ## Calls -/

/-- What is read from the message of a method call. -/
structure MethodFields (R : Type) where
  method : Option Bytes
  parameters : Option (Json R)
  oneway : Bool
  more : Bool

/-- The loop of `varlink_dispatch_method` over the fields of a message: none where the message is invalid. -/
def methodFields {R : Type} (c : MethodFields R) : List (Bytes × Json R) → Option (MethodFields R)
  | [] => some c
  | (k, e) :: fields =>
    if k = ascii "method" then
      if c.method.isSome then none
      else
        match e.asString with
        | none => none
        | some method => methodFields { c with method := some method } fields
    else if k = ascii "parameters" then
      if c.parameters.isSome then none
      else if e.isParameters then methodFields { c with parameters := some e } fields
      else none
    else if k = ascii "oneway" then
      if c.oneway || c.more then none
      else
        match e.asBoolean with
        | none => none
        | some b => methodFields { c with oneway := b } fields
    else if k = ascii "more" then
      if c.oneway || c.more then none
      else
        match e.asBoolean with
        | none => none
        | some b => methodFields { c with more := b } fields
    else none

/-- The method, the parameters and the kind of call that a message is. -/
def methodCallOf {R : Type} : Json R → Option (Bytes × Option (Json R) × VarlinkMessage)
  | .object fields =>
    match methodFields ⟨none, none, false, false⟩ fields with
    | some ⟨some method, parameters, oneway, more⟩ =>
      some (method, parameters, if more then .more else if oneway then .oneway else .call)
    | _ => none
  | _ => none

/-- The methods of a server. -/
structure VarlinkMethods (R : Type) where
  /-- Whether there is a callback for the method of this name. -/
  hasCallback : Bytes → Bool
  /-- How `varlink_idl_validate_method_call` fails, and the field it names, where there is a symbol for the
      method and the call does not pass. -/
  validate : Bytes → Json R → VarlinkMessage → Option (Errno × Option Bytes)

/-- What is done with a call. -/
inductive ServerAction (R : Type) where
  | reply (parameters : Option (Json R)) (memory : MemoryAnswer)
  | notify (parameters : Option (Json R)) (memory : MemoryAnswer)
  | error (errorId : Bytes) (parameters : Option (Json R)) (memory : MemoryAnswer)
  /-- Whether the deferred event source could be enabled. -/
  | dispatchAgain (enabled : Option Errno)
  | pushFd (fd : Nat) (memory : MemoryAnswer)
  | close

/-- How the dispatching of a call goes: whether parameters are had, what the callback does and what it returns,
    and how memory is had for an error. -/
structure MethodAnswers (R : Type) where
  sanitize : Option Errno
  actions : List (ServerAction R)
  /-- The error that the callback returns. -/
  returns : Option Errno
  memory : MemoryAnswer
  /-- Whether the callback for replies closes the connection. -/
  closes : Bool

namespace Varlink

variable {R : Type} (format : Json R → Bytes)

/-- The states in which a call may be answered. -/
def answerable (s : VarlinkState) : Bool :=
  s = .processingMethod || s = .processingMethodMore || s = .pendingMethod || s = .pendingMethodMore

/-- The end of `sd_varlink_reply` and of `sd_varlink_error`, after the message was enqueued. -/
def answered (v : Varlink (Json R)) : Varlink (Json R) :=
  if v.state = .pendingMethod ∨ v.state = .pendingMethodMore then v.clearCurrent.setState .idleServer
  else v.setState .processedMethod

/-- `sd_varlink_reply` -/
def sdVarlinkReply (v : Varlink (Json R)) (parameters : Option (Json R)) (memory : MemoryAnswer) :
    Varlink (Json R) × Result Unit :=
  if v.state = .disconnected then (v, .error ENOTCONN)
  else if !answerable v.state then (v, .error EBUSY)
  else
    match varlinkSanitizeParameters parameters with
    | .error er => (v, .error er)
    | .ok parameters =>
      match v.enqueueJson format .reply (.object [(ascii "parameters", parameters)]) memory with
      | (v, .error er) => (v, .error er)
      | (v, .ok ()) => (v.answered, .ok ())

/-- `sd_varlink_error`, which always fails. -/
def sdVarlinkError (v : Varlink (Json R)) (errorId : Bytes) (parameters : Option (Json R)) (memory : MemoryAnswer) :
    Varlink (Json R) × Errno :=
  if v.state = .disconnected then (v, ENOTCONN)
  else if !answerable v.state then (v, EBUSY)
  else
    let v := { v with output := v.output.resetFds }
    match varlinkSanitizeParameters parameters with
    | .error er => (v, er)
    | .ok parameters =>
      match v.enqueueJson format .error
          (.object [(ascii "error", .ofString errorId), (ascii "parameters", parameters)]) memory with
      | (v, .error er) => (v, er)
      | (v, .ok ()) => (v.answered, sdVarlinkErrorToErrno errorId)

/-- `sd_varlink_notify` -/
def sdVarlinkNotify (v : Varlink (Json R)) (parameters : Option (Json R)) (memory : MemoryAnswer) :
    Varlink (Json R) × Result Unit :=
  if v.state = .disconnected then (v, .error ENOTCONN)
  else if v.state = .processingMethod ∨ v.state = .pendingMethod then
    match v.sdVarlinkError format varlinkErrorExpectedMore none memory with
    | (v, er) => (v, .error er)
  else if v.state ≠ .processingMethodMore ∧ v.state ≠ .pendingMethodMore then (v, .error EBUSY)
  else
    match varlinkSanitizeParameters parameters with
    | .error er => (v, .error er)
    | .ok parameters =>
      v.enqueueJson format .notification
        (.object [(ascii "parameters", parameters), (ascii "continues", .ofBoolean true)]) memory

/-- `sd_varlink_dispatch_again` -/
def sdVarlinkDispatchAgain (v : Varlink (Json R)) (enabled : Option Errno) : Varlink (Json R) × Result Unit :=
  if v.state = .disconnected then (v, .error ENOTCONN)
  else if v.state ≠ .pendingMethod ∧ v.state ≠ .pendingMethodMore then (v, .error EBUSY)
  else (v.setState .idleServer, enabled.elim (.ok ()) .error)

/-- One of the things that are done with a call. -/
def serverAction (v : Varlink (Json R)) : ServerAction R → Varlink (Json R)
  | .reply parameters memory => (v.sdVarlinkReply format parameters memory).1
  | .notify parameters memory => (v.sdVarlinkNotify format parameters memory).1
  | .error errorId parameters memory => (v.sdVarlinkError format errorId parameters memory).1
  | .dispatchAgain enabled => (v.sdVarlinkDispatchAgain enabled).1
  | .pushFd fd memory => (v.pushFd fd memory).1
  | .close => v.close

/-- `varlink_dispatch_method` from the label `fail` on. -/
def failMethod (v : Varlink (Json R)) (er : Errno) (closes : Bool) : Varlink (Json R) × Result Bool :=
  (((v.setState .processingFailure).dispatchLocalError closes).close, .error er)

/-- Send an error for the call, and fail if it is not answered by that. -/
def answerError (v : Varlink (Json R)) (errorId : Bytes) (parameters : Option (Json R)) (memory : MemoryAnswer)
    (closes : Bool) : Except (Varlink (Json R) × Result Bool) (Varlink (Json R)) :=
  match v.sdVarlinkError format errorId parameters memory with
  | (v, er) => if v.state.wantsReply then .error (v.failMethod er closes) else .ok v

/-- What `varlink_dispatch_method` does for a method that has a callback. -/
def callMethod (methods : VarlinkMethods R) (v : Varlink (Json R)) (method : Bytes) (parameters : Json R)
    (kind : VarlinkMessage) (a : MethodAnswers R) : Except (Varlink (Json R) × Result Bool) (Varlink (Json R)) :=
  match methods.validate method parameters kind with
  | some (er, badField) =>
    if er = EBADE then
      if v.state = .processingMethod then
        v.answerError format varlinkErrorExpectedMore none a.memory a.closes
      else .ok v
    else if v.state.wantsReply then
      v.answerError format varlinkErrorInvalidParameter
        (some (.object [(ascii "parameter", badField.elim (.scalar .null) .ofString)])) a.memory a.closes
    else .ok v
  | none =>
    let v := a.actions.foldl (serverAction format) v
    match a.returns with
    | some er =>
      if v.state.wantsReply then
        v.answerError format varlinkErrorSystem
          (some (.object [(ascii "errno", .scalar (.integer (Int64.ofNat er.val)))])) a.memory a.closes
      else .ok v
    | none => .ok v

/-- The switch at the end of `varlink_dispatch_method`. -/
def endMethod (v : Varlink (Json R)) : Option (Varlink (Json R)) :=
  match v.state with
  | .processedMethod | .processingMethodOneway => some (v.clearCurrent.setState .idleServer)
  | .processingMethod => some (v.setState .pendingMethod)
  | .processingMethodMore => some (v.setState .pendingMethodMore)
  | .disconnected => some v
  | _ => none

/-- The state in which a call of this kind is processed. -/
def processingState : VarlinkMessage → VarlinkState
  | .more => .processingMethodMore
  | .oneway => .processingMethodOneway
  | _ => .processingMethod

/-- What `varlink_dispatch_method` does for a method. -/
def runMethod (methods : VarlinkMethods R) (v : Varlink (Json R)) (method : Bytes) (parameters : Json R)
    (kind : VarlinkMessage) (a : MethodAnswers R) : Except (Varlink (Json R) × Result Bool) (Varlink (Json R)) :=
  if methods.hasCallback method then v.callMethod format methods method parameters kind a
  else if v.state.wantsReply then
    v.answerError format varlinkErrorMethodNotFound (some (.object [(ascii "method", .ofString method)])) a.memory
      a.closes
  else .ok v

/-- `varlink_dispatch_method` once it is clear what is called. -/
def dispatchCall (methods : VarlinkMethods R) (v : Varlink (Json R)) (method : Bytes) (parameters : Json R)
    (kind : VarlinkMessage) (a : MethodAnswers R) : Option (Varlink (Json R) × Result Bool) :=
  if !v.server then none
  else
    match v.runMethod format methods method parameters kind a with
    | .error x => some x
    | .ok v => v.endMethod.map fun v => (v, .ok true)

/-- A call that was received is processed. -/
def beginMethod (v : Varlink (Json R)) (kind : VarlinkMessage) : Varlink (Json R) :=
  { v with
    state := processingState kind
    history := v.history ++ [.dispatched v.input.handed.length kind] }

/-- `varlink_dispatch_method` -/
def dispatchMethod (methods : VarlinkMethods R) (v : Varlink (Json R)) (a : MethodAnswers R) :
    Option (Varlink (Json R) × Result Bool) :=
  if v.state ≠ .idleServer then some (v, .ok false)
  else
    match v.current with
    | none => some (v, .ok false)
    | some m =>
      match methodCallOf m with
      | none => some (v.failMethod EINVAL a.closes)
      | some (method, parameters, kind) =>
        match a.sanitize.elim (varlinkSanitizeParameters parameters) .error with
        | .error er => some (v.failMethod er a.closes)
        | .ok parameters => (v.beginMethod kind).dispatchCall format methods method parameters kind a

end Varlink

end Elogind
