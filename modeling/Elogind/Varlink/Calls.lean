/-
  Elogind.Varlink.Calls

  The client's side of a connection (sd-varlink.c): how methods are called, and what is done with replies.  A
  call that waits for its reply is in progress until it returns; while it is, the connection is processed and
  nothing else happens to it.  A failed assertion has no result.
-/

import Elogind.Json.Variant
import Elogind.Varlink.Transport

namespace Elogind

open Lib Errno

/-- `VARLINK_COLLECT_MAX` -/
def varlinkCollectMax : Nat := 1024

/-! ## Messages -/

namespace Json

variable {R : Type}

/-- `sd_json_variant_by_key`: the value of the first field of this name. -/
def byKey (key : Bytes) : Json R → Option (Json R)
  | object fields => (fields.find? fun f => f.1 = key).map Prod.snd
  | _ => none

/-- `sd_json_variant_string`, where this is a string. -/
def asString : Json R → Option Bytes
  | scalar (.string s) => some s
  | _ => none

/-- `sd_json_variant_boolean`, where this is a boolean. -/
def asBoolean : Json R → Option Bool
  | scalar (.boolean b) => some b
  | _ => none

/-- Whether this is an object or null. -/
def isParameters : Json R → Bool
  | object _ => true
  | scalar .null => true
  | _ => false

/-- `SD_JSON_BUILD_STRING` -/
def ofString (s : Bytes) : Json R := scalar (.string s)

/-- `SD_JSON_BUILD_BOOLEAN` -/
def ofBoolean (b : Bool) : Json R := scalar (.boolean b)

end Json

/-- `varlink_sanitize_parameters` -/
def varlinkSanitizeParameters {R : Type} : Option (Json R) → Result (Json R)
  | none => .ok (.object [])
  | some (.scalar .null) => .ok (.object [])
  | some (.object fields) => .ok (.object fields)
  | some _ => .error EINVAL

/-- The loop of `varlink_dispatch_reply` over the fields of a message: none where the message is invalid. -/
def replyFields {R : Type} (r : VarlinkReply (Json R)) : List (Bytes × Json R) → Option (VarlinkReply (Json R))
  | [] => some r
  | (k, e) :: fields =>
    if k = ascii "error" then
      if r.error.isSome then none
      else
        match e.asString with
        | none => none
        | some error => replyFields { r with error := some error } fields
    else if k = ascii "parameters" then
      if r.parameters.isSome then none
      else if e.isParameters then replyFields { r with parameters := some e } fields
      else none
    else if k = ascii "continues" then
      if r.continues then none
      else
        match e.asBoolean with
        | none => none
        | some b => replyFields { r with continues := b } fields
    else none

/-- The reply that a message is. -/
def replyOf {R : Type} : Json R → Option (VarlinkReply (Json R))
  | .object fields => replyFields ⟨none, none, false⟩ fields
  | _ => none

/-- The kind of message that a reply is. -/
def VarlinkReply.kind {J : Type} (r : VarlinkReply J) : VarlinkMessage :=
  if r.continues then .notification else if r.error.isSome then .error else .reply

/-! ## Calling -/

namespace Varlink

variable {R : Type} (format : Json R → Bytes) (parse : Bytes → Result (Json R))

/-- The object that is sent to call a method, with one more field perhaps. -/
def callMessage (method : Bytes) (parameters : Json R) (flag : List (Bytes × Json R)) : Json R :=
  .object ((ascii "method", .ofString method) :: (ascii "parameters", parameters) :: flag)

/-- Enqueue a call in one of these states. -/
def enqueueCall (v : Varlink (Json R)) (states : List VarlinkState) (kind : VarlinkMessage) (method : Bytes)
    (parameters : Option (Json R)) (flag : List (Bytes × Json R)) (memory : MemoryAnswer) :
    Varlink (Json R) × Result Unit :=
  if v.state = .disconnected then (v, .error ENOTCONN)
  else if v.state ∉ states then (v, .error EBUSY)
  else
    match varlinkSanitizeParameters parameters with
    | .error er => (v, .error er)
    | .ok parameters => v.enqueueJson format kind (callMessage method parameters flag) memory

/-- `sd_varlink_send` -/
def sdVarlinkSend (v : Varlink (Json R)) (method : Bytes) (parameters : Option (Json R)) (memory : MemoryAnswer) :
    Varlink (Json R) × Result Unit :=
  v.enqueueCall format [.idleClient, .awaitingReply] .oneway method parameters [(ascii "oneway", .ofBoolean true)]
    memory

/-- The end of the functions that call a method and wait for a reply. -/
def await (x : Varlink (Json R) × Result Unit) (state : VarlinkState) : Varlink (Json R) × Result Unit :=
  match x with
  | (v, .error er) => (v, .error er)
  | (v, .ok ()) => ({ v with state := state, nPending := v.nPending + 1 }, .ok ())

/-- `sd_varlink_invoke` -/
def sdVarlinkInvoke (v : Varlink (Json R)) (method : Bytes) (parameters : Option (Json R)) (memory : MemoryAnswer) :
    Varlink (Json R) × Result Unit :=
  await (v.enqueueCall format [.idleClient, .awaitingReply] .call method parameters [] memory) .awaitingReply

/-- `sd_varlink_observe` -/
def sdVarlinkObserve (v : Varlink (Json R)) (method : Bytes) (parameters : Option (Json R)) (memory : MemoryAnswer) :
    Varlink (Json R) × Result Unit :=
  await (v.enqueueCall format [.idleClient] .more method parameters [(ascii "more", .ofBoolean true)] memory)
    .awaitingReplyMore

/-- `sd_varlink_call_full` and `sd_varlink_collect_full` up to their loops. -/
def beginCall (v : Varlink (Json R)) (kind : VarlinkMessage) (method : Bytes) (parameters : Option (Json R))
    (flag : List (Bytes × Json R)) (memory : MemoryAnswer) (state : VarlinkState) :
    Option (Varlink (Json R) × Result Unit) :=
  if v.state = .disconnected then some (v, .error ENOTCONN)
  else if v.state ≠ .idleClient then some (v, .error EBUSY)
  else if v.nPending ≠ 0 then none
  else some (await (v.clearCurrent.enqueueCall format [.idleClient] kind method parameters flag memory) state)

/-- `sd_varlink_call_full` up to its loop. -/
def beginCallFull (v : Varlink (Json R)) (method : Bytes) (parameters : Option (Json R)) (memory : MemoryAnswer) :
    Option (Varlink (Json R) × Result Unit) :=
  v.beginCall format .call method parameters [] memory .calling

/-- `sd_varlink_collect_full` up to its loop. -/
def beginCollectFull (v : Varlink (Json R)) (method : Bytes) (parameters : Option (Json R)) (memory : MemoryAnswer) :
    Option (Varlink (Json R) × Result Unit) :=
  v.beginCall format .more method parameters [(ascii "more", .ofBoolean true)] memory .collecting

/-! ## Replies -/

/-- `varlink_dispatch_reply` from the label `invalid` on. -/
def invalidReply (v : Varlink (Json R)) (closes : Bool) : Varlink (Json R) :=
  ((v.setState .processingFailure).dispatchLocalError closes).close

/-- The reply in a message, if this may be one in this state. -/
def receivedReply (state : VarlinkState) (m : Json R) : Option (VarlinkReply (Json R)) :=
  (replyOf m).bind fun r =>
    if state ≠ .awaitingReplyMore ∧ state ≠ .collecting ∧ r.continues then none
    else if r.error.isSome ∧ r.continues then none
    else some r

/-- `varlink_dispatch_reply`, where the callback may close the connection. -/
def dispatchReply (v : Varlink (Json R)) (closes : Bool) : Option (Varlink (Json R) × Bool) :=
  if !v.state.awaitsReply then some (v, false)
  else
    match v.current with
    | none => some (v, false)
    | some m =>
      if v.nPending = 0 then none
      else
        match receivedReply v.state m with
        | none => some (v.invalidReply closes, true)
        | some r =>
          match varlinkSanitizeParameters r.parameters with
          | .error _ => some (v.invalidReply closes, true)
          | .ok parameters =>
            let v : Varlink (Json R) := { v with currentContinues := r.continues }
            match v.state with
            | .collecting => some (v.setState .collectingReply, true)
            | .calling => some (v.setState .called, true)
            | _ =>
              let v : Varlink (Json R) :=
                { v with
                  state := .processingReply
                  history := v.history ++ [.handedOut ⟨some parameters, r.error, r.continues⟩] }
              let v := (if v.replyCallback && closes then v.close else v).clearCurrent
              if v.state = .processingReply then
                if v.nPending = 0 then none
                else
                  let n := if r.continues then v.nPending else v.nPending - 1
                  let state : VarlinkState :=
                    if r.continues then .awaitingReplyMore else if n = 0 then .idleClient else .awaitingReply
                  some ({ v with nPending := n, state := state }, true)
              else some (v, true)

end Varlink

end Elogind
