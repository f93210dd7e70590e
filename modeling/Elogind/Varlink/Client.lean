/-
  Elogind.Varlink.Client

  A client of a connection (sd-varlink.c): calls that wait for their reply are in progress until they return, and
  meanwhile the connection is processed and nothing else is done with it.  A failed assertion has no result.
-/

import Mathlib.Data.List.Forall2
import Elogind.Lib.InTurn
import Elogind.Varlink.Process

namespace Elogind

open Lib Errno

/-! ## Calls in progress -/

/-- The call that is in progress: none, one of `sd_varlink_call_full`, or one of `sd_varlink_collect_full` with the
    parameters that were collected. -/
inductive VarlinkFrame (R : Type) where
  | idle
  | call
  | collect (collected : List (Option (Json R)))

/-- A connection and the call that is in progress on it. -/
structure VarlinkClient (R : Type) where
  link : Varlink (Json R)
  frame : VarlinkFrame R

/-- What is done with a connection by its client. -/
inductive ClientStep (R : Type) where
  | send (method : Bytes) (parameters : Option (Json R)) (memory : MemoryAnswer)
  | invoke (method : Bytes) (parameters : Option (Json R)) (memory : MemoryAnswer)
  | observe (method : Bytes) (parameters : Option (Json R)) (memory : MemoryAnswer)
  | call (method : Bytes) (parameters : Option (Json R)) (memory : MemoryAnswer)
  | collect (method : Bytes) (parameters : Option (Json R)) (memory : MemoryAnswer)
  | process (a : ProcessAnswers R)
  /-- `sd_varlink_wait` fails in a call that is in progress. -/
  | waitFailed
  /-- A call goes on behind its inner loop, where a reply can be appended to the others or not. -/
  | proceed (append : Option Errno)
  | connected
  | hangup
  | close

namespace Varlink

variable {R : Type}

/-- A reply is handed out. -/
def handOut (v : Varlink (Json R)) (rs : List (VarlinkReply (Json R))) : Varlink (Json R) :=
  { v with history := v.history ++ rs.map .handedOut }

/-- The reply that is pinned is the last one of the call. -/
def endCall (v : Varlink (Json R)) : Option (Varlink (Json R)) :=
  if v.nPending ≠ 1 then none else some { v with state := .idleClient, nPending := v.nPending - 1 }

/-- The state of a connection where a call ends without a reply. -/
def gone (s : VarlinkState) : Bool := s = .pendingDisconnect || s = .disconnected || s = .pendingTimeout

end Varlink

namespace VarlinkClient

variable {R : Type} (format : Json R → Bytes) (parse : Bytes → Result (Json R)) (methods : VarlinkMethods R)

/-- The inner loops of `sd_varlink_call_full` and `sd_varlink_collect_full` go on in these states. -/
def waiting (s : VarlinkClient R) : Bool :=
  match s.frame with
  | .idle => false
  | .call => s.link.state = .calling
  | .collect _ => s.link.state = .collecting

/-- Begin to wait for a reply, or return with an error. -/
def begun (s : VarlinkClient R) (frame : VarlinkFrame R) :
    Option (Varlink (Json R) × Result Unit) → Option (VarlinkClient R)
  | none => none
  | some (v, .error _) => some { s with link := v }
  | some (v, .ok ()) => some ⟨v, frame⟩

/-- What `sd_varlink_call_full` does behind its loop. -/
def callProceed (v : Varlink (Json R)) : Option (VarlinkClient R) :=
  if Varlink.gone v.state then some ⟨v, .idle⟩
  else if v.state ≠ .called then none
  else
    v.current.bind fun m =>
      v.endCall.map fun w =>
        ⟨w.handOut [⟨m.byKey (ascii "parameters"), (m.byKey (ascii "error")).bind Json.asString, v.currentContinues⟩],
          .idle⟩

/-- The replies in what was collected, and the last one. -/
def collectedReplies (collected : List (Option (Json R))) (last : Option (Json R)) :
    List (VarlinkReply (Json R)) :=
  collected.map (fun p => ⟨p, none, true⟩) ++ [⟨last, none, false⟩]

/-- What `sd_varlink_collect_full` does behind its inner loop. -/
def collectProceed (v : Varlink (Json R)) (collected : List (Option (Json R))) (append : Option Errno) :
    Option (VarlinkClient R) :=
  if Varlink.gone v.state then some ⟨v, .idle⟩
  else if v.state ≠ .collectingReply then none
  else
    v.current.bind fun m =>
      (if v.currentContinues then some v else v.endCall).map fun w =>
        if (m.byKey (ascii "error")).isSome then
          ⟨w.handOut [⟨m.byKey (ascii "parameters"), (m.byKey (ascii "error")).bind Json.asString,
            v.currentContinues⟩], .idle⟩
        else if collected.length ≥ varlinkCollectMax then ⟨w, .idle⟩
        else if append.isSome then ⟨w, .idle⟩
        else if v.currentContinues then
          ⟨w.clearCurrent.setState .collecting, .collect (collected ++ [m.byKey (ascii "parameters")])⟩
        else ⟨w.handOut (collectedReplies collected (m.byKey (ascii "parameters"))), .idle⟩

/-- A call that is in progress returns when processing fails. -/
def processEnds (frame : VarlinkFrame R) (x : Varlink (Json R) × Result Bool) : VarlinkClient R :=
  match x.2 with
  | .error _ => ⟨x.1, .idle⟩
  | .ok _ => ⟨x.1, frame⟩

/-- A step of a client: none where an assertion fails.  What is not done while a call is in progress, or only
    then, does nothing otherwise. -/
def clientStep (s : VarlinkClient R) : ClientStep R → Option (VarlinkClient R)
  | .send method parameters memory =>
    match s.frame with
    | .idle => some { s with link := (s.link.sdVarlinkSend format method parameters memory).1 }
    | _ => some s
  | .invoke method parameters memory =>
    match s.frame with
    | .idle => some { s with link := (s.link.sdVarlinkInvoke format method parameters memory).1 }
    | _ => some s
  | .observe method parameters memory =>
    match s.frame with
    | .idle => some { s with link := (s.link.sdVarlinkObserve format method parameters memory).1 }
    | _ => some s
  | .call method parameters memory =>
    match s.frame with
    | .idle => s.begun .call (s.link.beginCallFull format method parameters memory)
    | _ => some s
  | .collect method parameters memory =>
    match s.frame with
    | .idle => s.begun (.collect []) (s.link.beginCollectFull format method parameters memory)
    | _ => some s
  | .process a =>
    match s.frame with
    | .idle => (s.link.sdVarlinkProcess format parse methods a).map fun x => { s with link := x.1 }
    | frame =>
      if s.waiting then
        (s.link.sdVarlinkProcess format parse methods a).map (processEnds frame)
      else some s
  | .waitFailed => if s.waiting then some { s with frame := .idle } else some s
  | .proceed append =>
    match s.frame with
    | .idle => some s
    | .call => if s.waiting then some s else callProceed s.link
    | .collect collected => if s.waiting then some s else collectProceed s.link collected append
  | .connected => some { s with link := { s.link with connecting := false } }
  | .hangup => some { s with link := { s.link with gotPollhup := true } }
  | .close =>
    match s.frame with
    | .idle => some { s with link := s.link.close }
    | _ => some s

end VarlinkClient

/-! ## Servers that answer -/

section

variable {R : Type}

/-- A reply with the parameters as they are handed to callbacks. -/
def VarlinkReply.sanitized (r : VarlinkReply (Json R)) : VarlinkReply (Json R) :=
  { r with parameters := (varlinkSanitizeParameters r.parameters).toOption }

/-- This text is this reply. -/
def Shows (parse : Bytes → Result (Json R)) (t : Bytes) (r : VarlinkReply (Json R)) : Prop :=
  ∃ m r', parse t = .ok m ∧ replyOf m = some r' ∧ r'.sanitized = r.sanitized

/-- These texts answer a call of this kind: one reply or error, with others before it that continue only if the
    call asked for more. -/
inductive Answer (parse : Bytes → Result (Json R)) (kind : VarlinkMessage) : List Bytes → Prop where
  | final {t : Bytes} {m : Json R} {r : VarlinkReply (Json R)} (hzero : 0 ∉ t) (hm : parse t = .ok m)
      (hr : replyOf m = some r) (hfinal : r.continues = false) : Answer parse kind [t]
  | continues {t : Bytes} {m : Json R} {r : VarlinkReply (Json R)} {ts : List Bytes} (hkind : kind = .more)
      (hzero : 0 ∉ t) (hm : parse t = .ok m) (hr : replyOf m = some r) (hcontinues : r.continues = true)
      (herror : r.error = none) (hts : Answer parse kind ts) : Answer parse kind (t :: ts)

/-- The kind of a call that is answered. -/
def VarlinkEvent.callKind {J : Type} : VarlinkEvent J → Option VarlinkMessage
  | .enqueued .call _ => some .call
  | .enqueued .more _ => some .more
  | _ => none

/-- The reply that was handed out. -/
def VarlinkEvent.reply {J : Type} : VarlinkEvent J → Option (VarlinkReply J)
  | .handedOut r => some r
  | _ => none

namespace Varlink

/-- The kinds of the calls that are answered. -/
def calls {J : Type} (v : Varlink J) : List VarlinkMessage := v.history.filterMap VarlinkEvent.callKind

/-- The replies that were handed out. -/
def handedOut {J : Type} (v : Varlink J) : List (VarlinkReply J) := v.history.filterMap VarlinkEvent.reply

/-- What a server sends for each of the calls, when it sends this for the `n`-th one if it is of a kind. -/
def answers {J : Type} (answer : Nat → VarlinkMessage → List Bytes) (v : Varlink J) : List (List Bytes) :=
  v.calls.mapIdx answer

/-- What was received is what the server sends for the calls so far, up to somewhere. -/
def Honest {J : Type} (answer : Nat → VarlinkMessage → List Bytes) (v : Varlink J) : Prop :=
  v.input.received <+: zeroEnded (v.answers answer).flatten

/-- The replies that were handed out are those that the server sent, in order: for the first calls all of them,
    and for the next one some of the first.  The others are pending. -/
def Matches (parse : Bytes → Result (Json R)) (answer : Nat → VarlinkMessage → List Bytes) (v : Varlink (Json R)) :
    Prop :=
  ∃ given rest, GivenInTurn (v.answers answer) given rest ∧ List.Forall₂ (Shows parse) given v.handedOut ∧
    rest.length = v.nPending.toNat

end Varlink

/-- A step after which what was received is what an honest server sent. -/
def VarlinkClient.honestStep (format : Json R → Bytes) (parse : Bytes → Result (Json R)) (methods : VarlinkMethods R)
    (answer : Nat → VarlinkMessage → List Bytes) (s : VarlinkClient R) (a : ClientStep R) (s' : VarlinkClient R) :
    Prop :=
  s.clientStep format parse methods a = some s' ∧ s'.link.Honest answer

/-- A client with a new connection. -/
structure VarlinkClient.IsNew (s : VarlinkClient R) : Prop where
  link : s.link.IsNew
  state : s.link.state = .idleClient
  pending : s.link.nPending = 0
  frame : s.frame = .idle

/-- If a last reply is handed to a callback, that does not close the connection. -/
def Varlink.KeepsOpen (v : Varlink (Json R)) (closes : Bool) : Prop :=
  v.state = .awaitingReply ∨ v.state = .awaitingReplyMore → ∀ m r, v.current = some m → replyOf m = some r →
    r.continues = false → (v.replyCallback && closes) = false

/-- A call is not made while the reply to an earlier one is pinned, too many are not pending, waiting does not
    fail, what is collected can be, and a callback does not close the connection with its last reply. -/
def VarlinkClient.Careful (s : VarlinkClient R) : ClientStep R → Prop
  | .invoke _ _ _ => (s.link.state = .idleClient → s.link.current = none) ∧ s.link.nPending.toNat + 1 < UInt32.size
  | .observe _ _ _ => s.link.state = .idleClient → s.link.current = none
  | .process a => s.link.KeepsOpen a.closes
  | .waitFailed => s.waiting = false
  | .proceed append =>
    ∀ collected, s.frame = .collect collected → s.link.state = .collectingReply →
      append = none ∧ collected.length < varlinkCollectMax ∧
        (collected ≠ [] → ∀ m, s.link.current = some m → m.byKey (ascii "error") = none)
  | _ => True

end

end Elogind
