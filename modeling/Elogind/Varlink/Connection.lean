/-
  Elogind.Varlink.Connection

  Varlink connections (sd-varlink.c): what there is of one, and how messages are written to it and read from it.
  Messages are of any type with a text, `format`, and a reading of texts, `parse`.  What the socket and the
  memory answer is in the arguments; what happened so far is in histories, which nothing reads.
-/

import Elogind.Basic.Bytes
import Elogind.Basic.Errno
import Elogind.Lib.Window

namespace Elogind

open Lib Errno

/-- `VARLINK_BUFFER_MAX` -/
def varlinkBufferMax : Nat := 16 * 1024 * 1024

/-- `VARLINK_READ_SIZE` -/
def varlinkReadSize : Nat := 64 * 1024

/-! ## Connections -/

/-- `VarlinkState` -/
inductive VarlinkState where
  | idleClient
  | awaitingReply
  | awaitingReplyMore
  | calling
  | called
  | collecting
  | collectingReply
  | processingReply
  | idleServer
  | processingMethod
  | processingMethodMore
  | processingMethodOneway
  | processedMethod
  | pendingMethod
  | pendingMethodMore
  | pendingDisconnect
  | pendingTimeout
  | processingDisconnect
  | processingTimeout
  | processingFailure
  | disconnected
  deriving DecidableEq, Repr

namespace VarlinkState

/-- `VARLINK_STATE_IS_ALIVE` -/
def isAlive : VarlinkState → Bool
  | idleClient | awaitingReply | awaitingReplyMore | calling | called | collecting | collectingReply
  | processingReply | idleServer | processingMethod | processingMethodMore | processingMethodOneway
  | processedMethod | pendingMethod | pendingMethodMore => true
  | pendingDisconnect | pendingTimeout | processingDisconnect | processingTimeout | processingFailure
  | disconnected => false

/-- `VARLINK_STATE_WANTS_REPLY` -/
def wantsReply : VarlinkState → Bool
  | processingMethod | processingMethodMore => true
  | _ => false

/-- The states in which replies are awaited. -/
def awaitsReply : VarlinkState → Bool
  | awaitingReply | awaitingReplyMore | calling | collecting => true
  | _ => false

/-- The states in which `varlink_read` reads. -/
def reads (s : VarlinkState) : Bool := s.awaitsReply || s = idleServer

end VarlinkState

/-- What a message is for. -/
inductive VarlinkMessage where
  | oneway
  | call
  | more
  | reply
  | notification
  | error
  deriving DecidableEq, Repr

/-- `VarlinkJsonQueueItem` -/
structure VarlinkJsonQueueItem (J : Type) where
  data : J
  fds : List Nat

/-- What happened to the messages and the descriptors that are sent. -/
inductive OutputEvent (J : Type) where
  | pushed (fd : Nat)
  | enqueued (kind : VarlinkMessage) (m : J) (fds : List Nat)
  /-- The socket accepted these bytes, and these descriptors with the first of them. -/
  | wrote (bytes : Bytes) (fds : List Nat)
  | closed (fds : List Nat)

/-- The part of a connection that sends. -/
structure VarlinkOutput (J : Type) where
  /-- `output_buffer`, `output_buffer_index` and `output_buffer_size` -/
  buffer : Window UInt8
  /-- `output_fds` -/
  fds : List Nat
  /-- `output_queue` -/
  queue : List (VarlinkJsonQueueItem J)
  pushedFds : List Nat
  history : List (OutputEvent J)

/-- The part of a connection that receives. -/
structure VarlinkInput where
  /-- `input_buffer`, `input_buffer_index` and `input_buffer_size` -/
  buffer : Window UInt8
  /-- `input_buffer_unscanned` -/
  unscanned : Nat
  /-- `input_fds` -/
  fds : List Nat
  /-- All bytes that were received. -/
  received : Bytes
  /-- The texts that were handed to the parser. -/
  handed : List Bytes

/-! ## Sending -/

/-- How memory can be had: not at all, or so much more of it with this in it. -/
inductive MemoryAnswer where
  | none
  | some (slack : Nat) (junk : Nat → UInt8)

/-- What a socket does with what it is given. -/
inductive OutputAnswer where
  | accepted (n : Nat)
  | again
  | disconnected
  | failed (er : Errno)

namespace VarlinkOutput

variable {J : Type} (format : J → Bytes)

/-- `varlink_format_json` -/
def formatJson (o : VarlinkOutput J) (m : J) : MemoryAnswer → VarlinkOutput J × Result Unit
  | .none => (o, .error ENOMEM)
  | .some slack junk =>
    let text := format m ++ [0]
    let newSize := o.buffer.size + text.length
    if newSize > varlinkBufferMax then (o, .error ENOBUFS)
    else if o.buffer.size = 0 then ({ o with buffer := .ofList text }, .ok ())
    else if o.buffer.index = 0 then
      ({ o with buffer := (o.buffer.enlarge newSize slack junk).write text }, .ok ())
    else ({ o with buffer := (o.buffer.copyTo newSize slack junk).write text }, .ok ())

/-- `varlink_enqueue_json` -/
def enqueueJson (o : VarlinkOutput J) (kind : VarlinkMessage) (m : J) (memory : MemoryAnswer) :
    VarlinkOutput J × Result Unit :=
  if o.pushedFds = [] ∧ o.queue = [] then
    match o.formatJson format m memory with
    | (o, .error er) => (o, .error er)
    | (o, .ok ()) => ({ o with history := o.history ++ [.enqueued kind m []] }, .ok ())
  else
    match memory with
    | .none => (o, .error ENOMEM)
    | .some _ _ =>
      ({ o with
          queue := o.queue ++ [⟨m, o.pushedFds⟩]
          pushedFds := []
          history := o.history ++ [.enqueued kind m o.pushedFds] }, .ok ())

/-- The loop of `varlink_format_queue` over these entries of the queue. -/
def formatQueueLoop (memory : Nat → MemoryAnswer) :
    List (VarlinkJsonQueueItem J) → VarlinkOutput J → VarlinkOutput J × Result Unit
  | [], o => (o, .ok ())
  | q :: queue, o =>
    if o.fds ≠ [] then (o, .ok ())
    else
      match o.formatJson format q.data (memory queue.length) with
      | (o, .error er) => (o, .error er)
      | (o, .ok ()) => formatQueueLoop memory queue { o with fds := q.fds, queue := queue }

/-- `varlink_format_queue` -/
def formatQueue (memory : Nat → MemoryAnswer) (o : VarlinkOutput J) : VarlinkOutput J × Result Unit :=
  formatQueueLoop format memory o.queue o

/-- What `varlink_write` does once it may write: `none` when the other side is gone, and otherwise whether
    something was written. -/
def write (o : VarlinkOutput J) (memory : Nat → MemoryAnswer) (answer : OutputAnswer) :
    VarlinkOutput J × Result (Option Bool) :=
  match o.formatQueue format memory with
  | (o, .error er) => (o, .error er)
  | (o, .ok ()) =>
    if o.buffer.size = 0 then (o, .ok (some false))
    else
      match answer with
      | .again => (o, .ok (some false))
      | .disconnected => (o, .ok none)
      | .failed er => (o, .error er)
      | .accepted n =>
        let n := min n o.buffer.size
        ({ o with
            buffer := o.buffer.consume n
            fds := []
            history := o.history ++ [.wrote (o.buffer.contents.take n) o.fds] }, .ok (some true))

/-- `sd_varlink_push_fd`, where descriptors may be passed. -/
def pushFd (o : VarlinkOutput J) (fd : Nat) : MemoryAnswer → VarlinkOutput J × Result Nat
  | .none => (o, .error ENOMEM)
  | .some _ _ =>
    ({ o with pushedFds := o.pushedFds ++ [fd], history := o.history ++ [.pushed fd] }, .ok o.pushedFds.length)

/-- `varlink_reset_fds` -/
def resetFds (o : VarlinkOutput J) : VarlinkOutput J :=
  { o with fds := [], history := o.history ++ [.closed o.fds] }

/-- What `varlink_clear` does to this part. -/
def clear (o : VarlinkOutput J) : VarlinkOutput J :=
  { buffer := { o.buffer with memory := [] }
    fds := []
    queue := []
    pushedFds := []
    history := o.history ++ [.closed (o.fds ++ o.pushedFds ++ o.queue.flatMap VarlinkJsonQueueItem.fds)] }

end VarlinkOutput

/-! ## Receiving -/

/-- What there is to be read from a socket. -/
inductive InputAnswer where
  | again
  | disconnected
  | failed (er : Errno)
  | received (bytes : Bytes) (fds : List Nat)

namespace VarlinkInput

/-- The space behind what was read. -/
def room (i : VarlinkInput) : Nat := i.buffer.memory.length - (i.buffer.index + i.buffer.size)

/-- Have space for more, if there is none. -/
def reserve (i : VarlinkInput) : MemoryAnswer → Result VarlinkInput
  | .none => if i.buffer.memory.length ≤ i.buffer.index + i.buffer.size then .error ENOMEM else .ok i
  | .some slack junk =>
    if i.buffer.memory.length ≤ i.buffer.index + i.buffer.size then
      let add := min (varlinkBufferMax - i.buffer.size) varlinkReadSize
      if i.buffer.index = 0 then
        .ok { i with buffer := i.buffer.enlarge (i.buffer.size + add) slack junk }
      else .ok { i with buffer := i.buffer.copyTo (i.buffer.size + add) slack junk }
    else .ok i

/-- What `varlink_read` does once it may read: `none` when the other side is gone, and otherwise whether
    something was read. -/
def read (i : VarlinkInput) (allowFdPassing : Bool) (memory : MemoryAnswer) (answer : InputAnswer) :
    VarlinkInput × Result (Option Bool) :=
  if i.buffer.size ≥ varlinkBufferMax then (i, .error ENOBUFS)
  else
    match i.reserve memory with
    | .error er => (i, .error er)
    | .ok i =>
      match answer with
      | .again => (i, .ok (some false))
      | .disconnected => (i, .ok none)
      | .failed er => (i, .error er)
      | .received bytes fds =>
        let bytes := bytes.take i.room
        if bytes = [] then (i, .ok none)
        else if allowFdPassing ∧ fds ≠ [] ∧ i.buffer.size ≠ 0 then (i, .error EPROTO)
        else
          ({ i with
              buffer := i.buffer.write bytes
              unscanned := i.unscanned + bytes.length
              fds := if allowFdPassing then i.fds ++ fds else i.fds
              received := i.received ++ bytes }, .ok (some true))

/-- What `varlink_parse_message` does once it may parse: the message, if there is one. -/
def parseMessage {J : Type} (parse : Bytes → Result J) (i : VarlinkInput) : VarlinkInput × Result (Option J) :=
  let begin := i.buffer.memory.drop i.buffer.index
  let scan := (begin.drop (i.buffer.size - i.unscanned)).take i.unscanned
  match scan.idxOf? 0 with
  | none => ({ i with unscanned := 0 }, .ok none)
  | some k =>
    let sz := i.buffer.size - i.unscanned + k + 1
    let text := begin.takeWhile fun c => c ≠ 0
    let i := { i with handed := i.handed ++ [text] }
    match parse text with
    | .error er => ({ i with buffer := { i.buffer with index := 0, size := 0 }, unscanned := 0 }, .error er)
    | .ok m => ({ i with buffer := i.buffer.consume sz, unscanned := i.buffer.size - sz }, .ok (some m))

/-- What `varlink_clear` does to this part. -/
def clear (i : VarlinkInput) : VarlinkInput := { i with buffer := { i.buffer with memory := [] }, fds := [] }

end VarlinkInput

/-! ## A whole connection -/

/-- A reply as it is handed out. -/
structure VarlinkReply (J : Type) where
  parameters : Option J
  error : Option Bytes
  /-- `SD_VARLINK_REPLY_CONTINUES` -/
  continues : Bool

/-- What happened to the calls on a connection. -/
inductive VarlinkEvent (J : Type) where
  | enqueued (kind : VarlinkMessage) (m : J)
  /-- The call in this one of the texts that were parsed was dispatched. -/
  | dispatched (call : Nat) (kind : VarlinkMessage)
  | handedOut (r : VarlinkReply J)
  /-- An error that does not come from the other side. -/
  | localError

/-- `struct sd_varlink` -/
structure Varlink (J : Type) where
  state : VarlinkState
  /-- Whether there is a server. -/
  server : Bool
  connecting : Bool
  nPending : UInt32
  input : VarlinkInput
  output : VarlinkOutput J
  /-- Whether there is a callback for replies. -/
  replyCallback : Bool
  current : Option J
  /-- Whether `current_reply_flags` has `SD_VARLINK_REPLY_CONTINUES`. -/
  currentContinues : Bool
  writeDisconnected : Bool
  readDisconnected : Bool
  gotPollhup : Bool
  allowFdPassingInput : Bool
  allowFdPassingOutput : Bool
  history : List (VarlinkEvent J)

namespace Varlink

variable {J : Type} (format : J → Bytes) (parse : Bytes → Result J)

/-- `varlink_set_state` -/
def setState (v : Varlink J) (s : VarlinkState) : Varlink J := { v with state := s }

/-- `varlink_clear_current` -/
def clearCurrent (v : Varlink J) : Varlink J :=
  { v with current := none, currentContinues := false, input := { v.input with fds := [] } }

/-- `varlink_write` -/
def write (v : Varlink J) (memory : Nat → MemoryAnswer) (answer : OutputAnswer) : Varlink J × Result Bool :=
  if !v.state.isAlive then (v, .ok false)
  else if v.connecting then (v, .ok false)
  else if v.writeDisconnected then (v, .ok false)
  else
    match v.output.write format memory answer with
    | (o, .error er) => ({ v with output := o }, .error er)
    | (o, .ok none) => ({ v with output := o, writeDisconnected := true }, .ok true)
    | (o, .ok (some r)) => ({ v with output := o }, .ok r)

/-- `varlink_read` -/
def read (v : Varlink J) (memory : MemoryAnswer) (answer : InputAnswer) : Varlink J × Result Bool :=
  if !v.state.reads then (v, .ok false)
  else if v.connecting then (v, .ok false)
  else if v.current.isSome then (v, .ok false)
  else if v.input.unscanned > 0 then (v, .ok false)
  else if v.readDisconnected then (v, .ok false)
  else
    match v.input.read v.allowFdPassingInput memory answer with
    | (i, .error er) => ({ v with input := i }, .error er)
    | (i, .ok none) => ({ v with input := i, readDisconnected := true }, .ok true)
    | (i, .ok (some r)) => ({ v with input := i }, .ok r)

/-- `varlink_parse_message` -/
def parseMessage (v : Varlink J) : Varlink J × Result Bool :=
  if v.current.isSome then (v, .ok false)
  else if v.input.unscanned = 0 then (v, .ok false)
  else
    match v.input.parseMessage parse with
    | (i, .error er) => ({ v with input := i }, .error er)
    | (i, .ok none) => ({ v with input := i }, .ok false)
    | (i, .ok (some m)) => ({ v with input := i, current := some m }, .ok true)

/-- `varlink_enqueue_json` -/
def enqueueJson (v : Varlink J) (kind : VarlinkMessage) (m : J) (memory : MemoryAnswer) : Varlink J × Result Unit :=
  match v.output.enqueueJson format kind m memory with
  | (o, .error er) => ({ v with output := o }, .error er)
  | (o, .ok ()) => ({ v with output := o, history := v.history ++ [.enqueued kind m] }, .ok ())

/-- `sd_varlink_push_fd` -/
def pushFd (v : Varlink J) (fd : Nat) (memory : MemoryAnswer) : Varlink J × Result Nat :=
  if !v.allowFdPassingOutput then (v, .error EPERM)
  else
    match v.output.pushFd fd memory with
    | (o, r) => ({ v with output := o }, r)

/-- `sd_varlink_close` -/
def close (v : Varlink J) : Varlink J :=
  if v.state = .disconnected then v
  else
    clearCurrent { v with state := .disconnected, server := false, input := v.input.clear, output := v.output.clear }

/-- `varlink_test_disconnect` -/
def testDisconnect (v : Varlink J) : Varlink J × Bool :=
  let disconnects :=
    v.state.isAlive && !v.connecting && !(v.output.buffer.size > 0 && !v.writeDisconnected) &&
      (v.readDisconnected && v.writeDisconnected ||
        v.state.reads && v.readDisconnected ||
        v.state = .idleClient && (v.writeDisconnected || v.gotPollhup) ||
        (v.state = .pendingMethod || v.state = .pendingMethodMore) &&
          (v.writeDisconnected || v.output.buffer.size = 0) && v.gotPollhup)
  if disconnects then (v.setState .pendingDisconnect, true) else (v, false)

/-- `varlink_test_timeout`, where this says whether the timeout has been reached. -/
def testTimeout (v : Varlink J) (elapsed : Bool) : Varlink J × Bool :=
  if v.state.awaitsReply && elapsed then (v.setState .pendingTimeout, true) else (v, false)

/-- `varlink_dispatch_local_error`: the callback, if there is one, may close the connection. -/
def dispatchLocalError (v : Varlink J) (closes : Bool) : Varlink J :=
  if v.replyCallback then
    let v := { v with history := v.history ++ [.localError] }
    if closes then v.close else v
  else v

/-- `varlink_dispatch_timeout` -/
def dispatchTimeout (v : Varlink J) (closes : Bool) : Varlink J × Bool :=
  if v.state ≠ .pendingTimeout then (v, false)
  else (((v.setState .processingTimeout).dispatchLocalError closes).close, true)

/-- `varlink_dispatch_disconnect` -/
def dispatchDisconnect (v : Varlink J) (closes : Bool) : Varlink J × Bool :=
  if v.state ≠ .pendingDisconnect then (v, false)
  else (((v.setState .processingDisconnect).dispatchLocalError closes).close, true)

end Varlink

end Elogind
