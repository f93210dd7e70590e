/-
  Elogind.Bus.SocketWrite

  Messages that go out on a bus connection (sd-bus.c, bus-socket.c).  A message is written at once if
  nothing waits; what the socket does not take is written later, from the queue.

  The messages that were sent and the bytes that were written so far are part of the state, although
  the code does not remember them.
-/

import Elogind.Bus.Message

namespace Elogind

open Lib List

namespace Errno

/-- `ERRNO_IS_TRANSIENT`: `EAGAIN` and `EINTR`. -/
def isTransient (e : Errno) : Bool := [11, 4].contains e.val

/-- `ERRNO_IS_DISCONNECT`, in the order of the source. -/
def isDisconnect (e : Errno) : Bool :=
  [103, 111, 104, 112, 113, 100, 102, 101, 64, 92, 107, 32, 71, 108, 110].contains e.val

end Errno

/-- `BUS_WQUEUE_MAX` -/
def busWqueueMax : Nat := 384 * 1024

/-! ## Messages as they are written -/

/-- A message that is sealed and has the byte order and the version of the bus. -/
structure OutMessage where
  /-- The header with the fields, and the parts of the body. -/
  iovec : List Bytes
  fds : List Int
  /-- A reply that nobody asked for. -/
  dontSend : Bool
  header : iovec.flatten ≠ []
  deriving DecidableEq

namespace OutMessage

def bytes (m : OutMessage) : Bytes := m.iovec.flatten

/-- `BUS_MESSAGE_SIZE`; the size of the body is that of its parts. -/
def size (m : OutMessage) : Nat := m.bytes.length

end OutMessage

namespace BusMessage

/-- What is in front of the body. -/
def head (m : BusMessage) : Bytes :=
  [m.endian.code, m.type, m.flags, m.version] ++ m.endian.octets 4 m.bodySize ++
    m.endian.octets 4 m.serial ++ m.endian.octets 4 m.fields.length ++
    m.fields ++ zeros (alignTo m.fields.length 8 - m.fields.length)

/-- `bus_message_setup_iovec` -/
def setupIovec (m : BusMessage) : List Bytes := m.head :: m.parts.map BodyPart.data

theorem flatten_setupIovec (m : BusMessage) : m.setupIovec.flatten = m.blob := by
  rfl

/-- The message is written as its blob. -/
def toOut (m : BusMessage) (dontSend : Bool) : OutMessage where
  iovec := m.setupIovec
  fds := m.fds
  dontSend := dontSend
  header := by
    rw [flatten_setupIovec, blob]
    exact List.cons_ne_nil _ _

end BusMessage

/-! ## The connection -/

/-- What the messages are written to. -/
inductive OutputFd where
  | unixSocket
  | otherSocket
  | noSocket
  deriving DecidableEq, Repr

/-- What a connection has to write. -/
structure BusOutput where
  state : BusState
  outputFd : OutputFd
  acceptFd : Bool
  canFds : Bool
  isMonitor : Bool
  preferWritev : Bool
  wqueue : List OutMessage
  /-- How much of the first message of the queue was written. -/
  windex : Nat
  /-- The messages that `sd_bus_send` took, in this order. -/
  sent : List OutMessage
  /-- The bytes that were written, each with the descriptors that came with it. -/
  written : List (UInt8 × List Int)

/-- What the system says to `sendmsg` or `writev`, apart from `ENOTSOCK`.  It takes no more bytes than there
    are. -/
inductive WriteAnswer where
  | failed (e : Errno)
  | accepted (n : Nat)
  deriving DecidableEq, Repr

/-- `iovec_advance` -/
def iovecAdvance : List Bytes → Nat → List Bytes
  | [], _ => []
  | i :: iov, size =>
    if size = 0 then i :: iov
    else if i.length > size then i.drop size :: iov
    else [] :: iovecAdvance iov (size - i.length)

/-- Descriptors go with the first byte of what is written. -/
def attach (fds : List Int) : Bytes → List (UInt8 × List Int)
  | [] => []
  | c :: bytes => (c, fds) :: bytes.map fun c => (c, [])

/-- The bytes of a message. -/
def OutMessage.wire (m : OutMessage) : List (UInt8 × List Int) := attach m.fds m.bytes

namespace BusOutput

/-- A connection that was not started yet. -/
def start (outputFd : OutputFd) (acceptFd isMonitor : Bool) : BusOutput :=
  ⟨.unset, outputFd, acceptFd, false, isMonitor, false, [], 0, [], []⟩

/-- `bus_socket_write_message`; also the new value of `*idx`. -/
def writeMessage (b : BusOutput) (m : OutMessage) (idx : Nat) (answer : WriteAnswer) :
    BusOutput × Nat × Result Bool :=
  if idx ≥ m.size then (b, idx, .ok false)
  else
    let iov := iovecAdvance m.iovec idx
    -- after sendmsg said that this is no socket
    let b := { b with preferWritev := b.preferWritev || b.outputFd = .noSocket }
    let fds := if !b.preferWritev && idx = 0 then m.fds else []
    match answer with
    | .failed e => (b, idx, if e.isTransient then .ok false else .error e)
    | .accepted n =>
      let bytes := iov.flatten.take n
      ({ b with written := b.written ++ attach fds bytes }, idx + bytes.length, .ok true)

/-- The loop of `dispatch_wqueue`, with an answer for each time that it writes. -/
def dispatchLoop : List WriteAnswer → Bool → BusOutput → BusOutput × Result Bool
  | [], ret, b => (b, .ok ret)
  | answer :: answers, ret, b =>
    match b.wqueue with
    | [] => (b, .ok ret)
    | m :: rest =>
      match b.writeMessage m b.windex answer with
      | (b, idx, .error e) => ({ b with windex := idx }, .error e)
      | (b, idx, .ok false) => ({ b with windex := idx }, .ok ret)
      | (b, idx, .ok true) =>
        if idx ≥ m.size then dispatchLoop answers true { b with wqueue := rest, windex := 0 }
        else dispatchLoop answers ret { b with windex := idx }

/-- `bus_enter_closing` -/
def enterClosing (b : BusOutput) : BusOutput := if b.state.isOpen then { b with state := .closing } else b

/-- `dispatch_wqueue`, and what its callers do with an error. -/
def dispatchWqueue (b : BusOutput) (answers : List WriteAnswer) : BusOutput :=
  match b.dispatchLoop answers false with
  | (b, .error e) => if e.isDisconnect then b.enterClosing else b
  | (b, .ok _) => b

/-- Whether messages are written in this state. -/
def writes (b : BusOutput) : Bool := b.state = .running || b.state = .hello

/-- `sd_bus_can_send` for descriptors; an error if `bus_ensure_running` does not get there. -/
def canSendFds (b : BusOutput) : Result Bool :=
  if b.isMonitor then .ok false
  else if !b.acceptFd then .ok false
  else if b.state ≠ .running then .error Errno.ENOTCONN
  else .ok b.canFds

/-- `sd_bus_send`.  `prepared` is the error if the message cannot be sealed or marshalled again. -/
def sdBusSend (b : BusOutput) (m : OutMessage) (prepared : Option Errno) (answer : WriteAnswer) :
    BusOutput × Result Unit :=
  if !b.state.isOpen then (b, .error Errno.ENOTCONN)
  else
    match (if m.fds ≠ [] then b.canSendFds else .ok true : Result Bool) with
    | .error e => (b, .error e)
    | .ok false => (b, .error Errno.EOPNOTSUPP)
    | .ok true =>
      match prepared with
      | some e => (b, .error e)
      | none =>
        if m.dontSend then ({ b with sent := b.sent ++ [m] }, .ok ())
        else if b.writes ∧ b.wqueue = [] then
          match b.writeMessage m 0 answer with
          | (b, _, .error e) => if e.isDisconnect then (b.enterClosing, .error Errno.ECONNRESET) else (b, .error e)
          | (b, idx, .ok _) =>
            let b := { b with sent := b.sent ++ [m] }
            if idx < m.size then ({ b with wqueue := [m], windex := idx }, .ok ()) else (b, .ok ())
        else if b.wqueue.length ≥ busWqueueMax then (b, .error Errno.ENOBUFS)
        else ({ b with wqueue := b.wqueue ++ [m], sent := b.sent ++ [m] }, .ok ())

/-- What happens on a connection. -/
inductive OutputEvent where
  /-- `bus_set_state`, up to the closing. -/
  | enter (state : BusState)
  /-- The authentication; `agreed` says whether the peer takes descriptors. -/
  | authenticate (agreed : Bool)
  | send (m : OutMessage) (prepared : Option Errno) (answer : WriteAnswer)
  | dispatch (answers : List WriteAnswer)
  /-- `sd_bus_close` -/
  | close

def step (b : BusOutput) : OutputEvent → BusOutput
  | .enter state =>
    if b.state = .closing ∨ b.state = .closed ∨ state = .closed then b else { b with state := state }
  | .authenticate agreed =>
    if b.state = .closing ∨ b.state = .closed then b
    else
      -- bus_socket_start_auth
      let acceptFd := b.acceptFd && b.outputFd = .unixSocket
      { b with state := .authenticating, acceptFd, canFds := acceptFd && agreed }
  | .send m prepared answer => (b.sdBusSend m prepared answer).1
  | .dispatch answers => if b.writes then b.dispatchWqueue answers else b
  | .close => { b with state := .closed, wqueue := [] }

/-- The steps of a run. -/
def Step (b : BusOutput) (e : OutputEvent) (b' : BusOutput) : Prop := b' = b.step e

/-- The message of an event that is a call of `sd_bus_send` which succeeds. -/
def takes (b : BusOutput) : OutputEvent → List OutMessage
  | .send m prepared answer =>
    match (b.sdBusSend m prepared answer).2 with
    | .ok () => [m]
    | .error _ => []
  | _ => []

/-- The messages that the calls in a run took. -/
def taken (b : BusOutput) : List OutputEvent → List OutMessage
  | [] => []
  | e :: events => b.takes e ++ (b.step e).taken events

end BusOutput

/-! ## Where a write goes on -/

section Wire

theorem flatten_iovecAdvance (iov : List Bytes) (n : Nat) : (iovecAdvance iov n).flatten = iov.flatten.drop n := by
  induction iov generalizing n with
  | nil => rw [iovecAdvance, flatten_nil, drop_nil]
  | cons i iov ih =>
    rw [iovecAdvance]
    split
    · next hn => rw [hn, drop_zero]
    split
    · next hlt =>
      rw [flatten_cons, flatten_cons, drop_append_of_le_length (by omega)]
    · next hle =>
      have hnil : i.drop n = [] := drop_eq_nil_of_le (by omega)
      rw [flatten_cons, nil_append, ih, flatten_cons, drop_append, hnil, nil_append]

theorem length_attach (fds : List Int) (bytes : Bytes) : (attach fds bytes).length = bytes.length := by
  cases bytes with
  | nil => rfl
  | cons c bytes => rw [attach, length_cons, length_map, length_cons]

/-- A later write of a message comes without descriptors. -/
theorem attach_drop_take (fds : List Int) (bytes : Bytes) (i n : Nat) :
    attach (if i = 0 then fds else []) ((bytes.drop i).take n) = ((attach fds bytes).drop i).take n := by
  have hmap : ∀ s : Bytes, attach [] s = s.map fun c => (c, []) := by
    intro s
    cases s with
    | nil => rfl
    | cons c s => rfl
  cases bytes with
  | nil =>
    simp only [attach, drop_nil, take_nil]
  | cons c bytes =>
    cases i with
    | zero =>
      rw [if_pos rfl, drop_zero, drop_zero]
      cases n with
      | zero => rfl
      | succ n => rw [take_succ_cons, attach, attach, take_succ_cons, map_take]
    | succ i =>
      rw [if_neg (Nat.succ_ne_zero i), hmap, drop_succ_cons, attach, drop_succ_cons, map_take,
        map_drop]

end Wire

namespace BusOutput

/-! ## One write -/

/-- Descriptors are only sent on a socket that takes them. -/
structure Equipped (b : BusOutput) : Prop where
  canFds : b.canFds = true → b.outputFd = .unixSocket
  preferWritev : b.preferWritev = true → b.outputFd = .noSocket

/-- A message that this connection may send. -/
def Allowed (b : BusOutput) (m : OutMessage) : Prop := m.fds = [] ∨ b.outputFd = .unixSocket

section Write

variable {b : BusOutput} {m : OutMessage} {idx : Nat}

/-- Whatever the system says, what is written are the next bytes of the message. -/
theorem writeMessage_spec (hb : b.Equipped) (hm : b.Allowed m) (hidx : idx < m.size) (answer : WriteAnswer) :
    ∃ n r, b.writeMessage m idx answer =
        ({ b with
            preferWritev := b.preferWritev || b.outputFd = .noSocket
            written := b.written ++ (m.wire.drop idx).take n }, idx + ((m.wire.drop idx).take n).length, r) ∧
      (r ≠ .ok true → (m.wire.drop idx).take n = []) := by
  have hsame : (if (!(b.preferWritev || b.outputFd = .noSocket) && idx = 0) = true then m.fds else []) =
      if idx = 0 then m.fds else [] := by
    by_cases h0 : idx = 0
    · rw [if_pos h0]
      rcases hm with hnone | hunix
      · rw [hnone, ite_self]
      · have hprefer : b.preferWritev = false := by
          cases hp : b.preferWritev with
          | false => rfl
          | true => exact absurd ((hb.preferWritev hp).symm.trans hunix) (by decide)
        rw [hprefer, hunix, if_pos]
        simp only [h0]
        decide
    · rw [if_neg h0, if_neg]
      simp only [h0, decide_false, Bool.and_false]
      decide
  unfold writeMessage
  rw [if_neg (by omega)]
  cases answer with
  | failed e =>
    refine ⟨0, if e.isTransient then .ok false else .error e, ?_, fun _ => take_zero⟩
    rw [take_zero, append_nil]
    rfl
  | accepted n =>
    refine ⟨n, .ok true, ?_, fun h => absurd rfl h⟩
    dsimp only
    rw [hsame, flatten_iovecAdvance, show m.iovec.flatten = m.bytes from rfl, attach_drop_take,
      ← length_attach (if idx = 0 then m.fds else []) ((m.bytes.drop idx).take n), attach_drop_take]
    rfl

theorem size_eq (m : OutMessage) : m.wire.length = m.size := length_attach _ _

theorem size_pos (m : OutMessage) : 0 < m.size := length_pos_iff.mpr m.header

end Write

/-! ## The stream -/

/-- The bytes of the messages that are meant to be sent. -/
def stream (ms : List OutMessage) : List (UInt8 × List Int) :=
  (ms.filter fun m => !m.dontSend).flatMap OutMessage.wire

/-- What is still to be written. -/
def pending (b : BusOutput) : List (UInt8 × List Int) := (b.wqueue.flatMap OutMessage.wire).drop b.windex

/-- What was written and what waits are the messages that were sent, as long as the connection is open. -/
structure InOrder (b : BusOutput) : Prop extends Equipped b where
  allowed : ∀ m ∈ b.wqueue, b.Allowed m
  windex : ∀ m, b.wqueue.head? = some m → b.windex < m.size
  empty : b.state ≠ .closed → b.wqueue = [] → b.windex = 0
  rest : ∃ rest, stream b.sent = b.written ++ rest ∧ (b.state ≠ .closed → rest = b.pending)

section InOrder

variable {b : BusOutput} {m : OutMessage}

theorem inOrder_start (outputFd : OutputFd) (acceptFd isMonitor : Bool) : InOrder (start outputFd acceptFd isMonitor) := by
  refine ⟨⟨?_, ?_⟩, ?_, ?_, fun _ _ => rfl, [], rfl, fun _ => rfl⟩
  · intro h
    cases h
  · intro h
    cases h
  · intro m hm
    cases hm
  · intro m hm
    cases hm

theorem stream_append (ms : List OutMessage) (m : OutMessage) :
    stream (ms ++ [m]) = stream ms ++ if m.dontSend then [] else m.wire := by
  unfold stream
  rw [filter_append, flatMap_append, filter_singleton]
  cases hm : m.dontSend with
  | true => rfl
  | false => exact congrArg (_ ++ ·) (flatMap_singleton ..)

/-- What was taken from the front, and the rest. -/
theorem take_append_drop_length {α : Type} (l : List α) (n : Nat) : l.take n ++ l.drop (l.take n).length = l := by
  by_cases hn : n ≤ l.length
  · rw [length_take_of_le hn, take_append_drop]
  · rw [take_of_length_le (by omega), drop_length, append_nil]

/-- The state after a write, from the queue or not. -/
def wrote (b : BusOutput) (bytes : List (UInt8 × List Int)) : BusOutput :=
  { b with preferWritev := b.preferWritev || b.outputFd = .noSocket, written := b.written ++ bytes }

theorem Equipped.wrote (h : Equipped b) (bytes : List (UInt8 × List Int)) : Equipped (b.wrote bytes) := by
  refine ⟨h.canFds, fun hprefer => ?_⟩
  rcases Bool.or_eq_true_iff.mp hprefer with hb | hno
  · exact h.preferWritev hb
  · exact of_decide_eq_true hno

/-- What waits starts with the rest of the first message. -/
theorem pending_cons {rest : List OutMessage} (hq : b.wqueue = m :: rest) (hidx : b.windex < m.size) :
    b.pending = m.wire.drop b.windex ++ rest.flatMap OutMessage.wire := by
  rw [pending, hq, flatMap_cons, drop_append_of_le_length]
  rw [size_eq]
  omega

/-- A write from the queue that leaves something of the message. -/
theorem InOrder.wroteSome {rest : List OutMessage} (h : InOrder b) (hopen : b.state ≠ .closed)
    (hq : b.wqueue = m :: rest) {n : Nat} (hlt : b.windex + ((m.wire.drop b.windex).take n).length < m.size) :
    InOrder { b.wrote ((m.wire.drop b.windex).take n) with
      windex := b.windex + ((m.wire.drop b.windex).take n).length } := by
  obtain ⟨r, hr, hpending⟩ := h.rest
  have hidx : b.windex < m.size := by omega
  have hequipped := h.toEquipped.wrote ((m.wire.drop b.windex).take n)
  refine ⟨⟨hequipped.canFds, hequipped.preferWritev⟩, h.allowed, ?_, ?_, _, ?_, fun _ => rfl⟩
  · intro m' hm'
    change b.wqueue.head? = some m' at hm'
    rw [hq] at hm'
    cases hm'
    exact hlt
  · intro _ hnil
    change b.wqueue = [] at hnil
    rw [hq] at hnil
    cases hnil
  · change stream b.sent = (b.written ++ (m.wire.drop b.windex).take n) ++ _
    rw [hr, hpending hopen, pending_cons hq hidx, append_assoc]
    refine congrArg (b.written ++ ·) ?_
    change _ = _ ++ (b.wqueue.flatMap OutMessage.wire).drop (b.windex + _)
    rw [← drop_drop, ← pending, pending_cons hq hidx, drop_append_of_le_length (length_take_le' ..),
      ← append_assoc, take_append_drop_length]

/-- A write from the queue that completes a message. -/
theorem InOrder.wroteAll {rest : List OutMessage} (h : InOrder b) (hopen : b.state ≠ .closed)
    (hq : b.wqueue = m :: rest) {n : Nat} (hge : m.size ≤ b.windex + ((m.wire.drop b.windex).take n).length) :
    InOrder { b.wrote ((m.wire.drop b.windex).take n) with wqueue := rest, windex := 0 } := by
  obtain ⟨r, hr, hpending⟩ := h.rest
  have hidx : b.windex < m.size := h.windex m (by rw [hq]; rfl)
  have hequipped := h.toEquipped.wrote ((m.wire.drop b.windex).take n)
  have hwhole : (m.wire.drop b.windex).take n = m.wire.drop b.windex := by
    refine take_of_length_le ?_
    rw [length_take] at hge
    rw [length_drop, size_eq] at hge ⊢
    omega
  refine ⟨⟨hequipped.canFds, hequipped.preferWritev⟩, ?_, ?_, fun _ _ => rfl, _, ?_, fun _ => rfl⟩
  · intro m' hm'
    refine h.allowed m' ?_
    rw [hq]
    exact mem_cons_of_mem m hm'
  · intro m' _
    exact size_pos m'
  · change stream b.sent = (b.written ++ (m.wire.drop b.windex).take n) ++ _
    rw [hwhole, hr, hpending hopen, pending_cons hq hidx, append_assoc]
    rfl

theorem InOrder.dispatchLoop (h : InOrder b) (hopen : b.state ≠ .closed) (answers : List WriteAnswer) (ret : Bool) :
    InOrder (b.dispatchLoop answers ret).1 ∧ (b.dispatchLoop answers ret).1.state = b.state := by
  induction answers generalizing b ret with
  | nil => exact ⟨h, rfl⟩
  | cons answer answers ih =>
    rw [BusOutput.dispatchLoop]
    cases hq : b.wqueue with
    | nil => exact ⟨h, rfl⟩
    | cons m rest =>
      have hidx : b.windex < m.size := h.windex m (by rw [hq]; rfl)
      have hallowed : b.Allowed m := h.allowed m (by rw [hq]; exact mem_cons_self ..)
      obtain ⟨n, r, hwrite, hnothing⟩ := writeMessage_spec h.toEquipped hallowed hidx answer
      dsimp only
      rw [hwrite]
      by_cases hok : r = .ok true
      · subst hok
        dsimp only
        split
        · next hge => exact ih (h.wroteAll hopen hq hge) hopen true
        · next hlt => exact ih (h.wroteSome hopen hq (Nat.lt_of_not_le hlt)) hopen ret
      · have hlt : b.windex + ((m.wire.drop b.windex).take n).length < m.size := by
          rw [hnothing hok]
          exact hidx
        have hsome := h.wroteSome hopen hq hlt
        cases r with
        | error e => exact ⟨hsome, rfl⟩
        | ok moved =>
          cases moved with
          | true => exact absurd rfl hok
          | false => exact ⟨hsome, rfl⟩

/-- Another state, which is not that of a connection that was closed. -/
theorem InOrder.withState (h : InOrder b) (hopen : b.state ≠ .closed) (state : BusState) :
    InOrder { b with state := state } := by
  obtain ⟨r, hr, hpending⟩ := h.rest
  exact ⟨⟨h.canFds, h.preferWritev⟩, h.allowed, h.windex, fun _ => h.empty hopen, r, hr, fun _ => hpending hopen⟩

theorem InOrder.enterClosing (h : InOrder b) : InOrder b.enterClosing := by
  unfold BusOutput.enterClosing
  split
  · next hopen =>
    refine h.withState ?_ _
    intro hclosed
    rw [hclosed] at hopen
    cases hopen
  · exact h

theorem InOrder.dispatchWqueue (h : InOrder b) (hopen : b.state ≠ .closed) (answers : List WriteAnswer) :
    InOrder (b.dispatchWqueue answers) := by
  have hloop := (h.dispatchLoop hopen answers false).1
  unfold BusOutput.dispatchWqueue
  split
  · next b' e hr =>
    rw [hr] at hloop
    split
    · exact hloop.enterClosing
    · exact hloop
  · next b' moved hr =>
    rw [hr] at hloop
    exact hloop

/-- Descriptors are refused where they could not be sent. -/
theorem allowed_of_canSend (h : Equipped b)
    (hcan : (if m.fds ≠ [] then b.canSendFds else .ok true : Result Bool) = .ok true) : b.Allowed m := by
  by_cases hfds : m.fds = []
  · exact .inl hfds
  · rw [if_pos hfds, canSendFds] at hcan
    split at hcan
    · cases hcan
    split at hcan
    · cases hcan
    split at hcan
    · cases hcan
    · exact .inr (h.canFds (Except.ok.inj hcan))

/-- A message that is written at once, as far as the system takes it. -/
theorem InOrder.sentDirectly (h : InOrder b) (hopen : b.state ≠ .closed) (hq : b.wqueue = [])
    (hallowed : b.Allowed m) (hsend : m.dontSend = false) (n : Nat) :
    (((m.wire.take n).length < m.size → InOrder { b.wrote (m.wire.take n) with
        sent := b.sent ++ [m], wqueue := [m], windex := (m.wire.take n).length }) ∧
      (m.size ≤ (m.wire.take n).length → InOrder { b.wrote (m.wire.take n) with sent := b.sent ++ [m] })) := by
  obtain ⟨r, hr, hpending⟩ := h.rest
  have hequipped := h.toEquipped.wrote (m.wire.take n)
  have hstream : stream (b.sent ++ [m]) = b.written ++ m.wire := by
    have hnone : r = [] := by
      rw [hpending hopen, pending, hq, flatMap_nil, drop_nil]
    rw [stream_append, hsend, hr, hnone, append_nil]
    rfl
  constructor
  · intro hlt
    refine ⟨⟨hequipped.canFds, hequipped.preferWritev⟩, ?_, ?_, ?_, _, ?_, fun _ => rfl⟩
    · intro m' hm'
      obtain rfl := mem_singleton.mp hm'
      exact hallowed
    · intro m' hm'
      cases hm'
      exact hlt
    · intro _ hnil
      cases hnil
    · change stream (b.sent ++ [m]) = (b.written ++ m.wire.take n) ++ ([m].flatMap OutMessage.wire).drop _
      rw [hstream, flatMap_singleton, append_assoc, take_append_drop_length]
  · intro hge
    have hwhole : m.wire.take n = m.wire := by
      refine take_of_length_le ?_
      rw [length_take, ← size_eq] at hge
      omega
    refine ⟨⟨hequipped.canFds, hequipped.preferWritev⟩, h.allowed, h.windex, h.empty, [], ?_, fun _ => ?_⟩
    · change stream (b.sent ++ [m]) = (b.written ++ m.wire.take n) ++ []
      rw [hstream, hwhole, append_nil]
    · change [] = (b.wqueue.flatMap OutMessage.wire).drop b.windex
      rw [hq, flatMap_nil, drop_nil]

/-- A message that waits behind the others. -/
theorem InOrder.queued (h : InOrder b) (hopen : b.state ≠ .closed) (hallowed : b.Allowed m)
    (hsend : m.dontSend = false) : InOrder { b with wqueue := b.wqueue ++ [m], sent := b.sent ++ [m] } := by
  obtain ⟨r, hr, hpending⟩ := h.rest
  have hidx : b.windex ≤ (b.wqueue.flatMap OutMessage.wire).length := by
    cases hq : b.wqueue with
    | nil =>
      rw [h.empty hopen hq]
      exact Nat.zero_le _
    | cons m' rest =>
      have hlt := h.windex m' (by rw [hq]; rfl)
      rw [flatMap_cons, length_append, size_eq]
      omega
  refine ⟨⟨h.canFds, h.preferWritev⟩, ?_, ?_, ?_, _, ?_, fun _ => rfl⟩
  · intro m' hm'
    rcases mem_append.mp hm' with hm' | hm'
    · exact h.allowed m' hm'
    · obtain rfl := mem_singleton.mp hm'
      exact hallowed
  · intro m' hm'
    cases hq : b.wqueue with
    | nil =>
      rw [h.empty hopen hq]
      exact size_pos m'
    | cons first rest =>
      rw [hq] at hm'
      exact h.windex m' (by rw [hq]; exact hm')
  · intro _ hnil
    exact absurd hnil (append_ne_nil_of_right_ne_nil _ (cons_ne_nil m []))
  · change stream (b.sent ++ [m]) = b.written ++ ((b.wqueue ++ [m]).flatMap OutMessage.wire).drop b.windex
    rw [stream_append, hsend, hr, hpending hopen, pending, flatMap_append, flatMap_singleton,
      drop_append_of_le_length hidx, append_assoc]
    rfl

theorem InOrder.sdBusSend (h : InOrder b) (m : OutMessage) (prepared : Option Errno) (answer : WriteAnswer) :
    InOrder (b.sdBusSend m prepared answer).1 := by
  unfold BusOutput.sdBusSend
  split
  · exact h
  next hopen =>
  have hstate : b.state ≠ .closed := by
    intro hclosed
    rw [hclosed] at hopen
    exact hopen rfl
  split
  · exact h
  · exact h
  next hcan =>
  have hallowed := allowed_of_canSend h.toEquipped hcan
  split
  · exact h
  split
  · next hdont =>
    obtain ⟨r, hr, hpending⟩ := h.rest
    refine ⟨⟨h.canFds, h.preferWritev⟩, h.allowed, h.windex, h.empty, r, ?_, hpending⟩
    rw [stream_append, hdont, if_pos rfl, append_nil, hr]
  next hdont =>
  have hsend : m.dontSend = false := Bool.eq_false_iff.mpr hdont
  split
  · next hdirect =>
    obtain ⟨n, r, hwrite, hnothing⟩ := writeMessage_spec h.toEquipped hallowed (size_pos m) answer
    rw [drop_zero, Nat.zero_add] at hwrite
    rw [drop_zero] at hnothing
    obtain ⟨hsome, hall⟩ := h.sentDirectly hstate hdirect.2 hallowed hsend n
    rw [hwrite]
    cases r with
    | error e =>
      have hsame : InOrder { b with
          preferWritev := b.preferWritev || b.outputFd = .noSocket
          written := b.written ++ m.wire.take n } := by
        have hequipped := h.toEquipped.wrote (m.wire.take n)
        rw [hnothing (by intro h; cases h), append_nil]
        exact ⟨⟨hequipped.canFds, hequipped.preferWritev⟩, h.allowed, h.windex, h.empty, h.rest⟩
      dsimp only
      split
      · exact hsame.enterClosing
      · exact hsame
    | ok moved =>
      dsimp only
      split
      · next hlt => exact hsome hlt
      · next hge => exact hall (Nat.le_of_not_lt hge)
  split
  · exact h
  · exact h.queued hstate hallowed hsend

theorem InOrder.step (h : InOrder b) (e : OutputEvent) : InOrder (b.step e) := by
  obtain ⟨r, hr, hpending⟩ := h.rest
  cases e with
  | enter state =>
    rw [BusOutput.step]
    split
    · exact h
    · next hstate => exact h.withState (fun hclosed => hstate (.inr (.inl hclosed))) state
  | authenticate agreed =>
    rw [BusOutput.step]
    split
    · exact h
    · next hstate =>
      have hopen : b.state ≠ .closed := fun hclosed => hstate (.inr hclosed)
      refine ⟨⟨?_, h.preferWritev⟩, h.allowed, h.windex, fun _ => h.empty hopen, r, hr, fun _ => hpending hopen⟩
      intro hcan
      obtain ⟨haccept, -⟩ := Bool.and_eq_true_iff.mp hcan
      exact of_decide_eq_true (Bool.and_eq_true_iff.mp haccept).2
  | send m prepared answer => exact h.sdBusSend m prepared answer
  | dispatch answers =>
    rw [BusOutput.step]
    split
    · next hwrites =>
      refine h.dispatchWqueue ?_ answers
      intro hclosed
      rw [writes, hclosed] at hwrites
      cases hwrites
    · exact h
  | close =>
    refine ⟨⟨h.canFds, h.preferWritev⟩, ?_, ?_, ?_, r, hr, ?_⟩
    · intro m hm
      exact absurd hm not_mem_nil
    · intro m hm
      cases hm
    · intro hopen
      exact absurd rfl hopen
    · intro hopen
      exact absurd rfl hopen

end InOrder

section Taken

theorem sent_writeMessage (b : BusOutput) (m : OutMessage) (idx : Nat) (answer : WriteAnswer) :
    (b.writeMessage m idx answer).1.sent = b.sent := by
  unfold writeMessage
  split
  · rfl
  · cases answer <;> rfl

theorem sent_enterClosing (b : BusOutput) : b.enterClosing.sent = b.sent := by
  unfold enterClosing
  split <;> rfl

theorem sent_dispatchLoop (answers : List WriteAnswer) (ret : Bool) (b : BusOutput) :
    (dispatchLoop answers ret b).1.sent = b.sent := by
  induction answers generalizing ret b with
  | nil => rfl
  | cons answer answers ih =>
    rw [dispatchLoop]
    split
    · rfl
    · next m rest _ =>
      have hsame := b.sent_writeMessage m b.windex answer
      split
      · next heq =>
        rw [heq] at hsame
        exact hsame
      · next heq =>
        rw [heq] at hsame
        exact hsame
      · next heq =>
        rw [heq] at hsame
        split
        · exact (ih _ _).trans hsame
        · exact (ih _ _).trans hsame

/-- A call of `sd_bus_send` takes its message exactly when it succeeds. -/
theorem sent_sdBusSend (b : BusOutput) (m : OutMessage) (prepared : Option Errno) (answer : WriteAnswer) :
    (b.sdBusSend m prepared answer).1.sent = b.sent ++ b.takes (.send m prepared answer) := by
  have hwrite := b.sent_writeMessage m 0 answer
  rw [takes]
  unfold sdBusSend
  split
  · exact (append_nil _).symm
  split
  · exact (append_nil _).symm
  · exact (append_nil _).symm
  split
  · exact (append_nil _).symm
  split
  · rfl
  split
  · split
    · next heq =>
      rw [heq] at hwrite
      split
      · exact (sent_enterClosing _).trans (hwrite.trans (append_nil _).symm)
      · exact hwrite.trans (append_nil _).symm
    · next heq =>
      rw [heq] at hwrite
      split <;> rw [← hwrite]
  split
  · exact (append_nil _).symm
  · rfl

theorem sent_step (b : BusOutput) (e : OutputEvent) : (b.step e).sent = b.sent ++ b.takes e := by
  cases e with
  | send m prepared answer => exact b.sent_sdBusSend m prepared answer
  | enter state | authenticate agreed =>
    refine Eq.trans ?_ (append_nil _).symm
    rw [step]
    split <;> rfl
  | dispatch answers =>
    refine Eq.trans ?_ (append_nil _).symm
    rw [step]
    split
    · have hsame := sent_dispatchLoop answers false b
      unfold dispatchWqueue
      split
      · next heq =>
        rw [heq] at hsame
        split
        · exact (sent_enterClosing _).trans hsame
        · exact hsame
      · next heq =>
        rw [heq] at hsame
        exact hsame
    · rfl
  | close => exact (append_nil _).symm

/-- The messages that count as sent are those of the calls that succeeded. -/
theorem sent_of_run {b b' : BusOutput} {events : List OutputEvent} (hrun : Run Step b events b') :
    b'.sent = b.sent ++ b.taken events := by
  induction hrun with
  | nil => exact (append_nil _).symm
  | cons h _ ih =>
    cases h
    rw [ih, sent_step, taken, append_assoc]

end Taken

/-- In every run, the bytes that were written are a prefix of the messages that were to be sent (`stream`), in
    the order of the calls that took them (`taken`) and each with its descriptors at its first byte; the rest
    waits (`pending`) until the connection is closed. -/
theorem written_isPrefix_stream {outputFd : OutputFd} {acceptFd isMonitor : Bool} {events : List OutputEvent}
    {b : BusOutput} (hrun : Run Step (start outputFd acceptFd isMonitor) events b) :
    b.written <+: stream b.sent ∧ (b.state ≠ .closed → stream b.sent = b.written ++ b.pending) ∧
      b.sent = (start outputFd acceptFd isMonitor).taken events := by
  have hordered : InOrder b := hrun.invariant (inOrder_start ..) fun h hstep => hstep ▸ h.step _
  obtain ⟨rest, hstream, hpending⟩ := hordered.rest
  refine ⟨⟨rest, hstream.symm⟩, fun hopen => ?_, sent_of_run hrun⟩
  rw [hstream, hpending hopen]

/-- The state after some events. -/
def after (b : BusOutput) (events : List OutputEvent) : BusOutput := events.foldl step b

theorem run_after (b : BusOutput) (events : List OutputEvent) : Run Step b events (b.after events) := by
  induction events generalizing b with
  | nil => exact .nil b
  | cons e events ih => exact .cons rfl (ih (b.step e))

/-- A signal in three writes, and the one behind it. -/
theorem written_isPrefix_stream_signals :
    let b := (start .unixSocket true false).after
      [.enter .opening, .authenticate true, .send (BusMessage.emptySignal.toOut false) none (.accepted 0),
        .enter .running, .dispatch [.accepted 5, .failed Errno.EAGAIN],
        .send ((BusMessage.blank BusMessage.sampleBus MessageType.methodCall).toOut false) none (.accepted 16),
        .dispatch [.accepted 20, .accepted 3]]
    b.written.length = 19 ∧ b.written <+: stream b.sent :=
  ⟨by decide, (written_isPrefix_stream (run_after (start .unixSocket true false) _)).1⟩

/-- A reply that nobody asked for is taken and not written. -/
theorem written_not_isPrefix :
    ∃ b, Run Step (start .unixSocket true false)
        [.authenticate true, .enter .running,
          .send ((BusMessage.blank BusMessage.sampleBus MessageType.methodReturn).toOut true) none (.accepted 16),
          .send (BusMessage.emptySignal.toOut false) none (.accepted 16)] b ∧
      b.sent.length = 2 ∧ ¬ b.written <+: b.sent.flatMap OutMessage.wire :=
  ⟨_, run_after _ _, by decide, by decide⟩

end BusOutput

end Elogind
