/-
  Elogind.Bus.Calls

  Method calls on a bus connection and their reply callbacks (sd-bus.c, bus-slot.c).

  A slot is known by its address, and no two slots ever have the same one; what is in the
  memory of a slot that was freed stays there.  The callbacks of `reply_callbacks` are in
  the order in which they were put, each under its cookie.  While a callback runs, anything
  can happen that does not process another message.
-/

import Elogind.Basic.HashmapSpec
import Elogind.Basic.PrioqRun
import Elogind.Basic.TimeUtil

namespace Elogind

/-- `enum bus_state` -/
inductive BusState where
  | unset
  | watchBind
  | opening
  | authenticating
  | hello
  | running
  | closing
  | closed
  deriving DecidableEq, Repr

namespace BusState

/-- `BUS_IS_OPEN` -/
def isOpen : BusState → Bool
  | unset | closing | closed => false
  | watchBind | opening | authenticating | hello | running => true

/-- The states before `BUS_HELLO`. -/
def isConnecting : BusState → Bool
  | unset | watchBind | opening | authenticating => true
  | hello | running | closing | closed => false

end BusState

/-- An `sd_bus_slot` with a `struct reply_callback`. -/
structure ReplySlot where
  /-- Whether the callback is not NULL. -/
  callback : Bool
  cookie : Nat
  timeoutUsec : Nat
  floating : Bool
  /-- Whether `slot->bus` is set. -/
  connected : Bool
  nRef : Nat
  deriving DecidableEq, Repr

/-- What `sd_bus` has for the calls that are waiting for a reply. -/
structure Bus where
  state : BusState
  cookie : Nat
  /-- The cookies and slots in `reply_callbacks`. -/
  replyCallbacks : List (Nat × Nat)
  /-- The array of `reply_callbacks_prioq`. -/
  prioqItems : List (PrioqItem Nat Nat)
  /-- `prioq_idx` of each slot. -/
  prioqIdx : Nat → Nat
  slots : Nat → ReplySlot
  /-- How many slots were allocated so far. -/
  nSlots : Nat
  /-- `current_slot` -/
  currentSlot : Option Nat
  /-- The slots whose callbacks were invoked, and whether they were connected then. -/
  invoked : List (Nat × Bool)

namespace Bus

/-! ## Slots and the two collections of reply callbacks -/

/-- `timeout_compare` -/
def timeoutCompare (slots : Nat → ReplySlot) (x y : Nat) : Int :=
  let x := (slots x).timeoutUsec
  let y := (slots y).timeoutUsec
  if x ≠ 0 ∧ y = 0 then -1
  else if x = 0 ∧ y ≠ 0 then 1
  else if x < y then -1
  else if y < x then 1
  else 0

/-- `reply_callbacks_prioq` -/
def queue (b : Bus) : Prioq Nat Nat :=
  { compareFunc := timeoutCompare b.slots, items := b.prioqItems, cells := b.prioqIdx }

def setQueue (b : Bus) (q : Prioq Nat Nat) : Bus := { b with prioqItems := q.items, prioqIdx := q.cells }

def setSlot (b : Bus) (s : Nat) (slot : ReplySlot) : Bus :=
  { b with slots := Function.update b.slots s slot }

/-- `ordered_hashmap_remove` from `reply_callbacks` -/
def removeCallback (b : Bus) (cookie : Nat) : Bus :=
  { b with replyCallbacks := b.replyCallbacks.filter fun e => e.1 ≠ cookie }

/-- `ordered_hashmap_put` into `reply_callbacks`.  With too many entries the call is not
    defined. -/
def putCallback (b : Bus) (cookie s : Nat) (allocated : Bool) : Option (Bus × Int) :=
  match b.replyCallbacks.find? fun e => e.1 = cookie with
  | some e => some (b, if e.2 = s then 0 else Errno.EEXIST.neg)
  | none =>
    if ¬HashmapBase.Fits .ordered (b.replyCallbacks.length + 1) then none
    else if !allocated then some (b, Errno.ENOMEM.neg)
    else some ({ b with replyCallbacks := b.replyCallbacks ++ [(cookie, s)] }, 1)

/-- `prioq_remove` from `reply_callbacks_prioq` -/
def dequeue (fuel : Nat) (b : Bus) (s : Nat) : Option Bus :=
  (b.queue.prioqRemove fuel s (some s)).map fun r => b.setQueue r.1

/-- A slot has one reference less. -/
def dropRef (b : Bus) (s : Nat) : Bus := b.setSlot s { b.slots s with nRef := (b.slots s).nRef - 1 }

/-- `bus_slot_disconnect`.  A slot that is freed at the end is not connected any more. -/
def busSlotDisconnect (fuel : Nat) (b : Bus) (s : Nat) (unref : Bool) : Option Bus :=
  if !(b.slots s).connected then some b
  else
    let b := if (b.slots s).cookie ≠ 0 then b.removeCallback (b.slots s).cookie else b
    match (if (b.slots s).timeoutUsec ≠ 0 then b.dequeue fuel s else some b) with
    | none => none
    | some b =>
      let b := b.setSlot s { b.slots s with connected := false }
      if (b.slots s).floating && unref then some (b.dropRef s) else some b

/-- `sd_bus_slot_unref` and `bus_slot_free` -/
def slotUnref (fuel : Nat) (b : Bus) (s : Nat) : Option Bus :=
  if (b.slots s).nRef = 0 then none
  else
    let b := b.dropRef s
    if (b.slots s).nRef = 0 then b.busSlotDisconnect fuel s false else some b

/-! ## Cookies -/

/-- `COOKIE_CYCLED` -/
def cookieCycled : Nat := 2 ^ 31

/-- `cookie_inc` -/
def cookieInc (cookie : Nat) : Nat := if 2 ^ 32 - 1 ≤ cookie then cookieCycled else cookie + 1

/-- `ordered_hashmap_contains` for `reply_callbacks` -/
def hasCallback (b : Bus) (cookie : Nat) : Bool := b.replyCallbacks.any fun e => e.1 = cookie

/-- The loop of `next_cookie`: the first of `n` cookies that is not in use. -/
def probe (b : Bus) : Nat → Nat → Option Nat
  | 0, _ => none
  | n + 1, cookie => if !b.hasCallback cookie then some cookie else b.probe n (cookieInc cookie)

/-- `next_cookie` -/
def nextCookie (b : Bus) : Bus × Int :=
  let cookie := cookieInc b.cookie
  if cookie.testBit 31 then
    match b.probe cookieCycled cookie with
    | some cookie => ({ b with cookie := cookie }, 0)
    | none => (b, Errno.EBUSY.neg)
  else ({ b with cookie := cookie }, 0)

/-! ## Calls -/

/-- A method call message, as far as calls look at it: the cookie and the timeout of one
    that is sealed. -/
structure CallMessage where
  sealed : Option (UInt32 × Nat)
  noReplyExpected : Bool
  deriving DecidableEq, Repr

/-- What becomes of writing a message. -/
inductive SendResult where
  | sent
  | failed
  /-- `ERRNO_IS_NEG_DISCONNECT` -/
  | disconnected
  deriving DecidableEq, Repr

/-- What a call depends on besides its arguments. -/
structure CallEnv where
  /-- What `sd_bus_get_method_call_timeout` gives. -/
  methodCallTimeout : Nat
  /-- What `now` gives. -/
  now : Nat
  /-- Whether the two collections could be allocated. -/
  allocated : Bool
  /-- Whether everything before `next_cookie` works. -/
  prepared : Bool
  /-- Whether `sd_bus_message_seal` works. -/
  seals : Bool
  /-- Whether the message has to be remarshalled, and whether this works. -/
  remarshal : Option Bool
  slotAllocated : Bool
  putAllocated : Bool
  prioqAllocated : Bool
  send : SendResult
  deriving DecidableEq, Repr

/-- `bus_seal_message`: the cookie and the timeout that the message has then. -/
def busSealMessage (b : Bus) (m : CallMessage) (timeout : Nat) (env : CallEnv) : Bus × Option (Nat × Nat) :=
  match m.sealed with
  | some (cookie, timeout) =>
    ({ b with cookie := max b.cookie cookie.toNat }, some (cookie.toNat, timeout))
  | none =>
    let timeout := if timeout = 0 then env.methodCallTimeout else timeout
    if !env.prepared then (b, none)
    else
      let (b, r) := b.nextCookie
      if r < 0 then (b, none)
      else if !env.seals then (b, none)
      else (b, some (b.cookie, if m.noReplyExpected then 0 else timeout))

/-- `bus_remarshal_message`: the timeout of the message that is sent. -/
def busRemarshalMessage (m : CallMessage) (timeout : Nat) (env : CallEnv) : Option Nat :=
  match env.remarshal with
  | none => some timeout
  | some false => none
  | some true =>
    let timeout := if timeout = 0 ∧ !m.noReplyExpected then env.methodCallTimeout else timeout
    some (if m.noReplyExpected then 0 else timeout)

/-- `calc_elapse` -/
def calcElapse (b : Bus) (usec now : Nat) : Nat :=
  if usec = usecInfinity then 0
  else
    match b.state with
    | .watchBind | .opening | .authenticating => usec
    | .unset | .hello | .running | .closing | .closed => usecAdd now usec

/-- `bus_enter_closing` -/
def busEnterClosing (b : Bus) : Bus :=
  if b.state.isOpen then { b with state := .closing } else b

/-- `sd_bus_send`, for a message that is sealed; whether it is sent. -/
def sendSealed (b : Bus) (cookie : Nat) (result : SendResult) : Bus × Bool :=
  let b := { b with cookie := max b.cookie cookie }
  match result with
  | .sent => (b, true)
  | .failed => (b, false)
  | .disconnected => (b.busEnterClosing, false)

/-- `sd_bus_send` -/
def sdBusSend (b : Bus) (m : CallMessage) (env : CallEnv) : Bus :=
  if !b.state.isOpen then b
  else
    match b.busSealMessage m 0 env with
    | (b, none) => b
    | (b, some (cookie, _)) => (b.sendSealed cookie env.send).1

/-- `bus_slot_allocate` for a reply callback -/
def allocateSlot (b : Bus) (slot : ReplySlot) : Bus :=
  { b.setSlot b.nSlots slot with
    nSlots := b.nSlots + 1
    prioqIdx := Function.update b.prioqIdx b.nSlots 0 }

/-- The part of `sd_bus_call_async` that starts the timeout of the slot `s`, and whether it
    works. -/
def startTimeout (b : Bus) (s elapse : Nat) (env : CallEnv) : Option (Bus × Bool) :=
  let b := b.setSlot s { b.slots s with timeoutUsec := elapse }
  if (b.slots s).timeoutUsec ≠ 0 then
    match b.queue.prioqPut s (some s) env.prioqAllocated with
    | none => none
    | some (q, r) =>
      let b := b.setQueue q
      if r < 0 then some (b.setSlot s { b.slots s with timeoutUsec := 0 }, false)
      else some (b, true)
  else some (b, true)

/-- The part of `sd_bus_call_async` that registers the slot `s`, and whether it works. -/
def register (b : Bus) (s cookie timeout : Nat) (env : CallEnv) : Option (Bus × Bool) :=
  match b.putCallback cookie s env.putAllocated with
  | none => none
  | some (b, r) =>
    if r < 0 then some (b.setSlot s { b.slots s with cookie := 0 }, false)
    else b.startTimeout s (b.calcElapse timeout env.now) env

/-- `sd_bus_call_async` -/
def sdBusCallAsync (fuel : Nat) (b : Bus) (m : CallMessage) (wantsSlot callback : Bool) (usec : Nat)
    (env : CallEnv) : Option Bus :=
  if m.sealed.isSome ∧ callback = m.noReplyExpected then some b
  else if !b.state.isOpen then some b
  else
    let m :=
      if !callback && !wantsSlot && m.sealed.isNone then { m with noReplyExpected := true } else m
    if !env.allocated then some b
    else
      match b.busSealMessage m usec env with
      | (b, none) => some b
      | (b, some (cookie, timeout)) =>
        match busRemarshalMessage m timeout env with
        | none => some b
        | some timeout =>
          if wantsSlot || callback then
            if !env.slotAllocated then some b
            else
              let s := b.nSlots
              let b := b.allocateSlot
                { callback := callback
                  cookie := cookie
                  timeoutUsec := 0
                  floating := !wantsSlot
                  connected := true
                  nRef := 1 }
              match b.register s cookie timeout env with
              | none => none
              | some (b, false) => b.slotUnref fuel s
              | some (b, true) =>
                match b.sendSealed cookie env.send with
                | (b, true) => some b
                | (b, false) => b.slotUnref fuel s
          else some (b.sendSealed cookie env.send).1

/-! ## How calls complete -/

/-- The callback of a slot is called.  A call of NULL is not survived. -/
def invoke (b : Bus) (s : Nat) : Option Bus :=
  if (b.slots s).callback then
    some
      { b.setSlot s { b.slots s with nRef := (b.slots s).nRef + 1 } with
        currentSlot := some s
        invoked := b.invoked ++ [(s, (b.slots s).connected)] }
  else none

/-- A callback that is not to wait any longer leaves the queue. -/
def stopTimeout (fuel : Nat) (b : Bus) (s : Nat) : Option Bus :=
  if (b.slots s).timeoutUsec ≠ 0 then
    (b.dequeue fuel s).map fun b => b.setSlot s { b.slots s with timeoutUsec := 0 }
  else some b

/-- `process_reply`, up to the call of the callback; `made` says whether the message for
    it could be made. -/
def processReply (fuel : Nat) (b : Bus) (replyCookie : Nat) (made : Bool) : Option Bus :=
  match b.replyCallbacks.find? fun e => e.1 = replyCookie with
  | none => some b
  | some (_, s) =>
    let b := b.removeCallback replyCookie
    let b := b.setSlot s { b.slots s with cookie := 0 }
    if !made then some b
    else
      match b.stopTimeout fuel s with
      | none => none
      | some b => b.invoke s

/-- `process_timeout`, up to the call of the callback -/
def processTimeout (fuel : Nat) (b : Bus) (now : Nat) (made : Bool) : Option Bus :=
  match b.queue.prioqPeek with
  | none => some b
  | some s =>
    if now < (b.slots s).timeoutUsec then some b
    else if !made then some b
    else
      match b.queue.prioqPop fuel with
      | none => none
      | some (q, popped) =>
        if popped ≠ some s then none
        else
          let b := b.setQueue q
          let b := b.setSlot s { b.slots s with timeoutUsec := 0 }
          let b := b.removeCallback (b.slots s).cookie
          let b := b.setSlot s { b.slots s with cookie := 0 }
          b.invoke s

/-- `process_closing_reply_callback`, up to the call of the callback, for the first of the
    outstanding calls -/
def processClosing (fuel : Nat) (b : Bus) (made : Bool) : Option Bus :=
  match b.replyCallbacks.head? with
  | none => some b
  | some (_, s) =>
    if !made then some b
    else
      match b.stopTimeout fuel s with
      | none => none
      | some b =>
        let b := b.removeCallback (b.slots s).cookie
        let b := b.setSlot s { b.slots s with cookie := 0 }
        b.invoke s

/-- What follows the call of a callback. -/
def callbackReturns (fuel : Nat) (b : Bus) (s : Nat) : Option Bus :=
  let b := { b with currentSlot := none }
  match (if (b.slots s).floating then b.busSlotDisconnect fuel s true else some b) with
  | none => none
  | some b => b.slotUnref fuel s

/-- The timeout of a callback counts from now on. -/
def shiftTimeout (n : Nat) (b : Bus) (s : Nat) : Bus :=
  if (b.slots s).timeoutUsec = 0 then b
  else b.setSlot s { b.slots s with timeoutUsec := usecAdd n (b.slots s).timeoutUsec }

/-- `bus_start_running` -/
def busStartRunning (b : Bus) (now : Nat) (busClient : Bool) : Bus :=
  let b := (b.replyCallbacks.map Prod.snd).foldl (shiftTimeout now) b
  { b with state := if busClient then .hello else .running }

/-- `sd_bus_slot_set_floating` -/
def slotSetFloating (fuel : Nat) (b : Bus) (s : Nat) (floating : Bool) : Option Bus :=
  if (b.slots s).floating = floating then some b
  else if !(b.slots s).connected then some b
  else
    let b := b.setSlot s { b.slots s with floating := floating }
    if floating then some (b.setSlot s { b.slots s with nRef := (b.slots s).nRef + 1 })
    else b.slotUnref fuel s

/-! ## Everything that can happen -/

/-- What can happen to a connection. -/
inductive Event where
  | send (m : CallMessage) (env : CallEnv)
  | callAsync (m : CallMessage) (wantsSlot callback : Bool) (usec : Nat) (env : CallEnv)
  | reply (replyCookie : Nat) (made : Bool)
  | timeout (now : Nat) (made : Bool)
  | closing (made : Bool)
  | callbackReturns
  | slotRef (s : Nat)
  | slotUnref (s : Nat)
  | slotSetFloating (s : Nat) (floating : Bool)
  | connect (state : BusState)
  | startRunning (now : Nat) (busClient : Bool)
  | helloReply
  | enterClosing
  | close

/-- A message may be processed. -/
def mayProcess (b : Bus) : Bool := b.currentSlot.isNone && (b.state == .hello || b.state == .running)

/-- One event; `none` if it cannot happen in this state, or is not survived. -/
def step (fuel : Nat) (b : Bus) : Event → Option Bus
  | .send m env => some (b.sdBusSend m env)
  | .callAsync m wantsSlot callback usec env => b.sdBusCallAsync fuel m wantsSlot callback usec env
  | .reply replyCookie made => if b.mayProcess then b.processReply fuel replyCookie made else none
  | .timeout now made => if b.mayProcess then b.processTimeout fuel now made else none
  | .closing made =>
    if b.currentSlot.isNone ∧ b.state = .closing then b.processClosing fuel made else none
  | .callbackReturns =>
    match b.currentSlot with
    | none => none
    | some s => b.callbackReturns fuel s
  | .slotRef s =>
    if (b.slots s).nRef = 0 then none
    else some (b.setSlot s { b.slots s with nRef := (b.slots s).nRef + 1 })
  | .slotUnref s => b.slotUnref fuel s
  | .slotSetFloating s floating =>
    if (b.slots s).nRef = 0 then none else b.slotSetFloating fuel s floating
  | .connect state =>
    if b.state.isConnecting ∧ state.isConnecting then some { b with state := state } else none
  | .startRunning now busClient =>
    if b.state.isConnecting then some (b.busStartRunning now busClient) else none
  | .helloReply => if b.state = .hello then some { b with state := .running } else none
  | .enterClosing => some b.busEnterClosing
  | .close => some { b with state := .closed }

/-- One event, with all loops run to their ends. -/
def Step (b : Bus) (e : Event) (b' : Bus) : Prop := ∃ fuel, b.step fuel e = some b'

/-- A new connection. -/
def initial : Bus where
  state := .unset
  cookie := 0
  replyCallbacks := []
  prioqItems := []
  prioqIdx := fun _ => 0
  slots := fun _ =>
    { callback := false
      cookie := 0
      timeoutUsec := 0
      floating := false
      connected := false
      nRef := 0 }
  nSlots := 0
  currentSlot := none
  invoked := []

end Bus

end Elogind
