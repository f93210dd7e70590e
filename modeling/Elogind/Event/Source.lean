/-
  Elogind.Event.Source

  Event sources and the queues they stand in (sd-event.c).  A source is queued while it is pending,
  while it has a prepare callback, if it is to run at exit, and on a clock: a time source on its own
  clock, and a source that is rate-limited on the monotonic one.

  What the kernel answers and whether memory is there are arguments.  Signal sets, inotify watches and
  epoll registrations are not followed; that one of them cannot be set up is such an answer.
-/

import Elogind.Basic.PrioqOwn
import Elogind.Basic.TimeUtil

namespace Elogind

open Lib

/-! ## Types and clocks -/

/-- `EventSourceType`; there are no sources of type `SOURCE_WATCHDOG`. -/
inductive EventSourceType where
  | io
  | timeRealtime
  | timeBoottime
  | timeMonotonic
  | timeRealtimeAlarm
  | timeBoottimeAlarm
  | signal
  | child
  | defer
  | post
  | exit
  | inotify
  | memoryPressure
  deriving DecidableEq, Repr

/-- The clocks that an event loop has a `struct clock_data` for. -/
inductive EventClock where
  | realtime
  | boottime
  | monotonic
  | realtimeAlarm
  | boottimeAlarm
  deriving DecidableEq, Repr

/-- `clock_to_event_source_type` -/
def EventClock.type : EventClock → EventSourceType
  | realtime => .timeRealtime
  | boottime => .timeBoottime
  | monotonic => .timeMonotonic
  | realtimeAlarm => .timeRealtimeAlarm
  | boottimeAlarm => .timeBoottimeAlarm

namespace EventSourceType

/-- `event_get_clock_data` -/
def clock : EventSourceType → Option EventClock
  | timeRealtime => some .realtime
  | timeBoottime => some .boottime
  | timeMonotonic => some .monotonic
  | timeRealtimeAlarm => some .realtimeAlarm
  | timeBoottimeAlarm => some .boottimeAlarm
  | io | signal | child | defer | post | exit | inotify | memoryPressure => none

/-- `EVENT_SOURCE_IS_TIME` -/
def isTime (t : EventSourceType) : Bool := t.clock.isSome

/-- `EVENT_SOURCE_CAN_RATE_LIMIT` -/
def canRateLimit : EventSourceType → Bool
  | io | timeRealtime | timeBoottime | timeMonotonic | timeRealtimeAlarm | timeBoottimeAlarm | signal
  | defer | inotify | memoryPressure => true
  | child | post | exit => false

/-- The types that `event_source_online` registers with the kernel. -/
def registers : EventSourceType → Bool
  | io | signal | child | memoryPressure => true
  | timeRealtime | timeBoottime | timeMonotonic | timeRealtimeAlarm | timeBoottimeAlarm | defer | post
  | exit | inotify => false

/-- The types whose sources stay pending when they are dispatched, or are never pending. -/
def keepsPending : EventSourceType → Bool
  | defer | exit => true
  | io | timeRealtime | timeBoottime | timeMonotonic | timeRealtimeAlarm | timeBoottimeAlarm | signal
  | child | post | inotify | memoryPressure => false

end EventSourceType

/-- `SD_EVENT_OFF`, `SD_EVENT_ON` and `SD_EVENT_ONESHOT` -/
inductive EventEnabled where
  | off
  | on
  | oneshot
  deriving DecidableEq, Repr

/-! ## Rate limits -/

/-- `RateLimit` -/
structure RateLimit where
  interval : Nat
  burst : Nat
  num : Nat
  windowBegin : Nat
  deriving DecidableEq, Repr

namespace RateLimit

/-- `ratelimit_configured` -/
def configured (rl : RateLimit) : Bool := 0 < rl.interval && 0 < rl.burst

/-- `ratelimit_reset` -/
def reset (rl : RateLimit) : RateLimit := { rl with num := 0, windowBegin := 0 }

/-- `ratelimit_below` at the time `ts`. -/
def below (rl : RateLimit) (ts : Nat) : RateLimit × Bool :=
  if !rl.configured then (rl, true)
  else if rl.windowBegin = 0 ∨ usecSubUnsigned ts rl.windowBegin > rl.interval then
    ({ rl with windowBegin := ts, num := 1 }, true)
  else if rl.num = 2 ^ 32 - 1 then (rl, false)
  else ({ rl with num := rl.num + 1 }, decide (rl.num + 1 ≤ rl.burst))

/-- The end of the time window. -/
def windowEnd (rl : RateLimit) : Nat := usecAdd rl.windowBegin rl.interval

end RateLimit

/-! ## Sources -/

/-- `EDOM` -/
def Errno.EDOM : Errno := ⟨33, by decide⟩

/-- `struct sd_event_source` -/
structure EventSource where
  /-- Zero when nobody has a reference any more. -/
  nRef : Nat
  /-- Whether `event` is set. -/
  connected : Bool
  type : EventSourceType
  enabled : EventEnabled
  pending : Bool
  dispatching : Bool
  exitOnFailure : Bool
  ratelimited : Bool
  priority : Int
  pendingIteration : Nat
  prepareIteration : Nat
  /-- The prepare callback, if there is one. -/
  prepare : Option Nat
  ratelimitExpireCallback : Bool
  rateLimit : RateLimit
  /-- `time.next` and `time.accuracy` -/
  next : Nat
  accuracy : Nat
  deriving DecidableEq, Repr

namespace EventSource

/-- `event_source_is_online` -/
def isOnline (x : EventSource) : Bool := x.enabled ≠ .off && !x.ratelimited

/-- `event_source_is_offline` -/
def isOffline (x : EventSource) : Bool := x.enabled = .off || x.ratelimited

/-- `time_event_source_next` -/
def timeEventSourceNext (x : EventSource) : Nat :=
  if x.ratelimited then x.rateLimit.windowEnd
  else if x.type.isTime then x.next
  else usecInfinity

/-- `time_event_source_latest` -/
def timeEventSourceLatest (x : EventSource) : Nat :=
  if x.ratelimited then x.rateLimit.windowEnd
  else if x.type.isTime then usecAdd x.next x.accuracy
  else usecInfinity

/-- `event_source_timer_candidate` -/
def timerCandidate (x : EventSource) : Bool := !x.pending || x.ratelimited

/-- The clock whose queues `event_source_time_prioq_reshuffle` works on. -/
def timeClock (x : EventSource) : Option EventClock :=
  if x.ratelimited then some .monotonic else x.type.clock

end EventSource

/-- `CMP` -/
def threeWay {α : Type} [LT α] [DecidableLT α] (a b : α) : Int := if a < b then -1 else if b < a then 1 else 0

/-- The second comparison counts where the first one finds no difference. -/
def lexCompare (r r' : Int) : Int := if r ≠ 0 then r else r'

/-- `pending_prioq_compare` -/
def pendingPrioqCompare (x y : EventSource) : Int :=
  lexCompare (threeWay (x.enabled == .off) (y.enabled == .off))
    (lexCompare (threeWay x.ratelimited y.ratelimited)
      (lexCompare (threeWay x.priority y.priority) (threeWay x.pendingIteration y.pendingIteration)))

/-- `prepare_prioq_compare` -/
def preparePrioqCompare (x y : EventSource) : Int :=
  lexCompare (threeWay (x.enabled == .off) (y.enabled == .off))
    (lexCompare (threeWay x.ratelimited y.ratelimited)
      (lexCompare (threeWay x.prepareIteration y.prepareIteration) (threeWay x.priority y.priority)))

/-- `time_prioq_compare` -/
def timePrioqCompare (timeFunc : EventSource → Nat) (x y : EventSource) : Int :=
  lexCompare (threeWay (x.enabled == .off) (y.enabled == .off))
    (lexCompare (threeWay (!x.timerCandidate) (!y.timerCandidate)) (threeWay (timeFunc x) (timeFunc y)))

/-- `earliest_time_prioq_compare` -/
def earliestTimePrioqCompare (x y : EventSource) : Int :=
  timePrioqCompare EventSource.timeEventSourceNext x y

/-- `latest_time_prioq_compare` -/
def latestTimePrioqCompare (x y : EventSource) : Int :=
  timePrioqCompare EventSource.timeEventSourceLatest x y

/-- `exit_prioq_compare` -/
def exitPrioqCompare (x y : EventSource) : Int :=
  lexCompare (threeWay (x.enabled == .off) (y.enabled == .off)) (threeWay x.priority y.priority)

/-! ## The event loop -/

/-- The fields of a source that keep its place in a queue. -/
inductive EventIndex where
  | pending
  | prepare
  | exit
  | earliest
  | latest
  deriving DecidableEq, Repr

/-- The queues of an event loop. -/
inductive EventQueue where
  | pending
  | prepare
  | exit
  | earliest (c : EventClock)
  | latest (c : EventClock)
  deriving DecidableEq, Repr

namespace EventQueue

/-- The field of a source for its place in the queue. -/
def index : EventQueue → EventIndex
  | pending => .pending
  | prepare => .prepare
  | exit => .exit
  | earliest _ => .earliest
  | latest _ => .latest

/-- The function that the queue was allocated with. -/
def compare : EventQueue → EventSource → EventSource → Int
  | pending => pendingPrioqCompare
  | prepare => preparePrioqCompare
  | exit => exitPrioqCompare
  | earliest _ => earliestTimePrioqCompare
  | latest _ => latestTimePrioqCompare

end EventQueue

/-- `SD_EVENT_INITIAL` and so on. -/
inductive EventLoopState where
  | initial
  | armed
  | pending
  | running
  | exiting
  | finished
  | preparing
  deriving DecidableEq, Repr

/-- The callbacks that a source can have. -/
inductive EventCallback where
  | prepare
  | dispatch
  | ratelimitExpire
  deriving DecidableEq, Repr

/-- `struct sd_event`, with the sources, which are numbered in the order in which they were allocated.
    The place of a source in a queue is kept in a field of the source. -/
structure EventLoop where
  sources : Nat → EventSource
  /-- How many sources were allocated so far. -/
  allocated : Nat
  /-- The list `sources`; `n_sources` is its length. -/
  list : List Nat
  items : EventQueue → List (PrioqItem Nat Nat)
  index : EventIndex → Nat → Nat
  iteration : Nat
  state : EventLoopState
  exitRequested : Bool
  /-- The callbacks that have not returned yet and their sources, the innermost one first. -/
  calling : List (EventCallback × Nat)

/-- What the kernel and the allocator answer to a call. -/
structure EventEnv where
  /-- Whether `prioq_put` has memory for one more item of each of these queues. -/
  putPending : Bool
  putPrepare : Bool
  putExit : Bool
  putEarliest : Bool
  putLatest : Bool
  /-- Whether memory can be had for a queue that is not there yet, or for the source. -/
  alloc : Bool
  /-- The source is registered with the kernel. -/
  registered : Except Errno Unit
  /-- `setup_clock_data` -/
  setupClock : Except Errno Unit
  /-- `now(CLOCK_MONOTONIC)` -/
  now : Nat

namespace EventLoop

/-- The queue as it is in memory. -/
def queue (e : EventLoop) (q : EventQueue) : Prioq Nat Nat where
  compareFunc := fun a b => q.compare (e.sources a) (e.sources b)
  items := e.items q
  cells := e.index q.index

def setQueue (e : EventLoop) (q : EventQueue) (p : Prioq Nat Nat) : EventLoop :=
  { e with
    items := Function.update e.items q p.items
    index := Function.update e.index q.index p.cells }

/-- A source gets other values. -/
def modify (e : EventLoop) (s : Nat) (f : EventSource → EventSource) : EventLoop :=
  { e with sources := Function.update e.sources s (f (e.sources s)) }

/-- `prioq_put`, and whether it succeeds. -/
def prioqPut (e : EventLoop) (q : EventQueue) (s : Nat) (allocated : Bool) : EventLoop × Bool :=
  let r := (e.queue q).put s allocated
  (e.setQueue q r.1, r.2 == 0)

/-- `prioq_remove` -/
def prioqRemove (e : EventLoop) (q : EventQueue) (s : Nat) : EventLoop := e.setQueue q ((e.queue q).remove s)

/-- `prioq_reshuffle` -/
def prioqReshuffle (e : EventLoop) (q : EventQueue) (s : Nat) : EventLoop :=
  e.setQueue q ((e.queue q).reshuffle s)

/-- `prioq_peek` -/
def prioqPeek (e : EventLoop) (q : EventQueue) : Option Nat := (e.queue q).prioqPeek

/-- The place of a source in a queue is set. -/
def setIndex (e : EventLoop) (i : EventIndex) (s n : Nat) : EventLoop :=
  { e with index := Function.update e.index i (Function.update (e.index i) s n) }

/-! ## Queues and sources -/

/-- `event_source_pp_prioq_reshuffle` -/
def eventSourcePpPrioqReshuffle (e : EventLoop) (s : Nat) : EventLoop :=
  let e := if (e.sources s).pending then e.prioqReshuffle .pending s else e
  if (e.sources s).prepare.isSome then e.prioqReshuffle .prepare s else e

/-- `event_source_time_prioq_reshuffle` -/
def eventSourceTimePrioqReshuffle (e : EventLoop) (s : Nat) : EventLoop :=
  match (e.sources s).timeClock with
  | none => e
  | some c => (e.prioqReshuffle (.earliest c) s).prioqReshuffle (.latest c) s

/-- `event_source_time_prioq_remove` -/
def eventSourceTimePrioqRemove (e : EventLoop) (s : Nat) (c : EventClock) : EventLoop :=
  let e := (e.prioqRemove (.earliest c) s).prioqRemove (.latest c) s
  (e.setIndex .earliest s prioqIdxNull).setIndex .latest s prioqIdxNull

/-- `event_source_time_prioq_put` -/
def eventSourceTimePrioqPut (e : EventLoop) (s : Nat) (c : EventClock) (putEarliest putLatest : Bool) :
    EventLoop × Bool :=
  let (e, r) := e.prioqPut (.earliest c) s putEarliest
  if !r then (e, false)
  else
    let (e, r) := e.prioqPut (.latest c) s putLatest
    if !r then ((e.prioqRemove (.earliest c) s).setIndex .earliest s prioqIdxNull, false)
    else (e, true)

/-- `source_set_pending` -/
def sourceSetPending (e : EventLoop) (s : Nat) (b : Bool) (putPending : Bool) : EventLoop × Except Errno Nat :=
  if (e.sources s).pending == b then (e, .ok 0)
  else
    let e := e.modify s fun x => { x with pending := b }
    let (e, r) :=
      if b then
        (e.modify s fun x => { x with pendingIteration := e.iteration }).prioqPut .pending s putPending
      else (e.prioqRemove .pending s, true)
    if !r then (e.modify s fun x => { x with pending := false }, .error Errno.ENOMEM)
    else
      (if (e.sources s).type.isTime then e.eventSourceTimePrioqReshuffle s else e, .ok 1)

/-- `source_disconnect` -/
def sourceDisconnect (e : EventLoop) (s : Nat) : EventLoop :=
  let x := e.sources s
  if !x.connected then e
  else
    let e :=
      match x.type.clock with
      | none => e
      | some c => if x.ratelimited then e else e.eventSourceTimePrioqRemove s c
    let e := if x.type = .exit then e.prioqRemove .exit s else e
    let e := if x.pending then e.prioqRemove .pending s else e
    let e := if x.prepare.isSome then e.prioqRemove .prepare s else e
    let e := if x.ratelimited then e.eventSourceTimePrioqRemove s .monotonic else e
    { e.modify s fun x => { x with connected := false } with list := e.list.erase s }

/-- `source_free` -/
def sourceFree (e : EventLoop) (s : Nat) : EventLoop :=
  (e.sourceDisconnect s).modify s fun x => { x with nRef := 0 }

/-- `event_source_free`: a source whose callback is running is freed later. -/
def eventSourceFree (e : EventLoop) (s : Nat) : EventLoop :=
  if (e.sources s).dispatching then e.sourceDisconnect s else e.sourceFree s

/-- `sd_event_source_ref` -/
def sdEventSourceRef (e : EventLoop) (s : Nat) : EventLoop := e.modify s fun x => { x with nRef := x.nRef + 1 }

/-- `sd_event_source_unref` -/
def sdEventSourceUnref (e : EventLoop) (s : Nat) : EventLoop :=
  let e := e.modify s fun x => { x with nRef := x.nRef - 1 }
  if (e.sources s).nRef > 0 then e else e.eventSourceFree s

/-- A callback of the source is called. -/
def startCallback (e : EventLoop) (callback : EventCallback) (s : Nat) : EventLoop :=
  { e.modify s fun x => { x with dispatching := true } with calling := (callback, s) :: e.calling }

/-! ## New sources -/

/-- `source_new`: the memory is zero but for these fields. -/
def sourceNew (e : EventLoop) (type : EventSourceType) (enabled : EventEnabled) : EventLoop :=
  let s := e.allocated
  let e :=
    { e with
      sources := Function.update e.sources s
        { nRef := 1, connected := true, type := type, enabled := enabled, pending := false,
          dispatching := false, exitOnFailure := false, ratelimited := false, priority := 0,
          pendingIteration := 0, prepareIteration := 0, prepare := none, ratelimitExpireCallback := false,
          rateLimit := ⟨0, 0, 0, 0⟩, next := 0, accuracy := 0 }
      allocated := s + 1
      list := s :: e.list
      index := fun i => Function.update (e.index i) s 0 }
  (e.setIndex .pending s prioqIdxNull).setIndex .prepare s prioqIdxNull

/-- A source of a type that has to be set up in the kernel, but enters no queue at first. -/
def addSource (e : EventLoop) (type : EventSourceType) (enabled : EventEnabled) (env : EventEnv) :
    EventLoop × Except Errno Nat :=
  if e.state = .finished then (e, .error Errno.ESTALE)
  else if !env.alloc then (e, .error Errno.ENOMEM)
  else
    let s := e.allocated
    let e := e.sourceNew type enabled
    match env.registered with
    | .error er => (e.sourceFree s, .error er)
    | .ok () => (e, .ok 0)

/-- `sd_event_add_io` -/
def sdEventAddIo (e : EventLoop) (env : EventEnv) : EventLoop × Except Errno Nat := e.addSource .io .on env

/-- `sd_event_add_signal` -/
def sdEventAddSignal (e : EventLoop) (env : EventEnv) : EventLoop × Except Errno Nat :=
  e.addSource .signal .on env

/-- `sd_event_add_child` and `sd_event_add_child_pidfd` -/
def sdEventAddChild (e : EventLoop) (env : EventEnv) : EventLoop × Except Errno Nat :=
  e.addSource .child .oneshot env

/-- `sd_event_add_post` -/
def sdEventAddPost (e : EventLoop) (env : EventEnv) : EventLoop × Except Errno Nat := e.addSource .post .on env

/-- `event_add_inotify_fd_internal`, with or without `IN_ONESHOT`. -/
def eventAddInotifyFdInternal (e : EventLoop) (oneshot : Bool) (env : EventEnv) :
    EventLoop × Except Errno Nat :=
  e.addSource .inotify (if oneshot then .oneshot else .on) env

/-- `sd_event_add_memory_pressure` -/
def sdEventAddMemoryPressure (e : EventLoop) (env : EventEnv) : EventLoop × Except Errno Nat :=
  e.addSource .memoryPressure .on env

/-- `DEFAULT_ACCURACY_USEC` -/
def defaultAccuracyUsec : Nat := 250 * 1000

/-- `sd_event_add_time` -/
def sdEventAddTime (e : EventLoop) (c : EventClock) (usec accuracy : Nat) (env : EventEnv) :
    EventLoop × Except Errno Nat :=
  if accuracy = 2 ^ 64 - 1 then (e, .error Errno.EINVAL)
  else if e.state = .finished then (e, .error Errno.ESTALE)
  else
    match env.setupClock with
    | .error er => (e, .error er)
    | .ok () =>
      if !env.alloc then (e, .error Errno.ENOMEM)
      else
        let s := e.allocated
        let e := (e.sourceNew c.type .oneshot).modify s fun x =>
          { x with next := usec, accuracy := if accuracy = 0 then defaultAccuracyUsec else accuracy }
        let e := (e.setIndex .earliest s prioqIdxNull).setIndex .latest s prioqIdxNull
        let (e, r) := e.eventSourceTimePrioqPut s c env.putEarliest env.putLatest
        if !r then (e.sourceFree s, .error Errno.ENOMEM)
        else (e, .ok 0)

/-- `sd_event_add_defer` -/
def sdEventAddDefer (e : EventLoop) (env : EventEnv) : EventLoop × Except Errno Nat :=
  if e.state = .finished then (e, .error Errno.ESTALE)
  else if !env.alloc then (e, .error Errno.ENOMEM)
  else
    let s := e.allocated
    match (e.sourceNew .defer .oneshot).sourceSetPending s true env.putPending with
    | (e, .error er) => (e.sourceFree s, .error er)
    | (e, .ok _) => (e, .ok 0)

/-- `sd_event_add_exit` -/
def sdEventAddExit (e : EventLoop) (env : EventEnv) : EventLoop × Except Errno Nat :=
  if e.state = .finished then (e, .error Errno.ESTALE)
  else if !env.alloc then (e, .error Errno.ENOMEM)
  else
    let s := e.allocated
    let e := (e.sourceNew .exit .oneshot).setIndex .exit s prioqIdxNull
    let (e, r) := e.prioqPut .exit s env.putExit
    if !r then (e.sourceFree s, .error Errno.ENOMEM)
    else (e, .ok 0)

/-! ## Switching sources on and off -/

/-- What `event_source_offline` and `event_source_online` do at their ends. -/
def setPrecise (e : EventLoop) (s : Nat) (enabled : EventEnabled) (ratelimited : Bool) : EventLoop :=
  let e := e.modify s fun x => { x with enabled := enabled, ratelimited := ratelimited }
  let e := if (e.sources s).type = .exit then e.prioqReshuffle .exit s else e
  e.eventSourceTimePrioqReshuffle s

/-- `event_source_offline`; no step of it fails. -/
def eventSourceOffline (e : EventLoop) (s : Nat) (enabled : EventEnabled) (ratelimited : Bool) : EventLoop :=
  let x := e.sources s
  let e :=
    if x.enabled ≠ .off ∧ enabled = .off ∧ !x.type.keepsPending then (e.sourceSetPending s false true).1
    else e
  e.setPrecise s enabled ratelimited

/-- `event_source_online` -/
def eventSourceOnline (e : EventLoop) (s : Nat) (enabled : EventEnabled) (ratelimited : Bool)
    (registered : Except Errno Unit) : EventLoop × Except Errno Nat :=
  let x := e.sources s
  let e :=
    if x.enabled = .off ∧ enabled ≠ .off ∧ !x.type.keepsPending then (e.sourceSetPending s false true).1
    else e
  if enabled = .off ∨ ratelimited then
    (e.modify s fun x => { x with enabled := enabled, ratelimited := ratelimited }, .ok 0)
  else
    match (if x.type.registers then registered else .ok ()) with
    | .error er => (e, .error er)
    | .ok () => (e.setPrecise s enabled ratelimited, .ok 1)

/-- `sd_event_source_set_enabled` -/
def sdEventSourceSetEnabled (e : EventLoop) (s : Nat) (m : EventEnabled) (env : EventEnv) :
    EventLoop × Except Errno Nat :=
  let x := e.sources s
  if e.state = .finished then (e, if m = .off then .ok 0 else .error Errno.ESTALE)
  else if x.enabled = m then (e, .ok 0)
  else if m = .off then ((e.eventSourceOffline s m x.ratelimited).eventSourcePpPrioqReshuffle s, .ok 0)
  else if x.enabled ≠ .off then (e.modify s fun x => { x with enabled := m }, .ok 0)
  else
    match e.eventSourceOnline s m x.ratelimited env.registered with
    | (e, .error er) => (e, .error er)
    | (e, .ok _) => (e.eventSourcePpPrioqReshuffle s, .ok 0)

/-! ## Other properties -/

/-- `sd_event_source_set_priority` -/
def sdEventSourceSetPriority (e : EventLoop) (s : Nat) (priority : Int) (env : EventEnv) :
    EventLoop × Except Errno Nat :=
  let x := e.sources s
  if e.state = .finished then (e, .error Errno.ESTALE)
  else if x.priority = priority then (e, .ok 0)
  else
    match (if x.type = .inotify ∨ x.type = .signal ∧ x.isOnline then env.registered else .ok ()) with
    | .error er => (e, .error er)
    | .ok () =>
      let e := (e.modify s fun x => { x with priority := priority }).eventSourcePpPrioqReshuffle s
      (if x.type = .exit then e.prioqReshuffle .exit s else e, .ok 0)

/-- `sd_event_source_set_io_events`, for other events than before. -/
def sdEventSourceSetIoEvents (e : EventLoop) (s : Nat) (env : EventEnv) : EventLoop × Except Errno Nat :=
  if (e.sources s).type ≠ .io then (e, .error Errno.EDOM)
  else if e.state = .finished then (e, .error Errno.ESTALE)
  else
    let e := (e.sourceSetPending s false true).1
    match (if (e.sources s).isOnline then env.registered else .ok ()) with
    | .error er => (e, .error er)
    | .ok () => (e, .ok 0)

/-- `sd_event_source_set_time` -/
def sdEventSourceSetTime (e : EventLoop) (s usec : Nat) : EventLoop × Except Errno Nat :=
  if !(e.sources s).type.isTime then (e, .error Errno.EDOM)
  else if e.state = .finished then (e, .error Errno.ESTALE)
  else
    let e := (e.sourceSetPending s false true).1
    ((e.modify s fun x => { x with next := usec }).eventSourceTimePrioqReshuffle s, .ok 0)

/-- `sd_event_source_set_time_accuracy` -/
def sdEventSourceSetTimeAccuracy (e : EventLoop) (s usec : Nat) : EventLoop × Except Errno Nat :=
  if usec = 2 ^ 64 - 1 then (e, .error Errno.EINVAL)
  else if !(e.sources s).type.isTime then (e, .error Errno.EDOM)
  else if e.state = .finished then (e, .error Errno.ESTALE)
  else
    let e := (e.sourceSetPending s false true).1
    let accuracy := if usec = 0 then defaultAccuracyUsec else usec
    ((e.modify s fun x => { x with accuracy := accuracy }).eventSourceTimePrioqReshuffle s, .ok 0)

/-- `sd_event_source_set_prepare` -/
def sdEventSourceSetPrepare (e : EventLoop) (s : Nat) (callback : Option Nat) (env : EventEnv) :
    EventLoop × Except Errno Nat :=
  let x := e.sources s
  if x.type = .exit then (e, .error Errno.EDOM)
  else if e.state = .finished then (e, .error Errno.ESTALE)
  else if x.prepare = callback then (e, .ok 0)
  else if callback.isSome ∧ x.prepare.isSome then (e.modify s fun x => { x with prepare := callback }, .ok 0)
  else if !env.alloc then (e, .error Errno.ENOMEM)
  else
    let e := e.modify s fun x => { x with prepare := callback }
    if callback.isSome then
      let (e, r) := e.prioqPut .prepare s env.putPrepare
      (e, if r then .ok 0 else .error Errno.ENOMEM)
    else (e.prioqRemove .prepare s, .ok 0)

/-! ## Rate limits of sources -/

/-- `event_source_enter_ratelimited` -/
def eventSourceEnterRatelimited (e : EventLoop) (s : Nat) (env : EventEnv) : EventLoop × Except Errno Nat :=
  let x := e.sources s
  if x.ratelimited then (e, .ok 0)
  else
    match env.setupClock with
    | .error er => (e, .error er)
    | .ok () =>
      let e :=
        match x.type.clock with
        | none => e
        | some c => e.eventSourceTimePrioqRemove s c
      let (e, r) := e.eventSourceTimePrioqPut s .monotonic env.putEarliest env.putLatest
      if !r then
        -- there is room, as the source was just taken out
        (match x.type.clock with
         | none => e
         | some c => (e.eventSourceTimePrioqPut s c true true).1, .error Errno.ENOMEM)
      else ((e.eventSourceOffline s x.enabled true).eventSourcePpPrioqReshuffle s, .ok 0)

/-- `event_source_leave_ratelimit`, up to the call of the callback. -/
def eventSourceLeaveRatelimit (e : EventLoop) (s : Nat) (runCallback : Bool) (env : EventEnv) :
    EventLoop × Except Errno Nat :=
  let x := e.sources s
  if !x.ratelimited then (e, .ok 0)
  else
    let e := e.eventSourceTimePrioqRemove s .monotonic
    let (e, r) :=
      match x.type.clock with
      | none => (e, true)
      | some c => e.eventSourceTimePrioqPut s c env.putEarliest env.putLatest
    if !r then ((e.eventSourceTimePrioqPut s .monotonic true true).1, .error Errno.ENOMEM)
    else
      match e.eventSourceOnline s x.enabled false env.registered with
      | (e, .error er) =>
        let e :=
          match x.type.clock with
          | none => e
          | some c => e.eventSourceTimePrioqRemove s c
        ((e.eventSourceTimePrioqPut s .monotonic true true).1, .error er)
      | (e, .ok _) =>
        let e := e.eventSourcePpPrioqReshuffle s
        let e := e.modify s fun x => { x with rateLimit := x.rateLimit.reset }
        if runCallback && x.ratelimitExpireCallback then
          (e.startCallback .ratelimitExpire s, .ok 1)
        else (e, .ok 0)

/-- `sd_event_source_set_ratelimit` -/
def sdEventSourceSetRatelimit (e : EventLoop) (s interval burst : Nat) (env : EventEnv) :
    EventLoop × Except Errno Nat :=
  if !(e.sources s).type.canRateLimit then (e, .error Errno.EDOM)
  else
    match e.eventSourceLeaveRatelimit s false env with
    | (e, .error er) => (e, .error er)
    | (e, .ok _) => (e.modify s fun x => { x with rateLimit := ⟨interval, burst, 0, 0⟩ }, .ok 0)

/-- `sd_event_source_leave_ratelimit` -/
def sdEventSourceLeaveRatelimit (e : EventLoop) (s : Nat) (env : EventEnv) : EventLoop × Except Errno Nat :=
  let x := e.sources s
  if !x.type.canRateLimit ∨ !x.rateLimit.configured ∨ !x.ratelimited then (e, .ok 0)
  else
    match e.eventSourceLeaveRatelimit s false env with
    | (e, .error er) => (e, .error er)
    | (e, .ok _) => (e, .ok 1)

end EventLoop

end Elogind
