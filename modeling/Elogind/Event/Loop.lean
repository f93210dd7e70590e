/-
  Elogind.Event.Loop

  The iterations of an event loop (sd-event.c).  The rounds of the loops in it and the returns of the
  callbacks are events of their own, so that the calls a callback makes come between them.
-/

import Elogind.Event.Source

namespace Elogind

open Lib

/-! ## Iterations -/

/-- How the callback of a source or the notification about memory pressure came out. -/
inductive MemoryPressureAnswer where
  | dispatch
  | handled
  | failed (er : Errno)
  deriving DecidableEq, Repr

/-- What comes up while a source is dispatched. -/
structure DispatchEnv extends EventEnv where
  /-- The sources of type `SOURCE_POST` in the order of the set, and whether there is memory to mark
      them. -/
  posts : List (Nat × Bool)
  /-- For a memory pressure source: whether what it has to write is refused, and what comes then. -/
  writeRefused : Bool
  memoryPressure : MemoryPressureAnswer

namespace EventLoop

/-- `sd_event_exit` -/
def sdEventExit (e : EventLoop) : EventLoop × Except Errno Nat :=
  if e.state = .finished then (e, .error Errno.ESTALE)
  else ({ e with exitRequested := true }, .ok 0)

/-- What happens to a source after its callback. -/
def finishSource (e : EventLoop) (s : Nat) (r : Int) (exits : Bool) (env : EventEnv) : EventLoop :=
  let x := e.sources s
  let e := if r < 0 ∧ x.exitOnFailure ∧ exits then e.sdEventExit.1 else e
  if x.nRef = 0 then e.sourceFree s
  else if r < 0 then (e.sdEventSourceSetEnabled s .off env).1
  else e

/-- `event_next_pending` -/
def eventNextPending (e : EventLoop) : Option Nat :=
  match e.prioqPeek .pending with
  | none => none
  | some p => if (e.sources p).isOffline then none else some p

/-- A round of the loop in `event_prepare`, up to the call of the callback; `none` if the loop is left. -/
def eventPrepareRound (e : EventLoop) : Option EventLoop :=
  match e.prioqPeek .prepare with
  | none => none
  | some s =>
    let x := e.sources s
    if x.prepareIteration = e.iteration ∨ x.isOffline then none
    else
      let e := (e.modify s fun x => { x with prepareIteration := e.iteration }).prioqReshuffle .prepare s
      some (e.startCallback .prepare s)

/-- A round of the loop in `process_timer` at the time `n`, up to the call of a callback; `none` if the loop
    is left. -/
def processTimerRound (e : EventLoop) (n : Nat) (c : EventClock) (env : EventEnv) :
    Option (EventLoop × Except Errno Nat) :=
  match e.prioqPeek (.earliest c) with
  | none => none
  | some s =>
    let x := e.sources s
    if x.timeEventSourceNext > n then none
    else if x.ratelimited then some (e.eventSourceLeaveRatelimit s true env)
    else if x.enabled = .off ∨ x.pending then none
    else
      match e.sourceSetPending s true env.putPending with
      | (e, .error er) => some (e, .error er)
      | (e, .ok _) => some (e.eventSourceTimePrioqReshuffle s, .ok 0)

/-- Something happened that a source waits for: `process_io`, `process_child`, `process_pidfd`,
    `process_signal`, `event_inotify_data_process` and `process_memory_pressure`, where they mark it. -/
def processWakeup (e : EventLoop) (s : Nat) (env : EventEnv) : EventLoop × Except Errno Nat :=
  let x := e.sources s
  let marks :=
    match x.type with
    | .io | .memoryPressure => true
    | .child => !x.pending && !x.isOffline
    | .signal => !x.pending
    | .inotify => !x.isOffline
    | .timeRealtime | .timeBoottime | .timeMonotonic | .timeRealtimeAlarm | .timeBoottimeAlarm | .defer
    | .post | .exit => false
  if marks then e.sourceSetPending s true env.putPending else (e, .ok 0)

/-- The loop in `source_dispatch` over the sources of type `SOURCE_POST`. -/
def markPosts (e : EventLoop) : List (Nat × Bool) → EventLoop × Except Errno Nat
  | [] => (e, .ok 0)
  | (z, putPending) :: posts =>
    if (e.sources z).isOffline then e.markPosts posts
    else
      match e.sourceSetPending z true putPending with
      | (e, .error er) => (e, .error er)
      | (e, .ok _) => e.markPosts posts

/-- `source_dispatch` from the point where the source is going to be dispatched, up to the call of the
    callback.  Without a call, the loop is in its initial state then. -/
def callSource (e : EventLoop) (s : Nat) (env : EventEnv) : EventLoop × Except Errno Nat :=
  let (e, r) :=
    if (e.sources s).enabled = .oneshot then e.sdEventSourceSetEnabled s .off env else (e, .ok 0)
  match r with
  | .error er => ({ e with state := .initial }, .error er)
  | .ok _ => (e.startCallback .dispatch s, .ok 1)

/-- `source_dispatch`, up to the call of the callback.  Without a call, the loop is in its initial state
    then. -/
def sourceDispatch (e : EventLoop) (s : Nat) (env : DispatchEnv) : EventLoop × Except Errno Nat :=
  let x := e.sources s
  let (rl, below) := x.rateLimit.below env.now
  let e := e.modify s fun x => { x with rateLimit := rl }
  if !below then
    let (e, r) := e.eventSourceEnterRatelimited s env.toEventEnv
    ({ e with state := .initial }, r.map fun _ => 1)
  else
    let e := if x.type.keepsPending then e else (e.sourceSetPending s false true).1
    let (e, r) := if x.type = .post then (e, .ok 0) else e.markPosts env.posts
    match r with
    | .error er => ({ e with state := .initial }, .error er)
    | .ok _ =>
      if x.type = .memoryPressure then
        let e := if env.writeRefused then (e.sdEventSourceSetEnabled s .off env.toEventEnv).1 else e
        match env.memoryPressure with
        | .handled => ({ e with state := .initial }, .ok 1)
        | .failed er =>
          if er = Errno.EIO then ({ e.finishSource s er.neg true env.toEventEnv with state := .initial }, .ok 1)
          else ({ e with state := .initial }, .error er)
        | .dispatch => e.callSource s env.toEventEnv
      else e.callSource s env.toEventEnv

/-- `dispatch_exit`, up to the call of the callback. -/
def dispatchExit (e : EventLoop) (env : DispatchEnv) : EventLoop × Except Errno Nat :=
  match e.prioqPeek .exit with
  | none => ({ e with state := .finished }, .ok 0)
  | some p =>
    if (e.sources p).isOffline then ({ e with state := .finished }, .ok 0)
    else { e with iteration := (e.iteration + 1) % 2 ^ 64, state := .exiting }.sourceDispatch p env

/-- `sd_event_dispatch`, up to the call of the callback. -/
def sdEventDispatch (e : EventLoop) (env : DispatchEnv) : EventLoop × Except Errno Nat :=
  if e.exitRequested then e.dispatchExit env
  else
    match e.eventNextPending with
    | some p => { e with state := .running }.sourceDispatch p env
    | none => ({ e with state := .initial }, .ok 1)

/-- A callback returns `r`. -/
def callbackReturned (e : EventLoop) (callback : EventCallback) (s : Nat) (r : Int) (env : EventEnv) : EventLoop :=
  let e := e.modify s fun x => { x with dispatching := false }
  match callback with
  | .prepare => e.finishSource s r true env
  | .ratelimitExpire => e.finishSource s r (e.sources s).connected env
  | .dispatch => { e.finishSource s r true env with state := .initial }

/-- `sd_event_prepare`, up to the loop in `event_prepare`. -/
def sdEventPrepare (e : EventLoop) : EventLoop :=
  if e.exitRequested then { e with state := .pending }
  else { e with iteration := (e.iteration + 1) % 2 ^ 64, state := .preparing }

/-- `event_memory_pressure_write_list`, where the kernel refuses what these sources write. -/
def refuseWrites (e : EventLoop) (env : EventEnv) : List Nat → EventLoop
  | [] => e
  | s :: sources => ((e.sdEventSourceSetEnabled s .off env).1).refuseWrites env sources

end EventLoop

/-! ## Runs -/

/-- How `sd_event_wait` ends. -/
inductive WaitAnswer where
  | exitRequested
  | processed
  | interrupted
  | failed
  /-- It was called by `sd_event_prepare` and there was nothing. -/
  | nothing
  deriving DecidableEq, Repr

/-- What happens to an event loop. -/
inductive LoopEvent where
  | addIo (env : EventEnv)
  | addTime (c : EventClock) (usec accuracy : Nat) (env : EventEnv)
  | addSignal (env : EventEnv)
  | addChild (env : EventEnv)
  | addDefer (env : EventEnv)
  | addPost (env : EventEnv)
  | addExit (env : EventEnv)
  | addInotify (oneshot : Bool) (env : EventEnv)
  | addMemoryPressure (env : EventEnv)
  | ref (s : Nat)
  | unref (s : Nat)
  | setEnabled (s : Nat) (m : EventEnabled) (env : EventEnv)
  | setPriority (s : Nat) (priority : Int) (env : EventEnv)
  | setIoEvents (s : Nat) (env : EventEnv)
  | setTime (s usec : Nat)
  | setTimeAccuracy (s usec : Nat)
  | setPrepare (s : Nat) (callback : Option Nat) (env : EventEnv)
  | setRatelimit (s interval burst : Nat) (env : EventEnv)
  | leaveRatelimit (s : Nat) (env : EventEnv)
  | setRatelimitExpireCallback (s : Nat) (b : Bool)
  | setExitOnFailure (s : Nat) (b : Bool)
  | exit
  | prepare
  /-- The next prepare callback is called. -/
  | prepareRound
  /-- There is none any more; what these sources write is refused then, or there is an error. -/
  | prepared (refused : List Nat) (failed : Bool) (env : EventEnv)
  | wakeup (s : Nat) (env : EventEnv)
  | timerRound (n : Nat) (c : EventClock) (env : EventEnv)
  | waited (answer : WaitAnswer)
  | dispatch (env : DispatchEnv)
  | returned (r : Int) (env : EventEnv)

namespace EventLoop

/-- `sd_event_new` -/
def sdEventNew : EventLoop where
  sources := fun _ =>
    { nRef := 0, connected := false, type := .defer, enabled := .off, pending := false, dispatching := false,
      exitOnFailure := false, ratelimited := false, priority := 0, pendingIteration := 0,
      prepareIteration := 0, prepare := none, ratelimitExpireCallback := false, rateLimit := ⟨0, 0, 0, 0⟩,
      next := 0, accuracy := 0 }
  allocated := 0
  list := []
  items := fun _ => []
  index := fun _ _ => 0
  iteration := 0
  state := .initial
  exitRequested := false
  calling := []

/-- The caller has a reference to the source. -/
def Referenced (e : EventLoop) (s : Nat) : Prop := 0 < (e.sources s).nRef

/-- The sources of type `SOURCE_POST`, in some order. -/
def IsPostSources (e : EventLoop) (l : List Nat) : Prop :=
  l.Nodup ∧ ∀ z, z ∈ l ↔ (e.sources z).connected ∧ (e.sources z).type = .post

/-- What can happen, and what then becomes of the event loop. -/
inductive Step : EventLoop → LoopEvent → EventLoop → Prop where
  | addIo (e : EventLoop) (env : EventEnv) : Step e (.addIo env) (e.sdEventAddIo env).1
  | addTime (e : EventLoop) (c : EventClock) (usec accuracy : Nat) (env : EventEnv) :
      Step e (.addTime c usec accuracy env) (e.sdEventAddTime c usec accuracy env).1
  | addSignal (e : EventLoop) (env : EventEnv) : Step e (.addSignal env) (e.sdEventAddSignal env).1
  | addChild (e : EventLoop) (env : EventEnv) : Step e (.addChild env) (e.sdEventAddChild env).1
  | addDefer (e : EventLoop) (env : EventEnv) : Step e (.addDefer env) (e.sdEventAddDefer env).1
  | addPost (e : EventLoop) (env : EventEnv) : Step e (.addPost env) (e.sdEventAddPost env).1
  | addExit (e : EventLoop) (env : EventEnv) : Step e (.addExit env) (e.sdEventAddExit env).1
  | addInotify (e : EventLoop) (oneshot : Bool) (env : EventEnv) :
      Step e (.addInotify oneshot env) (e.eventAddInotifyFdInternal oneshot env).1
  | addMemoryPressure (e : EventLoop) (env : EventEnv) :
      Step e (.addMemoryPressure env) (e.sdEventAddMemoryPressure env).1
  | ref {e : EventLoop} {s : Nat} (hs : e.Referenced s) : Step e (.ref s) (e.sdEventSourceRef s)
  | unref {e : EventLoop} {s : Nat} (hs : e.Referenced s) : Step e (.unref s) (e.sdEventSourceUnref s)
  | setEnabled {e : EventLoop} {s : Nat} (m : EventEnabled) (env : EventEnv) (hs : e.Referenced s) :
      Step e (.setEnabled s m env) (e.sdEventSourceSetEnabled s m env).1
  | setPriority {e : EventLoop} {s : Nat} (priority : Int) (env : EventEnv) (hs : e.Referenced s) :
      Step e (.setPriority s priority env) (e.sdEventSourceSetPriority s priority env).1
  | setIoEvents {e : EventLoop} {s : Nat} (env : EventEnv) (hs : e.Referenced s) :
      Step e (.setIoEvents s env) (e.sdEventSourceSetIoEvents s env).1
  | setTime {e : EventLoop} {s : Nat} (usec : Nat) (hs : e.Referenced s) :
      Step e (.setTime s usec) (e.sdEventSourceSetTime s usec).1
  | setTimeAccuracy {e : EventLoop} {s : Nat} (usec : Nat) (hs : e.Referenced s) :
      Step e (.setTimeAccuracy s usec) (e.sdEventSourceSetTimeAccuracy s usec).1
  | setPrepare {e : EventLoop} {s : Nat} (callback : Option Nat) (env : EventEnv) (hs : e.Referenced s) :
      Step e (.setPrepare s callback env) (e.sdEventSourceSetPrepare s callback env).1
  | setRatelimit {e : EventLoop} {s : Nat} (interval burst : Nat) (env : EventEnv) (hs : e.Referenced s) :
      Step e (.setRatelimit s interval burst env) (e.sdEventSourceSetRatelimit s interval burst env).1
  | leaveRatelimit {e : EventLoop} {s : Nat} (env : EventEnv) (hs : e.Referenced s) :
      Step e (.leaveRatelimit s env) (e.sdEventSourceLeaveRatelimit s env).1
  | setRatelimitExpireCallback {e : EventLoop} {s : Nat} (b : Bool) (hs : e.Referenced s) :
      Step e (.setRatelimitExpireCallback s b) (e.modify s fun x => { x with ratelimitExpireCallback := b })
  | setExitOnFailure {e : EventLoop} {s : Nat} (b : Bool) (hs : e.Referenced s)
      (htype : (e.sources s).type ≠ .exit) :
      Step e (.setExitOnFailure s b) (e.modify s fun x => { x with exitOnFailure := b })
  | exit (e : EventLoop) : Step e .exit e.sdEventExit.1
  | prepare {e : EventLoop} (hstate : e.state = .initial) : Step e .prepare e.sdEventPrepare
  | prepareRound {e e' : EventLoop} (hstate : e.state = .preparing) (h : e.eventPrepareRound = some e') :
      Step e .prepareRound e'
  | prepared {e : EventLoop} {refused : List Nat} (failed : Bool) (env : EventEnv)
      (hstate : e.state = .preparing) (h : e.eventPrepareRound = none)
      (hrefused : ∀ s ∈ refused, (e.sources s).connected ∧ (e.sources s).type = .memoryPressure) :
      Step e (.prepared refused failed env)
        { e.refuseWrites env refused with state := if failed then .initial else .armed }
  | wakeup {e : EventLoop} {s : Nat} (env : EventEnv) (hstate : e.state = .armed)
      (hs : (e.sources s).connected) : Step e (.wakeup s env) (e.processWakeup s env).1
  | timerRound {e e' : EventLoop} {n : Nat} {c : EventClock} {env : EventEnv} {r : Except Errno Nat}
      (hstate : e.state = .armed) (h : e.processTimerRound n c env = some (e', r)) :
      Step e (.timerRound n c env) e'
  | waited {e : EventLoop} (answer : WaitAnswer) (hstate : e.state = .armed) :
      Step e (.waited answer)
        { e with
          state :=
            match answer with
            | .exitRequested => if e.exitRequested then .pending else .armed
            | .processed => if e.eventNextPending.isSome then .pending else .initial
            | .interrupted => .pending
            | .failed => .initial
            | .nothing => .armed }
  | dispatch {e : EventLoop} {env : DispatchEnv} (hstate : e.state = .pending)
      (hposts : e.IsPostSources (env.posts.map Prod.fst)) : Step e (.dispatch env) (e.sdEventDispatch env).1
  | returned {e : EventLoop} {callback : EventCallback} {s : Nat} {calling : List (EventCallback × Nat)} (r : Int)
      (env : EventEnv) (hcalling : e.calling = (callback, s) :: calling) :
      Step e (.returned r env) ({ e with calling := calling }.callbackReturned callback s r env)

end EventLoop

end Elogind
