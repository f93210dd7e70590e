/-
  Elogind.Event.LoopRun

  Runs of an event loop (sd-event.c).  As long as no source is switched on while it is off and
  rate-limited, no time source that is off leaves its rate limit and memory for a prepare callback can be
  had, every queue holds the sources that belong into it, in order, and the next source that is dispatched
  is an enabled one of minimal priority.  Without that the queues can get out of order.
-/

import Elogind.Event.Properties

namespace Elogind

open Lib EventLoop List

namespace EventLoop

variable {e : EventLoop} {s : Nat}

/-! ## Iterations -/

/-- Sources are switched off without any condition. -/
theorem Consistent.switchOff (h : Consistent e) (hs : (e.sources s).connected) (env : EventEnv) :
    Consistent (e.sdEventSourceSetEnabled s .off env).1 :=
  h.sdEventSourceSetEnabled hs (fun _ hoff => absurd rfl hoff) env

theorem kept_sdEventSourceSetEnabled (e : EventLoop) (s : Nat) (m : EventEnabled) (env : EventEnv) :
    Kept e (e.sdEventSourceSetEnabled s m env).1 := by
  have hmarked : ∀ P [Decidable P], Kept e (if P then (e.sourceSetPending s false true).1 else e) := by
    intro P _
    split
    · exact (marked_sourceSetPending e s false true).kept
    · exact .refl e
  have hpp : ∀ e : EventLoop, Kept e (e.eventSourcePpPrioqReshuffle s) := fun e =>
    .of_sources (sources_ppPrioqReshuffle e s)
  have honline : ∀ limited, Kept e (e.eventSourceOnline s m limited env.registered).1 := by
    intro limited
    unfold eventSourceOnline
    dsimp only
    split
    · exact (hmarked _).trans (kept_modify _ s (f := fun x => { x with enabled := m, ratelimited := limited })
        (fun _ => rfl) fun _ => rfl)
    split
    · exact hmarked _
    · exact (hmarked _).trans (kept_setPrecise _ s _ _)
  unfold sdEventSourceSetEnabled
  dsimp only
  split
  · exact .refl e
  split
  · exact .refl e
  split
  · exact (hmarked _).trans ((kept_setPrecise _ s _ _).trans (hpp _))
  split
  · exact kept_modify e s (f := fun x => { x with enabled := m }) (fun _ => rfl) fun _ => rfl
  have hkept := honline (e.sources s).ratelimited
  split
  next heq =>
    rw [heq] at hkept
    exact hkept
  next heq =>
    rw [heq] at hkept
    exact hkept.trans (hpp _)

theorem Consistent.sdEventExit (h : Consistent e) : Consistent e.sdEventExit.1 := by
  unfold EventLoop.sdEventExit
  split
  · exact h
  · exact h.congr rfl rfl rfl rfl rfl

theorem Consistent.finishSource (h : Consistent e) (s : Nat) (r : Int) (exits : Bool) (env : EventEnv) :
    Consistent (e.finishSource s r exits env) := by
  have hexit : Consistent (if r < 0 ∧ (e.sources s).exitOnFailure ∧ exits then e.sdEventExit.1 else e) ∧
      (if r < 0 ∧ (e.sources s).exitOnFailure ∧ exits then e.sdEventExit.1 else e).sources = e.sources := by
    split
    · refine ⟨h.sdEventExit, ?_⟩
      unfold EventLoop.sdEventExit
      split <;> rfl
    · exact ⟨h, rfl⟩
  obtain ⟨hcons, hsources⟩ := hexit
  unfold EventLoop.finishSource
  dsimp only
  split
  · exact hcons.sourceFree s
  next href =>
  split
  · refine hcons.switchOff ?_ env
    rw [hsources]
    exact h.listed.live s (Nat.pos_of_ne_zero href)
  · exact hcons

/-- The source at the front of a queue is in it. -/
theorem has_of_prioqPeek {q : EventQueue} (hs : e.prioqPeek q = some s) : e.Has q s := by
  obtain ⟨x, hx, hdata⟩ := Option.map_eq_some_iff.mp hs
  exact ⟨x, mem_of_getElem? hx, hdata⟩

theorem Consistent.connected_of_prioqPeek {q : EventQueue} (h : Consistent e) (hs : e.prioqPeek q = some s) :
    (e.sources s).connected :=
  ((h.mem q s).mp (has_of_prioqPeek hs)).1

theorem Consistent.eventPrepareRound {e' : EventLoop} (h : Consistent e) (hround : e.eventPrepareRound = some e') :
    Consistent e' := by
  unfold EventLoop.eventPrepareRound at hround
  split at hround
  · cases hround
  next s hpeek =>
  have hs := h.connected_of_prioqPeek hpeek
  dsimp only at hround
  split at hround
  · cases hround
  cases hround
  have hnew : Shape (e.modify s fun x => { x with prepareIteration := e.iteration }) s
      { e.sources s with prepareIteration := e.iteration } (fun q => q ≠ .prepare) (e.sources s).places.Has :=
    (h.shape rfl hs).modify rfl fun q hq _ => ⟨trivial, rfl, fun _ => ⟨rfl, rfl, rfl⟩, fun heq => absurd heq hq,
      fun _ => rfl, fun _ _ => ⟨rfl, rfl⟩, fun _ _ => ⟨rfl, rfl⟩⟩
  have hdone := (hnew.reshuffleOwn (q := .prepare) rfl).consistent (fun q _ => em _) fun _ => Iff.rfl
  exact hdone.startCallback _ s

/-- If a round of `process_timer` ends the rate limit of a time source, that is not off. -/
def TimerLeavesOn (e : EventLoop) (n : Nat) (c : EventClock) (env : EventEnv) : Prop :=
  ∀ s, e.prioqPeek (.earliest c) = some s → (e.sources s).timeEventSourceNext ≤ n → LeavesOn e s env

theorem Consistent.processTimerRound {n : Nat} {c : EventClock} {env : EventEnv} {e' : EventLoop} {r : Except Errno Nat}
    (h : Consistent e) (hon : TimerLeavesOn e n c env) (hround : e.processTimerRound n c env = some (e', r)) :
    Consistent e' := by
  unfold EventLoop.processTimerRound at hround
  split at hround
  · cases hround
  next s hpeek =>
  have hs := h.connected_of_prioqPeek hpeek
  dsimp only at hround
  split at hround
  · cases hround
  next hnext =>
  split at hround
  · have hleft := h.eventSourceLeaveRatelimit hs (hon s hpeek (Nat.le_of_not_lt hnext)) true
    rw [Option.some.inj hround] at hleft
    exact hleft.consistent
  split at hround
  · cases hround
  have hpending := h.sourceSetPending hs true env.putPending
  have hkept := (marked_sourceSetPending e s true env.putPending).kept s
  split at hround
  next heq =>
    rw [heq] at hpending
    cases hround
    exact hpending
  next heq =>
    rw [heq] at hpending hkept
    cases hround
    have hshape := hpending.shape rfl (hkept.1.trans hs)
    exact (hshape.timePrioqReshuffle rfl).consistent (fun _ _ => .inr trivial) fun _ => Iff.rfl

theorem Consistent.processWakeup (h : Consistent e) (hs : (e.sources s).connected) (env : EventEnv) :
    Consistent (e.processWakeup s env).1 := by
  have hmarks : ∀ marks : Bool,
      Consistent (if marks then e.sourceSetPending s true env.putPending else (e, .ok 0)).1 := by
    intro marks
    cases marks with
    | false => exact h
    | true => exact h.sourceSetPending hs true env.putPending
  exact hmarks _

/-! ## Dispatching -/

theorem Consistent.markPosts (h : Consistent e) (posts : List (Nat × Bool))
    (hposts : ∀ z ∈ posts, (e.sources z.1).connected) :
    Consistent (e.markPosts posts).1 ∧ Kept e (e.markPosts posts).1 := by
  induction posts generalizing e with
  | nil => exact ⟨h, .refl e⟩
  | cons z posts ih =>
    obtain ⟨z, putPending⟩ := z
    unfold markPosts
    split
    · exact ih h fun y hy => hposts y (mem_cons_of_mem _ hy)
    have hz := hposts (z, putPending) (mem_cons_self ..)
    have hpending := h.sourceSetPending hz true putPending
    have hkept := (marked_sourceSetPending e z true putPending).kept
    split
    next heq =>
      rw [heq] at hpending hkept
      exact ⟨hpending, hkept⟩
    next heq =>
      rw [heq] at hpending hkept
      obtain ⟨hcons, hkept'⟩ := ih hpending fun y hy => (hkept y.1).1.trans (hposts y (mem_cons_of_mem _ hy))
      exact ⟨hcons, hkept.trans hkept'⟩

theorem Consistent.setState (h : Consistent e) (state : EventLoopState) : Consistent { e with state := state } :=
  h.congr rfl rfl rfl rfl rfl

theorem Consistent.callSource (h : Consistent e) (hs : (e.sources s).connected) (env : EventEnv) :
    Consistent (e.callSource s env).1 := by
  unfold EventLoop.callSource
  generalize hr : (if (e.sources s).enabled = .oneshot then e.sdEventSourceSetEnabled s .off env else (e, .ok 0)) = r
  have hcons : Consistent r.1 := by
    rw [← hr]
    split
    · exact h.switchOff hs env
    · exact h
  obtain ⟨e', r⟩ := r
  cases r with
  | error er => exact hcons.setState .initial
  | ok n => exact hcons.startCallback _ s

theorem Consistent.sourceDispatch (h : Consistent e) (hs : (e.sources s).connected)
    (honline : (e.sources s).ratelimited = false) (env : DispatchEnv)
    (hposts : ∀ z ∈ env.posts, (e.sources z.1).connected) : Consistent (e.sourceDispatch s env).1 := by
  unfold EventLoop.sourceDispatch
  dsimp only
  generalize hrl : (e.sources s).rateLimit.below env.now = r
  obtain ⟨rl, below⟩ := r
  have hcount : Consistent (e.modify s fun x => { x with rateLimit := rl }) :=
    h.modifyRateLimit (f := fun x => { x with rateLimit := rl }) (fun _ => rfl) honline
  have hkept : Kept e (e.modify s fun x => { x with rateLimit := rl }) :=
    kept_modify e s (f := fun x => { x with rateLimit := rl }) (fun _ => rfl) fun _ => rfl
  generalize he₁ : e.modify s (fun x => { x with rateLimit := rl }) = e₁
  rw [he₁] at hcount hkept
  split
  · exact (hcount.eventSourceEnterRatelimited ((hkept s).1.trans hs) env.toEventEnv).setState .initial
  generalize he₂ : (if (e.sources s).type.keepsPending then e₁ else (e₁.sourceSetPending s false true).1) = e₂
  have hunmarked : Consistent e₂ ∧ Kept e e₂ := by
    rw [← he₂]
    split
    · exact ⟨hcount, hkept⟩
    · exact ⟨hcount.sourceSetPending ((hkept s).1.trans hs) false true,
        hkept.trans (marked_sourceSetPending e₁ s false true).kept⟩
  obtain ⟨hcons₂, hkept₂⟩ := hunmarked
  generalize he₃ : (if (e.sources s).type = .post then (e₂, .ok 0) else e₂.markPosts env.posts) = r
  have hmarked : Consistent r.1 ∧ Kept e r.1 := by
    rw [← he₃]
    split
    · exact ⟨hcons₂, hkept₂⟩
    · obtain ⟨hcons, hkept'⟩ := hcons₂.markPosts env.posts fun z hz => (hkept₂ z.1).1.trans (hposts z hz)
      exact ⟨hcons, hkept₂.trans hkept'⟩
  obtain ⟨e₃, r⟩ := r
  obtain ⟨hcons₃, hkept₃⟩ := hmarked
  have hs₃ : (e₃.sources s).connected := (hkept₃ s).1.trans hs
  cases r with
  | error er => exact hcons₃.setState .initial
  | ok n =>
    dsimp only
    split
    · generalize he₄ : (if env.writeRefused then (e₃.sdEventSourceSetEnabled s .off env.toEventEnv).1 else e₃) = e₄
      have hrefused : Consistent e₄ ∧ Kept e₃ e₄ := by
        rw [← he₄]
        split
        · exact ⟨hcons₃.switchOff hs₃ env.toEventEnv, kept_sdEventSourceSetEnabled e₃ s _ _⟩
        · exact ⟨hcons₃, .refl e₃⟩
      obtain ⟨hcons₄, hkept₄⟩ := hrefused
      split
      · exact hcons₄.setState .initial
      · split
        · exact (hcons₄.finishSource s _ true env.toEventEnv).setState .initial
        · exact hcons₄.setState .initial
      · exact hcons₄.callSource ((hkept₄ s).1.trans hs₃) env.toEventEnv
    · exact hcons₃.callSource hs₃ env.toEventEnv

/-- A source that is not offline is not rate-limited. -/
theorem ratelimited_of_not_isOffline {x : EventSource} (h : ¬x.isOffline) : x.ratelimited = false := by
  unfold EventSource.isOffline at h
  rw [Bool.or_eq_true, not_or] at h
  exact Bool.eq_false_iff.mpr h.2

theorem Consistent.sdEventDispatch (h : Consistent e) (env : DispatchEnv)
    (hposts : ∀ z ∈ env.posts, (e.sources z.1).connected) : Consistent (e.sdEventDispatch env).1 := by
  unfold EventLoop.sdEventDispatch
  split
  · unfold dispatchExit
    split
    · exact h.setState .finished
    next p hpeek =>
    split
    · exact h.setState .finished
    next honline =>
      have hexiting : Consistent { e with iteration := (e.iteration + 1) % 2 ^ 64, state := .exiting } :=
        h.congr rfl rfl rfl rfl rfl
      exact hexiting.sourceDispatch (h.connected_of_prioqPeek hpeek) (ratelimited_of_not_isOffline honline) env hposts
  · split
    next p hnext =>
      unfold eventNextPending at hnext
      split at hnext
      · cases hnext
      next p' hpeek =>
      split at hnext
      · cases hnext
      next honline =>
        cases hnext
        exact (h.setState .running).sourceDispatch (h.connected_of_prioqPeek hpeek)
          (ratelimited_of_not_isOffline honline) env hposts
    · exact h.setState .initial

theorem Consistent.callbackReturned (h : Consistent e) (callback : EventCallback) (s : Nat) (r : Int) (env : EventEnv) :
    Consistent (e.callbackReturned callback s r env) := by
  have hdone : Consistent (e.modify s fun x => { x with dispatching := false }) :=
    h.modifyOther (f := fun x => { x with dispatching := false }) (fun _ => rfl) (h.listed.live s)
  unfold EventLoop.callbackReturned
  split
  · exact hdone.finishSource s r true env
  · exact hdone.finishSource s r _ env
  · exact (hdone.finishSource s r true env).setState .initial

theorem Consistent.refuseWrites (h : Consistent e) (env : EventEnv) (refused : List Nat)
    (hs : ∀ s ∈ refused, (e.sources s).connected) : Consistent (e.refuseWrites env refused) := by
  induction refused generalizing e with
  | nil => exact h
  | cons s refused ih =>
    refine ih (h.switchOff (hs s (mem_cons_self ..)) env) fun t ht => ?_
    rw [(kept_sdEventSourceSetEnabled e s .off env t).1]
    exact hs t (mem_cons_of_mem _ ht)

/-! ## Runs -/

/-- There is one more source at most than queues can hold. -/
def HasRoom (e : EventLoop) : Prop := e.list.length < 2 ^ 31

/-- The event leaves the queues in order. -/
def Orderly (e : EventLoop) : LoopEvent → Prop
  | .addIo _ | .addTime .. | .addSignal _ | .addChild _ | .addDefer _ | .addPost _ | .addExit _ | .addInotify ..
  | .addMemoryPressure _ => HasRoom e
  | .setEnabled s m _ => KeepsLimited e s m
  | .setPrepare s callback env => PreparePuts e s callback env
  | .setRatelimit s _ _ env => LeavesOn e s env
  | .leaveRatelimit s env => LeavesOn e s env
  | .timerRound n c env => TimerLeavesOn e n c env
  | .ref _ | .unref _ | .setPriority .. | .setIoEvents .. | .setTime .. | .setTimeAccuracy ..
  | .setRatelimitExpireCallback .. | .setExitOnFailure .. | .exit | .prepare | .prepareRound | .prepared ..
  | .wakeup .. | .waited _ | .dispatch _ | .returned .. => True

/-- A step that leaves the queues in order. -/
def OrderlyStep (e : EventLoop) (ev : LoopEvent) (e' : EventLoop) : Prop := Step e ev e' ∧ Orderly e ev

theorem Consistent.step {ev : LoopEvent} {e' : EventLoop} (h : Consistent e) (hstep : OrderlyStep e ev e') :
    Consistent e' := by
  obtain ⟨hstep, horderly⟩ := hstep
  cases hstep with
  | addIo env | addSignal env | addPost env | addMemoryPressure env =>
    exact h.addSource horderly (by decide) rfl .on env
  | addTime c usec accuracy env => exact h.sdEventAddTime horderly c usec accuracy env
  | addChild env => exact h.addSource horderly (by decide) rfl .oneshot env
  | addDefer env => exact h.sdEventAddDefer horderly env
  | addExit env => exact h.sdEventAddExit horderly env
  | addInotify oneshot env => exact h.addSource horderly (by decide) rfl _ env
  | ref hs => exact h.sdEventSourceRef hs
  | unref hs => exact h.sdEventSourceUnref hs
  | setEnabled m env hs => exact h.sdEventSourceSetEnabled (h.listed.live _ hs) horderly env
  | setPriority priority env hs => exact h.sdEventSourceSetPriority (h.listed.live _ hs) priority env
  | setIoEvents env hs => exact h.sdEventSourceSetIoEvents (h.listed.live _ hs) env
  | setTime usec hs => exact h.sdEventSourceSetTime (h.listed.live _ hs) usec
  | setTimeAccuracy usec hs => exact h.sdEventSourceSetTimeAccuracy (h.listed.live _ hs) usec
  | setPrepare callback env hs => exact h.sdEventSourceSetPrepare (h.listed.live _ hs) horderly
  | setRatelimit interval burst env hs =>
    exact h.sdEventSourceSetRatelimit (h.listed.live _ hs) horderly interval burst
  | leaveRatelimit env hs => exact h.sdEventSourceLeaveRatelimit (h.listed.live _ hs) horderly
  | setRatelimitExpireCallback b hs | setExitOnFailure b hs htype =>
    exact h.modifyOther (fun _ => rfl) fun _ => h.listed.live _ hs
  | exit => exact h.sdEventExit
  | prepare hstate =>
    unfold sdEventPrepare
    split
    · exact h.setState .pending
    · exact h.congr rfl rfl rfl rfl rfl
  | prepareRound hstate hround => exact h.eventPrepareRound hround
  | prepared failed env hstate hround hrefused =>
    exact (h.refuseWrites env _ fun s hs => (hrefused s hs).1).setState _
  | wakeup env hstate hs => exact h.processWakeup hs env
  | timerRound hstate hround => exact h.processTimerRound horderly hround
  | waited answer hstate => exact h.setState _
  | dispatch hstate hposts =>
    exact h.sdEventDispatch _ fun z hz => ((hposts.2 z.1).mp (mem_map_of_mem hz)).1
  | @returned callback s calling r env hcalling =>
    have hdone : Consistent { e with calling := calling } := h.congr rfl rfl rfl rfl rfl
    exact hdone.callbackReturned callback s r env

theorem consistent_sdEventNew : Consistent sdEventNew where
  listed := ⟨nodup_nil, fun _ => by simp [sdEventNew], fun _ ht => absurd ht (Nat.lt_irrefl 0), fun _ _ => rfl,
    Nat.zero_le _⟩
  own q := by
    refine ⟨⟨isTotalPreorder_comap q.isTotalPreorder_compare sdEventNew.sources, Nat.zero_le _, ?_, ?_⟩, ?_⟩
    · intro i j _ a b ha
      cases ha
    · intro i x c hx
      cases hx
    · intro x hx
      cases hx
  mem q t := by
    refine iff_of_false ?_ fun hmem => Bool.false_ne_true hmem.1
    rintro ⟨x, hx, -⟩
    cases hx

/-- The queues are in order: each holds the sources of the loop that belong into it, as a heap under its
    comparison of what the sources are now, and the next source to be dispatched is one that is enabled and
    pending and has minimal priority among these. -/
structure InOrder (e : EventLoop) : Prop where
  pending : ∀ s, e.Has .pending s ↔ (e.sources s).connected ∧ (e.sources s).pending
  prepare : ∀ s, e.Has .prepare s ↔ (e.sources s).connected ∧ (e.sources s).prepare.isSome
  exit : ∀ s, e.Has .exit s ↔ (e.sources s).connected ∧ (e.sources s).type = .exit
  monotonic : ∀ s q, q = .earliest .monotonic ∨ q = .latest .monotonic →
    (e.Has q s ↔ (e.sources s).connected ∧
      ((e.sources s).ratelimited ∨ (e.sources s).type = .timeMonotonic ∧ ¬(e.sources s).ratelimited))
  clock : ∀ s (c : EventClock) q, c ≠ .monotonic → q = .earliest c ∨ q = .latest c →
    (e.Has q s ↔ (e.sources s).connected ∧ (e.sources s).type = c.type ∧ ¬(e.sources s).ratelimited)
  ordered : ∀ q i x y, 0 < i → (e.items q)[(i - 1) / 2]? = some x → (e.items q)[i]? = some y →
    q.compare (e.sources x.data) (e.sources y.data) ≤ 0
  next : ∀ p, e.eventNextPending = some p →
    ((e.sources p).connected ∧ (e.sources p).pending ∧ (e.sources p).isOnline) ∧
      ∀ s, (e.sources s).connected → (e.sources s).pending → (e.sources s).isOnline →
        (e.sources p).priority ≤ (e.sources s).priority
  none : e.eventNextPending = none → ∀ s, (e.sources s).connected → (e.sources s).pending →
    ¬(e.sources s).isOnline

/-- Enabled sources without a rate limit come before all others. -/
theorem online_of_pendingPrioqCompare {x y : EventSource} (h : pendingPrioqCompare x y ≤ 0) (hy : y.isOnline) :
    x.isOnline ∧ x.priority ≤ y.priority := by
  unfold EventSource.isOnline at hy ⊢
  obtain ⟨henabled, hlimited⟩ := Bool.and_eq_true_iff.mp hy
  have hyoff : (y.enabled == .off) = false := beq_eq_false_iff_ne.mpr (of_decide_eq_true henabled)
  have hyfree : y.ratelimited = false := by
    rw [← Bool.not_eq_true']
    exact hlimited
  have hless : threeWay true false = 1 := by decide
  have hsame : threeWay false false = 0 := by decide
  have hone : ∀ r, lexCompare 1 r = 1 := fun r => if_pos one_ne_zero
  have hzero : ∀ r, lexCompare 0 r = r := fun r => if_neg (not_not.mpr rfl)
  unfold pendingPrioqCompare at h
  rw [hyoff, hyfree] at h
  cases hxoff : x.enabled == .off with
  | true =>
    rw [hxoff, hless, hone] at h
    exact absurd h (by decide)
  | false =>
    cases hxfree : x.ratelimited with
    | true =>
      rw [hxoff, hxfree, hsame, hless, hzero, hone] at h
      exact absurd h (by decide)
    | false =>
      have hne : x.enabled ≠ .off := beq_eq_false_iff_ne.mp hxoff
      refine ⟨by simp [hne], ?_⟩
      by_contra hlt
      have hpriority : threeWay x.priority y.priority = 1 := by
        rw [threeWay, if_neg (by omega), if_pos (by omega)]
      rw [hxoff, hxfree, hpriority, hsame, hzero, hzero, hone] at h
      exact absurd h (by decide)

theorem isOnline_of_not_isOffline {x : EventSource} (h : ¬x.isOffline) : x.isOnline := by
  unfold EventSource.isOffline at h
  unfold EventSource.isOnline
  rw [Bool.or_eq_true, not_or] at h
  rw [Bool.and_eq_true, Bool.not_eq_true', Bool.eq_false_iff]
  exact ⟨decide_eq_true fun hoff => h.1 (decide_eq_true hoff), h.2⟩

theorem Consistent.inOrder (h : Consistent e) : InOrder e where
  pending s := h.mem .pending s
  prepare s := h.mem .prepare s
  exit s := (h.mem .exit s).trans (and_congr_right fun _ => decide_eq_true_iff)
  monotonic s q hq := by
    have hplace := (h.mem q s).trans (and_congr_right fun _ =>
      EventPlaces.has_of_clock (EventQueue.clock_eq_some.mpr hq))
    refine hplace.trans (and_congr_right fun _ => ?_)
    change (e.sources s).timeClock = some .monotonic ↔ _
    unfold EventSource.timeClock
    cases hlimited : (e.sources s).ratelimited with
    | true => simp
    | false => cases htype : (e.sources s).type <;> simp [EventSourceType.clock]
  clock s c q hc hq := by
    have hplace := (h.mem q s).trans (and_congr_right fun _ =>
      EventPlaces.has_of_clock (EventQueue.clock_eq_some.mpr hq))
    refine hplace.trans (and_congr_right fun _ => ?_)
    change (e.sources s).timeClock = some c ↔ _
    unfold EventSource.timeClock
    cases hlimited : (e.sources s).ratelimited with
    | true => simp [Ne.symm hc]
    | false => cases htype : (e.sources s).type <;> cases c <;> simp [EventSourceType.clock, EventClock.type]
  ordered q i x y hi hx hy := (h.own q).valid.ordered (Lib.BinaryHeap.parent i) i (Lib.BinaryHeap.isChild_parent hi) x y hx hy
  next p hp := by
    unfold eventNextPending at hp
    split at hp
    · cases hp
    next p' hpeek =>
    split at hp
    · cases hp
    next honline =>
      cases hp
      obtain ⟨hconnected, hpending⟩ := (h.mem .pending p).mp (has_of_prioqPeek hpeek)
      refine ⟨⟨hconnected, hpending, isOnline_of_not_isOffline honline⟩, fun s hs hspending hsonline => ?_⟩
      have hle := (h.own .pending).valid.prioqPeek_le hpeek ((h.mem .pending s).mpr ⟨hs, hspending⟩)
      exact (online_of_pendingPrioqCompare hle hsonline).2
  none hnone s hs hpending honline := by
    have hin := (h.mem .pending s).mpr ⟨hs, hpending⟩
    unfold eventNextPending at hnone
    split at hnone
    next hpeek => exact Prioq.not_has_of_prioqPeek hpeek s hin
    next p hpeek =>
    split at hnone
    next hoffline =>
      have hp := (online_of_pendingPrioqCompare ((h.own .pending).valid.prioqPeek_le hpeek hin) honline).1
      unfold EventSource.isOnline at hp
      unfold EventSource.isOffline at hoffline
      rw [Bool.and_eq_true, Bool.not_eq_true', decide_eq_true_iff] at hp
      rw [Bool.or_eq_true, decide_eq_true_iff, hp.2] at hoffline
      exact hoffline.elim hp.1 Bool.false_ne_true
    · cases hnone

theorem consistent_of_orderly {evs : List LoopEvent} (hrun : Run OrderlyStep sdEventNew evs e) : Consistent e :=
  hrun.invariant consistent_sdEventNew fun h hstep => h.step hstep

/-- In every run in which no source is switched on while it is off and rate-limited, no time source that is
    off leaves its rate limit and there is memory for the prepare callbacks that are set (`OrderlyStep`), the
    queues are `InOrder` after every step. -/
theorem inOrder_of_orderly {evs : List LoopEvent} (hrun : Run OrderlyStep sdEventNew evs e) : InOrder e :=
  (consistent_of_orderly hrun).inOrder

/-! ## A source that is off while it is rate-limited -/

/-- The events of an iteration without prepare callbacks in which something is dispatched. -/
def iterationEvents (env : DispatchEnv) : List LoopEvent :=
  [.prepare, .prepared [] false env.toEventEnv, .waited .processed, .dispatch env]

/-- Such an iteration. -/
def iterationOf (e : EventLoop) (env : DispatchEnv) : EventLoop :=
  ({ e with iteration := (e.iteration + 1) % 2 ^ 64, state := .pending }.sdEventDispatch env).1

theorem eventPrepareRound_of_none (h : e.prioqPeek .prepare = none) : e.eventPrepareRound = none := by
  unfold eventPrepareRound
  rw [h]

theorem waited_of_next (hstate : e.state = .armed) (hnext : e.eventNextPending.isSome) :
    Step e (.waited .processed) { e with state := .pending } := by
  have hstep := Step.waited .processed hstate
  rw [if_pos hnext] at hstep
  exact hstep

theorem run_iterationOf {env : DispatchEnv} (hstate : e.state = .initial) (hexit : e.exitRequested = false)
    (hprepare : e.prioqPeek .prepare = none) (hnext : e.eventNextPending.isSome)
    (hposts : e.IsPostSources (env.posts.map Prod.fst)) :
    Run OrderlyStep e (iterationEvents env) (iterationOf e env) := by
  have hpreparing : Step e .prepare { e with iteration := (e.iteration + 1) % 2 ^ 64, state := .preparing } := by
    have hstep := Step.prepare hstate
    rw [sdEventPrepare, if_neg (by rw [hexit]; decide)] at hstep
    exact hstep
  have harmed : Step { e with iteration := (e.iteration + 1) % 2 ^ 64, state := .preparing }
      (.prepared [] false env.toEventEnv) { e with iteration := (e.iteration + 1) % 2 ^ 64, state := .armed } :=
    Step.prepared false env.toEventEnv rfl (eventPrepareRound_of_none hprepare) fun s hs => absurd hs not_mem_nil
  have hwaited : Step { e with iteration := (e.iteration + 1) % 2 ^ 64, state := .armed } (.waited .processed)
      { e with iteration := (e.iteration + 1) % 2 ^ 64, state := .pending } := waited_of_next rfl hnext
  exact .cons ⟨hpreparing, trivial⟩ (.cons ⟨harmed, trivial⟩ (.cons ⟨hwaited, trivial⟩
    (.single ⟨Step.dispatch rfl hposts, trivial⟩)))

theorem Consistent.isPostSources_nil (h : Consistent e) (hnone : ∀ s ∈ e.list, (e.sources s).type ≠ .post) :
    e.IsPostSources [] := by
  refine ⟨nodup_nil, fun s => iff_of_false not_mem_nil ?_⟩
  rintro ⟨hs, htype⟩
  exact hnone s ((h.listed.mem s).mpr hs) htype

/-- There is memory, and the kernel does what it is asked for. -/
def sampleEnv : EventEnv where
  putPending := true
  putPrepare := true
  putExit := true
  putEarliest := true
  putLatest := true
  alloc := true
  registered := .ok ()
  setupClock := .ok ()
  now := 0

def sampleDispatch (now : Nat) : DispatchEnv :=
  { sampleEnv with now := now, posts := [], writeRefused := false, memoryPressure := .dispatch }

/-- A defer source that may run once in 100 microseconds. -/
def busyLoop : EventLoop :=
  let e := (sdEventNew.sdEventAddDefer sampleEnv).1
  let e := (e.sdEventSourceSetEnabled 0 .on sampleEnv).1
  (e.sdEventSourceSetRatelimit 0 100 1 sampleEnv).1

/-- It has run at the time 50. -/
def ranLoop : EventLoop :=
  { busyLoop.iterationOf (sampleDispatch 50) with calling := [] }.callbackReturned .dispatch 0 0 sampleEnv

/-- It was due again at 60, is switched off while it waits for 150, and there is a timer for 200. -/
def waitingLoop : EventLoop :=
  let e := ranLoop.iterationOf (sampleDispatch 60)
  let e := (e.sdEventSourceSetEnabled 0 .off sampleEnv).1
  (e.sdEventAddTime .monotonic 200 1 sampleEnv).1

def waitingEvents : List LoopEvent :=
  [.addDefer sampleEnv, .setEnabled 0 .on sampleEnv, .setRatelimit 0 100 1 sampleEnv] ++
    (iterationEvents (sampleDispatch 50) ++ ([.returned 0 sampleEnv] ++ (iterationEvents (sampleDispatch 60) ++
      [.setEnabled 0 .off sampleEnv, .addTime .monotonic 200 1 sampleEnv])))

theorem run_busyLoop : Run OrderlyStep sdEventNew
    [.addDefer sampleEnv, .setEnabled 0 .on sampleEnv, .setRatelimit 0 100 1 sampleEnv] busyLoop := by
  refine .cons ⟨.addDefer _ _, ?_⟩ (.cons ⟨.setEnabled _ _ ?_, ?_⟩ (.single ⟨.setRatelimit _ _ _ ?_, ?_⟩))
  · change HasRoom _
    unfold HasRoom
    decide +kernel
  · unfold Referenced
    decide +kernel
  · change KeepsLimited _ _ _
    unfold KeepsLimited
    decide +kernel
  · unfold Referenced
    decide +kernel
  · change LeavesOn _ _ _
    unfold LeavesOn
    decide +kernel

theorem run_ranLoop : Run OrderlyStep busyLoop (iterationEvents (sampleDispatch 50) ++ [.returned 0 sampleEnv]) ranLoop := by
  have hcons : Consistent busyLoop := consistent_of_orderly run_busyLoop
  refine (run_iterationOf ?_ ?_ ?_ ?_ (hcons.isPostSources_nil ?_)).append (.single ⟨.returned 0 sampleEnv ?_, trivial⟩)
  · decide +kernel
  · decide +kernel
  · decide +kernel
  · decide +kernel
  · decide +kernel
  · decide +kernel

theorem run_waitingLoop : Run OrderlyStep sdEventNew waitingEvents waitingLoop := by
  have hran := run_busyLoop.append run_ranLoop
  have hcons : Consistent ranLoop := consistent_of_orderly hran
  have hiteration : Run OrderlyStep ranLoop (iterationEvents (sampleDispatch 60)) (ranLoop.iterationOf (sampleDispatch 60)) :=
    run_iterationOf ?_ ?_ ?_ ?_ (hcons.isPostSources_nil ?_)
  have hlimited := hran.append hiteration
  refine hlimited.append (.cons ⟨.setEnabled _ _ ?_, ?_⟩ (.single ⟨.addTime _ _ _ _ _, ?_⟩))
  · unfold Referenced
    decide +kernel
  · change KeepsLimited _ _ _
    unfold KeepsLimited
    decide +kernel
  · change HasRoom _
    unfold HasRoom
    decide +kernel
  · decide +kernel
  · decide +kernel
  · decide +kernel
  · decide +kernel
  · decide +kernel

theorem inOrder_of_orderly_waitingLoop :
    Run OrderlyStep sdEventNew waitingEvents waitingLoop ∧ InOrder waitingLoop :=
  ⟨run_waitingLoop, inOrder_of_orderly run_waitingLoop⟩

/-- The source is switched on again: now it waits for 150 behind the timer for 200. -/
theorem not_inOrder_of_limited :
    ∃ e, Run Step sdEventNew (waitingEvents ++ [.setEnabled 0 .on sampleEnv]) e ∧
      (e.sources 0).timeEventSourceNext = 150 ∧ (e.sources 1).timeEventSourceNext = 200 ∧
      e.prioqPeek (.earliest .monotonic) = some 1 ∧ ¬InOrder e := by
  have href : Referenced waitingLoop 0 := by
    unfold Referenced
    decide +kernel
  let e : EventLoop := (waitingLoop.sdEventSourceSetEnabled 0 .on sampleEnv).1
  have hitems : e.items (.earliest .monotonic) = [⟨1, some 1⟩, ⟨0, some 0⟩] := by decide +kernel
  refine ⟨e, (run_waitingLoop.mono And.left).append (.single (.setEnabled _ _ href)), ?_, ?_, ?_, fun h => ?_⟩
  · decide +kernel
  · decide +kernel
  · decide +kernel
  · have hle := h.ordered (.earliest .monotonic) 1 ⟨1, some 1⟩ ⟨0, some 0⟩ Nat.one_pos (by rw [hitems]; rfl)
      (by rw [hitems]; rfl)
    have hlt : ¬EventQueue.compare (.earliest .monotonic) (e.sources 1) (e.sources 0) ≤ 0 := by decide +kernel
    exact hlt hle

end EventLoop

end Elogind
