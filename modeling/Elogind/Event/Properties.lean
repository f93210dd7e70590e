/-
  Elogind.Event.Properties

  What the functions that set properties of a source of an event loop, and those that begin and end a rate
  limit, leave behind (sd-event.c): the queues stay in order as long as memory for the queue of prepare
  callbacks is there, and no time source that is off leaves its rate limit.
-/

import Elogind.Event.Lifetimes

namespace Elogind

open Lib

namespace EventLoop

variable {e : EventLoop} {s : Nat} {x : EventSource} {p : EventPlaces} {settled : EventQueue → Prop}

/-! ## Priorities and times -/

theorem Consistent.sdEventSourceSetPriority (h : Consistent e) (hs : (e.sources s).connected) (priority : Int)
    (env : EventEnv) : Consistent (e.sdEventSourceSetPriority s priority env).1 := by
  have hnew : Shape (e.modify s fun x => { x with priority := priority }) s
      { e.sources s with priority := priority } (fun q => q.clock.isSome) (e.sources s).places.Has := by
    refine (h.shape rfl hs).modify rfl fun q hq _ => ⟨trivial, rfl, ?_, ?_, ?_, fun _ _ => ⟨rfl, rfl⟩,
      fun _ _ => ⟨rfl, rfl⟩⟩ <;> rintro rfl <;> cases hq
  have hpp := hnew.ppPrioqReshuffle rfl rfl
  have hexit := hpp.reshuffleIf (q := .exit) rfl (b := decide ((e.sources s).type = .exit)) id
  have hdone : Consistent _ := hexit.consistent (fun q _ => by cases q <;> simp [EventQueue.clock]) fun _ => Iff.rfl
  unfold EventLoop.sdEventSourceSetPriority
  dsimp only
  split
  · exact h
  split
  · exact h
  split
  · exact h
  · simpa only [decide_eq_true_eq] using hdone

theorem Consistent.sdEventSourceSetIoEvents (h : Consistent e) (hs : (e.sources s).connected) (env : EventEnv) :
    Consistent (e.sdEventSourceSetIoEvents s env).1 := by
  have hpending := h.sourceSetPending hs false true
  unfold EventLoop.sdEventSourceSetIoEvents
  dsimp only
  split
  · exact h
  split
  · exact h
  split
  · exact hpending
  · exact hpending

/-- The times of a source are set. -/
theorem Consistent.setTimes {f : EventSource → EventSource} (h : Consistent e) (hs : (e.sources s).connected)
    (hf : ∀ x, f x = { x with next := (f x).next, accuracy := (f x).accuracy }) :
    Consistent ((e.modify s f).eventSourceTimePrioqReshuffle s) := by
  have hplaces : ∀ x, (f x).places = x.places := fun x => by rw [hf]; rfl
  have hnew : Shape (e.modify s f) s (f (e.sources s)) (fun q => q.clock = none) (e.sources s).places.Has := by
    refine (h.shape rfl hs).modify (by rw [hf]) fun q hq _ => ⟨trivial, ?_⟩
    rw [hf]
    refine ⟨rfl, fun _ => ⟨rfl, rfl, rfl⟩, fun _ => ⟨rfl, rfl, rfl⟩, fun _ => rfl, ?_, ?_⟩
    · rintro c rfl
      cases hq
    · rintro c rfl
      cases hq
  rw [← hplaces] at hnew
  refine (hnew.timePrioqReshuffle rfl).consistent (fun q _ => ?_) fun _ => Iff.rfl
  cases hq : q.clock with
  | none => exact .inr rfl
  | some c => exact .inl rfl

theorem Consistent.sdEventSourceSetTime (h : Consistent e) (hs : (e.sources s).connected) (usec : Nat) :
    Consistent (e.sdEventSourceSetTime s usec).1 := by
  have hpending := h.sourceSetPending hs false true
  have hs' := (marked_sourceSetPending e s false true).kept s
  unfold EventLoop.sdEventSourceSetTime
  split
  · exact h
  split
  · exact h
  · exact hpending.setTimes (by rw [hs'.1]; exact hs) fun _ => rfl

theorem Consistent.sdEventSourceSetTimeAccuracy (h : Consistent e) (hs : (e.sources s).connected) (usec : Nat) :
    Consistent (e.sdEventSourceSetTimeAccuracy s usec).1 := by
  have hpending := h.sourceSetPending hs false true
  have hs' := (marked_sourceSetPending e s false true).kept s
  unfold EventLoop.sdEventSourceSetTimeAccuracy
  split
  · exact h
  split
  · exact h
  split
  · exact h
  · exact hpending.setTimes (by rw [hs'.1]; exact hs) fun _ => rfl

/-! ## Prepare callbacks -/

/-- There is memory for a source that gets its first prepare callback. -/
def PreparePuts (e : EventLoop) (s : Nat) (callback : Option Nat) (env : EventEnv) : Prop :=
  (e.sources s).type ≠ .exit → e.state ≠ .finished → callback.isSome → (e.sources s).prepare = none → env.alloc →
    env.putPrepare

theorem Consistent.sdEventSourceSetPrepare {callback : Option Nat} {env : EventEnv} (h : Consistent e)
    (hs : (e.sources s).connected) (hputs : PreparePuts e s callback env) :
    Consistent (e.sdEventSourceSetPrepare s callback env).1 := by
  have hshape := h.shape rfl hs
  have hnew : Shape (e.modify s fun x => { x with prepare := callback }) s
      { e.sources s with prepare := callback } (fun _ => True) (e.sources s).places.Has :=
    hshape.modify rfl fun q _ _ => ⟨trivial, rfl, fun _ => ⟨rfl, rfl, rfl⟩, fun _ => ⟨rfl, rfl, rfl⟩, fun _ => rfl,
      fun _ _ => ⟨rfl, rfl⟩, fun _ _ => ⟨rfl, rfl⟩⟩
  unfold EventLoop.sdEventSourceSetPrepare
  dsimp only
  split
  · exact h
  next htype =>
  split
  · exact h
  next hstate =>
  split
  · exact h
  next hne =>
  split
  next hboth =>
    refine hnew.consistent (fun _ _ => trivial) fun q => ?_
    obtain ⟨hcallback, hbefore⟩ := hboth
    cases q with
    | prepare => exact iff_of_true hbefore hcallback
    | pending | exit | earliest | latest => exact Iff.rfl
  next hboth =>
  split
  · exact h
  next halloc =>
  split
  next hcallback =>
    have hbefore : (e.sources s).prepare = none := by
      cases hprepare : (e.sources s).prepare with
      | none => rfl
      | some c => exact absurd ⟨hcallback, by rw [hprepare]; rfl⟩ hboth
    have hput : env.putPrepare = true := by
      refine hputs htype hstate hcallback hbefore ?_
      rw [← Bool.not_eq_false, ← Bool.not_eq_true']
      exact halloc
    have hout : ¬(e.sources s).places.Has .prepare := by
      intro hin
      change (e.sources s).prepare.isSome = true at hin
      rw [hbefore] at hin
      cases hin
    obtain ⟨e', heq, hdone⟩ := hnew.prioqPut (q := .prepare) fun q' hindex hin =>
      hout (EventQueue.eq_of_index (q := .prepare) rfl hindex ▸ hin)
    rw [hput, heq]
    refine hdone.consistent (fun _ _ => .inr trivial) fun q => ?_
    cases q with
    | prepare => exact iff_of_true (.inl rfl) hcallback
    | pending | exit | earliest | latest => exact or_iff_right (by rintro ⟨⟩)
  next hcallback =>
    have hdone := hnew.prioqRemove (q := .prepare) (fun _ => trivial) fun q' hne' hindex =>
      absurd (EventQueue.eq_of_index rfl hindex) hne'
    refine hdone.consistent (fun _ _ => trivial) fun q => ?_
    cases q with
    | prepare => exact iff_of_false (fun hin => hin.1 rfl) hcallback
    | pending | exit | earliest | latest => exact and_iff_right (by rintro ⟨⟩)

/-! ## Rate limits -/

/-- What a source that is not rate-limited counts does not matter. -/
theorem Consistent.modifyRateLimit {f : EventSource → EventSource} (h : Consistent e)
    (hf : ∀ x, f x = { x with rateLimit := (f x).rateLimit }) (hs : (e.sources s).ratelimited = false) :
    Consistent (e.modify s f) := by
  have hnext : (f (e.sources s)).timeEventSourceNext = (e.sources s).timeEventSourceNext := by
    rw [hf]
    unfold EventSource.timeEventSourceNext
    rw [hs, if_neg Bool.false_ne_true, if_neg Bool.false_ne_true]
  have hlatest : (f (e.sources s)).timeEventSourceLatest = (e.sources s).timeEventSourceLatest := by
    rw [hf]
    unfold EventSource.timeEventSourceLatest
    rw [hs, if_neg Bool.false_ne_true, if_neg Bool.false_ne_true]
  refine h.modify (by rw [hf]) (fun hlt => h.listed.live s ?_) (by rw [hf]; rfl) fun q _ => ?_
  · rw [hf] at hlt
    exact hlt
  · refine ⟨by rw [hf], fun _ => ?_, fun _ => ?_, fun _ => by rw [hf], fun _ _ => ⟨by rw [hf]; rfl, hnext⟩,
      fun _ _ => ⟨by rw [hf]; rfl, hlatest⟩⟩
    · rw [hf]
      exact ⟨rfl, rfl, rfl⟩
    · rw [hf]
      exact ⟨rfl, rfl, rfl⟩

theorem sources_startCallback (e : EventLoop) (callback : EventCallback) (s : Nat) :
    (e.startCallback callback s).sources = (e.modify s fun x => { x with dispatching := true }).sources := rfl

/-- The source is called back. -/
theorem Consistent.startCallback (h : Consistent e) (callback : EventCallback) (s : Nat) :
    Consistent (e.startCallback callback s) := by
  have hmodified : Consistent (e.modify s fun x => { x with dispatching := true }) :=
    h.modifyOther (fun _ => rfl) (h.listed.live s)
  exact hmodified.congr rfl rfl rfl rfl rfl

/-- There is room in the queues of a clock that the source was taken out of. -/
theorem Shape.putBack (h : Shape e s x (fun _ => True) ({ x.places with clock := none } : EventPlaces).Has)
    {c : EventClock} (hc : x.timeClock = some c) : Consistent (e.eventSourceTimePrioqPut s c true true).1 := by
  obtain ⟨e', heq, hput⟩ := h.timePrioqPut rfl c true true
  rw [heq]
  refine hput.consistent (fun _ _ => .inr trivial) fun q => ?_
  rw [Bool.true_and, if_pos rfl, ← hc]
  exact Iff.rfl

/-- A source of a type that has no clock, and that is not rate-limited, is in the queues of none. -/
theorem places_of_clock (hlimited : x.ratelimited = false) {clock : Option EventClock} (hc : x.type.clock = clock) :
    x.places = { x.places with clock := clock } := by
  unfold EventSource.places EventSource.timeClock
  rw [hlimited, if_neg Bool.false_ne_true, hc]

/-- A source in the queues of the monotonic clock gets rate-limited. -/
theorem Shape.limit (h : Shape e s x settled ({ x.places with clock := some .monotonic } : EventPlaces).Has) :
    Consistent ((e.eventSourceOffline s x.enabled true).eventSourcePpPrioqReshuffle s) := by
  unfold EventLoop.eventSourceOffline
  dsimp only
  rw [h.value, if_neg fun hoff => hoff.1 hoff.2.1]
  exact h.setPrecise rfl

theorem Consistent.eventSourceEnterRatelimited (h : Consistent e) (hs : (e.sources s).connected) (env : EventEnv) :
    Consistent (e.eventSourceEnterRatelimited s env).1 := by
  unfold EventLoop.eventSourceEnterRatelimited
  dsimp only
  split
  · exact h
  next hlimited =>
  split
  · exact h
  obtain ⟨x, hx⟩ : ∃ x, e.sources s = x := ⟨_, rfl⟩
  rw [hx] at hs hlimited ⊢
  have hlimited' : x.ratelimited = false := Bool.eq_false_iff.mpr hlimited
  have hshape := h.shape hx hs
  cases hc : x.type.clock with
  | none =>
    rw [places_of_clock hlimited' hc] at hshape
    obtain ⟨e', heq, hput⟩ := hshape.timePrioqPut rfl .monotonic env.putEarliest env.putLatest
    rw [heq]
    cases hok : env.putEarliest && env.putLatest with
    | false =>
      rw [hok, if_neg Bool.false_ne_true] at hput
      refine hput.consistent (fun _ _ => .inr trivial) fun q => ?_
      rw [places_of_clock hlimited' hc]
    | true =>
      rw [hok, if_pos rfl] at hput
      exact hput.limit
  | some c =>
    have hplaces := places_of_clock hlimited' hc
    have hout := hshape.removeFromClock (c := c) fun c' hc' => by
      rw [hplaces] at hc'
      exact (Option.some.inj hc').symm
    obtain ⟨e', heq, hput⟩ := hout.timePrioqPut rfl .monotonic env.putEarliest env.putLatest
    rw [heq]
    cases hok : env.putEarliest && env.putLatest with
    | false =>
      rw [hok, if_neg Bool.false_ne_true] at hput
      refine (hput.settle fun _ _ => .inr trivial).putBack ?_
      rw [EventSource.timeClock, hlimited', if_neg Bool.false_ne_true, hc]
    | true =>
      rw [hok, if_pos rfl] at hput
      exact hput.limit

/-- If a time source leaves its rate limit, it is not off. -/
def LeavesOn (e : EventLoop) (s : Nat) (env : EventEnv) : Prop :=
  (e.sources s).type.isTime → (e.sources s).ratelimited → env.putEarliest → env.putLatest →
    (e.sources s).enabled ≠ .off

/-- What is left when a source leaves its rate limit. -/
structure LeftLimit (s : Nat) (r : EventLoop × Except Errno Nat) : Prop where
  consistent : Consistent r.1
  unlimited : ∀ n, r.2 = .ok n → (r.1.sources s).ratelimited = false

/-- The source is where it belongs without the rate limit, and this ends. -/
theorem Shape.unlimit (h : Shape e s x settled ({ x.places with clock := x.type.clock } : EventPlaces).Has)
    (hall : ∀ q, x.places.Has q → settled q) (hoff : x.enabled = .off → x.type.clock = none)
    (registered : Except Errno Unit) :
    ∃ e' r, e.eventSourceOnline s x.enabled false registered = (e', r) ∧
      (∀ er, r = .error er → e' = e) ∧
      (∀ n, r = .ok n → Consistent (e'.eventSourcePpPrioqReshuffle s) ∧
        (e'.sources s).ratelimited = false) := by
  have hfirst : ¬(x.enabled = .off ∧ x.enabled ≠ .off ∧ !x.type.keepsPending) := fun hon => hon.2.1 hon.1
  unfold EventLoop.eventSourceOnline
  dsimp only
  rw [h.value, if_neg hfirst]
  by_cases hx : x.enabled = .off
  · rw [if_pos (.inl hx)]
    refine ⟨_, _, rfl, ?_, fun _ _ => ⟨?_, ?_⟩⟩
    · intro er her
      cases her
    · rw [hoff hx] at h
      have hnew : Shape (e.modify s fun y => { y with enabled := x.enabled, ratelimited := false }) s
          { x with ratelimited := false } (fun q => q.clock.isSome ∨ q = .exit)
          ({ x.places with clock := none } : EventPlaces).Has := by
        refine h.modify rfl fun q hq hin => ?_
        have hnone : q.clock = none := by
          cases hc : q.clock with
          | none => rfl
          | some c => cases (EventPlaces.has_of_clock hc).mp hin
        have hexit : q = .exit := hq.resolve_left (by rw [hnone]; decide)
        subst hexit
        refine ⟨hall _ hin, rfl, ?_, ?_, fun _ => rfl, ?_, ?_⟩ <;> intros <;> contradiction
      refine (hnew.ppPrioqReshuffle rfl rfl).consistent (fun q _ => by cases q <;> simp [EventQueue.clock]) fun q => ?_
      rw [← hoff hx]
      exact Iff.rfl
    · rw [sources_modify_self]
  · rw [if_neg (by simp [hx])]
    split
    · refine ⟨_, _, rfl, fun _ _ => rfl, ?_⟩
      intro n hn
      cases hn
    · refine ⟨_, _, rfl, ?_, fun _ _ => ⟨h.setPrecise rfl, ?_⟩⟩
      · intro er her
        cases her
      · rw [sources_setPrecise, sources_modify_self]

/-- The end of `event_source_leave_ratelimit`. -/
theorem Consistent.resetRateLimit {runCallback : Bool} (h : Consistent e)
    (hs : (e.sources s).ratelimited = false) :
    LeftLimit s
      (let e := e.modify s fun x => { x with rateLimit := x.rateLimit.reset }
       if runCallback && x.ratelimitExpireCallback then (e.startCallback .ratelimitExpire s, .ok 1)
       else (e, .ok 0)) := by
  have hreset : Consistent (e.modify s fun x => { x with rateLimit := x.rateLimit.reset }) :=
    h.modifyRateLimit (fun _ => rfl) hs
  split
  · refine ⟨hreset.startCallback _ s, fun _ _ => ?_⟩
    rw [sources_startCallback, sources_modify_self, sources_modify_self]
    exact hs
  · refine ⟨hreset, fun _ _ => ?_⟩
    rw [sources_modify_self]
    exact hs

theorem Consistent.eventSourceLeaveRatelimit {env : EventEnv} (h : Consistent e) (hs : (e.sources s).connected)
    (hon : LeavesOn e s env) (runCallback : Bool) :
    LeftLimit s (e.eventSourceLeaveRatelimit s runCallback env) := by
  unfold EventLoop.eventSourceLeaveRatelimit
  dsimp only
  split
  next hnot => exact ⟨h, fun _ _ => by rw [← Bool.not_eq_true']; exact hnot⟩
  next hlimited =>
  unfold LeavesOn at hon
  obtain ⟨x, hx⟩ : ∃ x, e.sources s = x := ⟨_, rfl⟩
  rw [hx] at hs hlimited hon ⊢
  have hlimited' : x.ratelimited = true := by
    rw [← Bool.not_eq_false, ← Bool.not_eq_true']
    exact hlimited
  have hmonotonic : x.timeClock = some .monotonic := by rw [EventSource.timeClock, if_pos hlimited']
  have hout := (h.shape hx hs).removeFromClock (c := .monotonic) fun c hc => by
    rw [show x.places.clock = _ from hmonotonic] at hc
    exact (Option.some.inj hc).symm
  cases hc : x.type.clock with
  | none =>
    dsimp only
    rw [if_neg (by decide)]
    have hown := hout
    rw [← hc] at hown
    obtain ⟨e', r, heq, herror, hok⟩ := hown.unlimit (fun _ _ => trivial) (fun _ => hc) env.registered
    rw [heq]
    cases r with
    | error er =>
      rw [herror er rfl]
      exact ⟨hout.putBack hmonotonic, fun n hn => by cases hn⟩
    | ok n =>
      obtain ⟨hcons, hfree⟩ := hok n rfl
      exact hcons.resetRateLimit (by rw [sources_ppPrioqReshuffle]; exact hfree)
  | some c =>
    obtain ⟨e', heq, hput⟩ := hout.timePrioqPut rfl c env.putEarliest env.putLatest
    simp only [heq]
    cases hputs : env.putEarliest && env.putLatest with
    | false =>
      rw [hputs, if_neg Bool.false_ne_true] at hput
      exact ⟨(hput.settle fun _ _ => .inr trivial).putBack hmonotonic, fun n hn => by cases hn⟩
    | true =>
      rw [hputs, if_pos rfl, ← hc] at hput
      obtain ⟨hearliest, hlatest⟩ := Bool.and_eq_true_iff.mp hputs
      have hnotoff := hon (by rw [EventSourceType.isTime, hc]; rfl) hlimited' hearliest hlatest
      obtain ⟨e'', r, heq', herror, hok⟩ :=
        hput.unlimit (fun _ _ => .inr trivial) (fun hoff => absurd hoff hnotoff) env.registered
      rw [heq']
      cases r with
      | error er =>
        rw [herror er rfl]
        have hback := (hput.settle fun _ _ => .inr trivial).removeFromClock (c := c) fun c' hc' => by
            change x.type.clock = some c' at hc'
            rw [hc'] at hc
            exact Option.some.inj hc
        exact ⟨hback.putBack hmonotonic, fun n hn => by cases hn⟩
      | ok n =>
        obtain ⟨hcons, hfree⟩ := hok n rfl
        exact hcons.resetRateLimit (by rw [sources_ppPrioqReshuffle]; exact hfree)

theorem Consistent.sdEventSourceSetRatelimit {env : EventEnv} (h : Consistent e) (hs : (e.sources s).connected)
    (hon : LeavesOn e s env) (interval burst : Nat) :
    Consistent (e.sdEventSourceSetRatelimit s interval burst env).1 := by
  have hleft := h.eventSourceLeaveRatelimit hs hon false
  unfold EventLoop.sdEventSourceSetRatelimit
  split
  · exact h
  split
  next heq =>
    rw [heq] at hleft
    exact hleft.consistent
  next heq =>
    rw [heq] at hleft
    exact hleft.consistent.modifyRateLimit (f := fun x => { x with rateLimit := ⟨interval, burst, 0, 0⟩ })
      (fun _ => rfl) (hleft.unlimited _ rfl)

theorem Consistent.sdEventSourceLeaveRatelimit {env : EventEnv} (h : Consistent e) (hs : (e.sources s).connected)
    (hon : LeavesOn e s env) : Consistent (e.sdEventSourceLeaveRatelimit s env).1 := by
  have hleft := h.eventSourceLeaveRatelimit hs hon false
  unfold EventLoop.sdEventSourceLeaveRatelimit
  dsimp only
  split
  · exact h
  split
  next heq =>
    rw [heq] at hleft
    exact hleft.consistent
  next heq =>
    rw [heq] at hleft
    exact hleft.consistent

end EventLoop

end Elogind
