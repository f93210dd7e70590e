/-
  Elogind.Event.Lifetimes

  How sources come into an event loop and how they leave it (sd-event.c).  A source that leaves is taken
  out of the queues where it can be, and one that is new is put into those where it belongs, or leaves.
-/

import Elogind.Event.Changes

namespace Elogind

open Lib EventPlaces

namespace EventLoop

variable {e : EventLoop} {s : Nat} {x : EventSource} {p : EventPlaces} {settled : EventQueue → Prop}

/-- A change to what no queue looks at. -/
theorem Consistent.modifyOther {f : EventSource → EventSource} (h : Consistent e)
    (hf : ∀ x, f x = { x with
      nRef := (f x).nRef
      dispatching := (f x).dispatching
      exitOnFailure := (f x).exitOnFailure
      ratelimitExpireCallback := (f x).ratelimitExpireCallback })
    (hlive : 0 < (f (e.sources s)).nRef → (e.sources s).connected) : Consistent (e.modify s f) := by
  refine h.modify (by rw [hf]) hlive (by rw [hf]; rfl) fun q _ => ?_
  rw [hf]
  exact ⟨rfl, fun _ => ⟨rfl, rfl, rfl⟩, fun _ => ⟨rfl, rfl, rfl⟩, fun _ => rfl, fun _ _ => ⟨rfl, rfl⟩,
    fun _ _ => ⟨rfl, rfl⟩⟩

/-! ## Leaving -/

/-- The source gets out of a queue without a clock if it can be there. -/
theorem Shape.removeIf {place : EventQueue → Prop} {q : EventQueue} (h : Shape e s x (fun _ => True) place)
    (hq : q.clock = none) {P : Prop} [Decidable P] (hP : place q → P) :
    Shape (if P then e.prioqRemove q s else e) s x (fun _ => True) fun q' => q' ≠ q ∧ place q' := by
  split
  next => exact h.prioqRemove (fun _ => trivial) fun _ hne hindex => absurd (EventQueue.eq_of_index hq hindex) hne
  next hnot =>
    refine h.weaken (fun _ _ _ => trivial) fun q' => ⟨And.right, fun hin => ⟨?_, hin⟩⟩
    rintro rfl
    exact hnot (hP hin)

/-- It gets out of the queues of the clock that it may be in. -/
theorem Shape.removeFromClock (h : Shape e s x (fun _ => True) p.Has) {c : EventClock}
    (hclock : ∀ c', p.clock = some c' → c' = c) :
    Shape (e.eventSourceTimePrioqRemove s c) s x (fun _ => True) ({ p with clock := none } : EventPlaces).Has :=
  h.timePrioqRemove hclock fun _ _ => trivial

/-- A source that is in no queue leaves the loop. -/
theorem Shape.leave {f : EventSource → EventSource} (h : Shape e s x settled fun _ => False)
    (hconnected : (f x).connected = false) (href : (f x).nRef = 0) :
    Consistent { e.modify s f with list := e.list.erase s } := by
  have hvalue := h.value
  have hself : (e.modify s f).sources s = f x := by rw [sources_modify_self, hvalue]
  have hother : ∀ t, t ≠ s → (e.modify s f).sources t = e.sources t := fun t => sources_modify_of_ne e s f
  have hout : ∀ q, ¬e.Has q s := fun q => (h.mem q).mp
  have hlisted : Listed { e.modify s f with list := e.list.erase s } := by
    refine ⟨h.listed.nodup.erase s, fun t => ?_, fun t ht => ?_, fun t ht => ?_, ?_⟩
    · rw [h.listed.nodup.mem_erase_iff]
      by_cases ht : t = s
      · subst ht
        refine iff_of_false (fun hin => hin.1 rfl) ?_
        rw [hself, hconnected]
        decide
      · rw [hother t ht, ← h.listed.mem]
        exact and_iff_right ht
    · by_cases hts : t = s
      · subst hts
        rw [hself, href] at ht
        omega
      · rw [hother t hts] at ht ⊢
        exact h.listed.live t ht
    · by_cases hts : t = s
      · subst hts
        rw [hself, hconnected]
      · rw [hother t hts]
        exact h.listed.fresh t ht
    · exact (List.length_erase_le ..).trans h.listed.room
  have hne : ∀ q t, (e.queue q).Has t → t ≠ s := by
    rintro q t hin rfl
    exact hout q hin
  refine ⟨hlisted, fun q => ?_, fun q t => ?_⟩
  · refine ((h.loose q).own (hout q)).congr (isTotalPreorder_comap q.isTotalPreorder_compare (e.modify s f).sources)
      (fun a b ha hb => ?_) fun _ _ => rfl
    rw [hother a (hne q a ha), hother b (hne q b hb)]
    rfl
  · by_cases ht : t = s
    · subst ht
      refine iff_of_false (hout q) fun hmem => ?_
      rw [hself, EventQueue.Member, hconnected] at hmem
      exact Bool.false_ne_true hmem.1
    · rw [hother t ht]
      exact h.others q t ht

/-- The places that a source has are some of those where it belongs. -/
def EventPlaces.Within (p : EventPlaces) (x : EventSource) : Prop := ∀ q, p.Has q → x.places.Has q

/-- The end of `source_disconnect`: the queues but those of a source's own clock. -/
theorem Shape.leaveQueues (h : Shape e s x (fun _ => True) p.Has) (hp : EventPlaces.Within p x)
    (hclock : ∀ c, p.clock = some c → x.ratelimited ∧ c = .monotonic) :
    Shape
      (let e := if x.type = .exit then e.prioqRemove .exit s else e
       let e := if x.pending then e.prioqRemove .pending s else e
       let e := if x.prepare.isSome then e.prioqRemove .prepare s else e
       if x.ratelimited then e.eventSourceTimePrioqRemove s .monotonic else e)
      s x (fun _ => True) fun _ => False := by
  have hexit := h.removeIf (q := .exit) rfl fun hin => of_decide_eq_true (p := x.type = .exit) (hp .exit hin)
  have hpending := hexit.removeIf (q := .pending) (P := x.pending) rfl fun hq => hp .pending hq.2
  have hprepare := hpending.removeIf (q := .prepare) (P := x.prepare.isSome) rfl fun hq => hp .prepare hq.2.2
  have hlast := hprepare.standing ⟨false, false, false, p.clock⟩ fun q => by cases q <;> simp [EventPlaces.Has]
  by_cases hlimited : x.ratelimited
  · rw [if_pos hlimited]
    exact (hlast.removeFromClock fun c hc => (hclock c hc).2).weaken (fun _ _ _ => trivial)
      fun q => iff_of_false id (not_has_nowhere q)
  · rw [if_neg hlimited]
    have hno : p.clock = none := by
      cases hc : p.clock with
      | none => rfl
      | some c => exact absurd (hclock c hc).1 hlimited
    rw [hno] at hlast
    exact hlast.weaken (fun _ _ _ => trivial) fun q => iff_of_false id (not_has_nowhere q)

theorem Shape.sourceDisconnect (h : Shape e s x (fun _ => True) p.Has) (hp : EventPlaces.Within p x) :
    ∃ e', e.sourceDisconnect s =
        { e'.modify s (fun x => { x with connected := false }) with list := e'.list.erase s } ∧
      Shape e' s x (fun _ => True) fun _ => False := by
  have hclock : ∀ c, p.clock = some c → x.timeClock = some c := fun c hc => hp (.earliest c) hc
  have hconnected : ¬(!x.connected) = true := by rw [h.connected]; decide
  unfold EventLoop.sourceDisconnect
  rw [h.value, if_neg hconnected]
  refine ⟨_, rfl, ?_⟩
  cases hx : x.ratelimited with
  | true =>
    have hmonotonic : ∀ c, p.clock = some c → x.ratelimited ∧ c = .monotonic := by
      intro c hc
      have hmono := hclock c hc
      rw [EventSource.timeClock, if_pos hx] at hmono
      exact ⟨hx, (Option.some.inj hmono).symm⟩
    have hrest := h.leaveQueues hp hmonotonic
    rw [hx] at hrest
    cases x.type.clock with
    | none => exact hrest
    | some c => exact hrest
  | false =>
    have htime : x.timeClock = x.type.clock := by rw [EventSource.timeClock, if_neg (by rw [hx]; decide)]
    rw [htime] at hclock
    cases hc : x.type.clock with
    | none =>
      rw [hc] at hclock
      have hrest := h.leaveQueues hp fun c hpc => by cases hclock c hpc
      rw [hx] at hrest
      exact hrest
    | some c =>
      rw [hc] at hclock
      have hout := h.removeFromClock fun c' hc' => (Option.some.inj (hclock c' hc')).symm
      have hwithin : EventPlaces.Within { p with clock := none } x := by
        intro q hin
        cases hq : q.clock with
        | none => exact hp q ((EventPlaces.has_of_clock_none hq none).mp hin)
        | some c' => cases (EventPlaces.has_of_clock hq).mp hin
      have hrest := hout.leaveQueues hwithin fun c' hc' => by cases hc'
      rw [hx] at hrest
      exact hrest

/-- `source_free`, of a source that has some of its places. -/
theorem Shape.sourceFree (h : Shape e s x (fun _ => True) p.Has) (hp : EventPlaces.Within p x) :
    Consistent (e.sourceFree s) := by
  obtain ⟨e', heq, hshape⟩ := h.sourceDisconnect hp
  unfold EventLoop.sourceFree
  rw [heq]
  have hleave := hshape.leave (f := fun x => { x with connected := false, nRef := 0 }) rfl rfl
  refine hleave.congr ?_ rfl rfl rfl rfl
  change ((e'.modify s fun x => { x with connected := false }).modify s fun x => { x with nRef := 0 }).sources = _
  rw [modify_modify]
  rfl

theorem Consistent.sourceFree (h : Consistent e) (s : Nat) : Consistent (e.sourceFree s) := by
  by_cases hs : (e.sources s).connected
  · exact (h.shape rfl hs).sourceFree fun _ => id
  · unfold EventLoop.sourceFree EventLoop.sourceDisconnect
    rw [if_pos (by rw [Bool.eq_false_iff.mpr hs]; rfl)]
    exact h.modifyOther (fun _ => rfl) fun hlt => absurd hlt (Nat.lt_irrefl 0)

/-- `source_disconnect`, of a source that nobody has a reference to. -/
theorem Consistent.sourceDisconnect (h : Consistent e) (href : (e.sources s).nRef = 0) :
    Consistent (e.sourceDisconnect s) := by
  by_cases hs : (e.sources s).connected
  · obtain ⟨e', heq, hshape⟩ := (h.shape rfl hs).sourceDisconnect fun _ => id
    rw [heq]
    exact hshape.leave rfl href
  · unfold EventLoop.sourceDisconnect
    rw [if_pos (by rw [Bool.eq_false_iff.mpr hs]; rfl)]
    exact h

/-! ## References -/

theorem Consistent.sdEventSourceRef (h : Consistent e) (hs : e.Referenced s) :
    Consistent (e.sdEventSourceRef s) :=
  h.modifyOther (fun _ => rfl) fun _ => h.listed.live s hs

theorem Consistent.sdEventSourceUnref (h : Consistent e) (hs : e.Referenced s) :
    Consistent (e.sdEventSourceUnref s) := by
  have hless : Consistent (e.modify s fun x => { x with nRef := x.nRef - 1 }) :=
    h.modifyOther (fun _ => rfl) fun _ => h.listed.live s hs
  unfold EventLoop.sdEventSourceUnref
  dsimp only
  split
  · exact hless
  next hzero =>
  unfold EventLoop.eventSourceFree
  split
  · exact hless.sourceDisconnect (Nat.eq_zero_of_not_pos hzero)
  · exact hless.sourceFree s

/-! ## Coming -/

/-- A new source is in no queue. -/
theorem Consistent.sourceNew (h : Consistent e) (hroom : e.list.length < 2 ^ 31) (type : EventSourceType)
    (enabled : EventEnabled) :
    ∃ x, Shape (e.sourceNew type enabled) e.allocated x (fun _ => True) (fun _ => False) ∧
      x.type = type ∧ x.places = ⟨false, false, type = .exit, type.clock⟩ := by
  let s := e.allocated
  let x : EventSource :=
    { nRef := 1, connected := true, type := type, enabled := enabled, pending := false, dispatching := false,
      exitOnFailure := false, ratelimited := false, priority := 0, pendingIteration := 0, prepareIteration := 0,
      prepare := none, ratelimitExpireCallback := false, rateLimit := ⟨0, 0, 0, 0⟩, next := 0, accuracy := 0 }
  let e₁ : EventLoop :=
    { e with
      sources := Function.update e.sources s x
      allocated := s + 1
      list := s :: e.list
      index := fun i => Function.update (e.index i) s 0 }
  have hself : e₁.sources s = x := Function.update_self ..
  have hother : ∀ t, t ≠ s → e₁.sources t = e.sources t := fun t ht => Function.update_of_ne ht ..
  have hgone : (e.sources s).connected = false := h.listed.fresh s (Nat.le_refl _)
  have hout : ∀ q, ¬e.Has q s := fun q hin => Bool.false_ne_true (hgone ▸ ((h.mem q s).mp hin).1)
  have hne : ∀ q t, (e.queue q).Has t → t ≠ s := by
    rintro q t hin rfl
    exact hout q hin
  have hlisted : Listed e₁ := by
    refine ⟨List.nodup_cons.mpr ⟨?_, h.listed.nodup⟩, fun t => ?_, fun t ht => ?_, fun t ht => ?_, hroom⟩
    · rw [h.listed.mem, hgone]
      exact Bool.false_ne_true
    · rw [List.mem_cons]
      by_cases ht : t = s
      · rw [ht, hself]
        exact iff_of_true (.inl rfl) rfl
      · rw [hother t ht, ← h.listed.mem]
        exact or_iff_right ht
    · by_cases hts : t = s
      · rw [hts, hself]
      · rw [hother t hts] at ht ⊢
        exact h.listed.live t ht
    · change s + 1 ≤ t at ht
      rw [hother t (by omega)]
      exact h.listed.fresh t (Nat.le_of_succ_le ht)
  have hown : ∀ q, Prioq.Own (e₁.queue q) := by
    intro q
    refine (h.own q).congr (isTotalPreorder_comap q.isTotalPreorder_compare e₁.sources) (fun a b ha hb => ?_)
      fun c hc => Function.update_of_ne (hne q c hc) ..
    rw [hother a (hne q a ha), hother b (hne q b hb)]
    rfl
  have hshape : Shape e₁ s x (fun _ => True) fun _ => False := by
    refine ⟨hself, rfl, hlisted, fun q => .of_own (hown q), fun q _ => hown q, fun q => ?_, fun q t ht => ?_⟩
    · exact iff_of_false (hout q) id
    · rw [hother t ht]
      exact h.mem q t
  exact ⟨x, (hshape.setIndex (i := .pending) (fun _ _ => id) _).setIndex (i := .prepare) (fun _ _ => id) _, rfl, rfl⟩

/-- A source of a type without a queue. -/
theorem Consistent.addSource {type : EventSourceType} (h : Consistent e) (hroom : e.list.length < 2 ^ 31)
    (hexit : type ≠ .exit) (hclock : type.clock = none) (enabled : EventEnabled) (env : EventEnv) :
    Consistent (e.addSource type enabled env).1 := by
  have hnew : Consistent (e.sourceNew type enabled) := by
    obtain ⟨x, hshape, -, hplaces⟩ := h.sourceNew hroom type enabled
    refine hshape.consistent (fun _ _ => trivial) fun q => iff_of_false id ?_
    rw [hplaces, hclock]
    cases q <;> simp [EventPlaces.Has, hexit]
  unfold EventLoop.addSource
  split
  · exact h
  split
  · exact h
  split
  · exact hnew.sourceFree _
  · exact hnew

theorem Consistent.sdEventAddTime (h : Consistent e) (hroom : e.list.length < 2 ^ 31) (c : EventClock)
    (usec accuracy : Nat) (env : EventEnv) : Consistent (e.sdEventAddTime c usec accuracy env).1 := by
  unfold EventLoop.sdEventAddTime
  split
  · exact h
  split
  · exact h
  split
  · exact h
  split
  · exact h
  obtain ⟨x, hshape, htype, hplaces⟩ := h.sourceNew hroom c.type .oneshot
  have hset : Shape _ _ _ (fun _ => True) _ := hshape.modify
    (f := fun x => { x with next := usec, accuracy := if accuracy = 0 then defaultAccuracyUsec else accuracy }) rfl
    fun _ _ => False.elim
  have hready := (hset.setIndex (i := .earliest) (fun _ _ => id) prioqIdxNull).setIndex (i := .latest)
    (fun _ _ => id) prioqIdxNull
  obtain ⟨e', heq, hput⟩ := (hready.standing .nowhere fun q =>
    iff_of_false (not_has_nowhere q) id).timePrioqPut rfl c env.putEarliest env.putLatest
  dsimp only
  rw [heq]
  have hc : c.type.clock = some c := by cases c <;> rfl
  have htime : c.type ≠ .exit := by cases c <;> decide
  rw [hc, decide_eq_false htime] at hplaces
  cases hok : env.putEarliest && env.putLatest with
  | false =>
    rw [hok] at hput
    exact (hput.settle fun _ _ => .inr trivial).sourceFree fun q hin => absurd hin (not_has_nowhere q)
  | true =>
    rw [hok] at hput
    refine hput.consistent (fun _ _ => .inr trivial) fun q => ?_
    change EventPlaces.Has ⟨false, false, false, some c⟩ q ↔ x.places.Has q
    rw [hplaces]

theorem Consistent.sdEventAddDefer (h : Consistent e) (hroom : e.list.length < 2 ^ 31) (env : EventEnv) :
    Consistent (e.sdEventAddDefer env).1 := by
  unfold EventLoop.sdEventAddDefer
  split
  · exact h
  split
  · exact h
  obtain ⟨x, hshape, -, hplaces⟩ := h.sourceNew hroom .defer .oneshot
  have hnew : Consistent (e.sourceNew .defer .oneshot) := by
    refine hshape.consistent (fun _ _ => trivial) fun q => iff_of_false id ?_
    rw [hplaces]
    cases q <;> simp [EventPlaces.Has, EventSourceType.clock]
  have hconnected := hshape.connected
  rw [← hshape.value] at hconnected
  have hpending := hnew.sourceSetPending hconnected true env.putPending
  dsimp only
  split
  next heq =>
    rw [heq] at hpending
    exact hpending.sourceFree _
  next heq =>
    rw [heq] at hpending
    exact hpending

theorem Consistent.sdEventAddExit (h : Consistent e) (hroom : e.list.length < 2 ^ 31) (env : EventEnv) :
    Consistent (e.sdEventAddExit env).1 := by
  unfold EventLoop.sdEventAddExit
  split
  · exact h
  split
  · exact h
  obtain ⟨x, hshape, -, hplaces⟩ := h.sourceNew hroom .exit .oneshot
  have hready := hshape.setIndex (i := .exit) (fun _ _ => id) prioqIdxNull
  dsimp only
  cases env.putExit with
  | false =>
    rw [prioqPut_failed]
    exact (hready.standing .nowhere fun q => iff_of_false (EventPlaces.not_has_nowhere q) id).sourceFree
      fun q hin => absurd hin (EventPlaces.not_has_nowhere q)
  | true =>
    obtain ⟨e', heq, hput⟩ := hready.prioqPut (q := .exit) fun _ _ => id
    rw [heq]
    refine hput.consistent (fun _ _ => .inr trivial) fun q => ?_
    rw [hplaces]
    cases q <;> simp [EventPlaces.Has, EventSourceType.clock]

end EventLoop

end Elogind
