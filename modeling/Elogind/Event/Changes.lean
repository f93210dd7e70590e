/-
  Elogind.Event.Changes

  What changes a source of an event loop leaves the queues in order (sd-event.c): the flag that marks it
  as pending, its references, its end, switching it on and off, and its properties.
-/

import Elogind.Event.Places

namespace Elogind

open Lib

namespace EventLoop

/-! ## What is left alone -/

section Kept

/-- What keeps a source in the loop is left alone. -/
def Kept (e e' : EventLoop) : Prop :=
  ∀ t, (e'.sources t).connected = (e.sources t).connected ∧ (e'.sources t).nRef = (e.sources t).nRef

/-- So is all else but what says that it is pending. -/
def Marked (e e' : EventLoop) : Prop :=
  ∀ t, ∃ b n, e'.sources t = { e.sources t with pending := b, pendingIteration := n }

variable {e e' e'' : EventLoop}

theorem Kept.refl (e : EventLoop) : Kept e e := fun _ => ⟨rfl, rfl⟩

theorem Kept.trans (h : Kept e e') (h' : Kept e' e'') : Kept e e'' := fun t =>
  ⟨(h' t).1.trans (h t).1, (h' t).2.trans (h t).2⟩

theorem Kept.of_sources (h : e'.sources = e.sources) : Kept e e' := fun t => by rw [h]; exact ⟨rfl, rfl⟩

theorem kept_modify (e : EventLoop) (s : Nat) {f : EventSource → EventSource}
    (hconnected : ∀ x, (f x).connected = x.connected) (href : ∀ x, (f x).nRef = x.nRef) : Kept e (e.modify s f) := by
  intro t
  by_cases ht : t = s
  · subst ht
    rw [sources_modify_self]
    exact ⟨hconnected _, href _⟩
  · rw [sources_modify_of_ne e s f ht]
    exact ⟨rfl, rfl⟩

theorem Marked.refl (e : EventLoop) : Marked e e := fun _ => ⟨_, _, rfl⟩

theorem Marked.of_sources (h : e'.sources = e.sources) : Marked e e' := fun t => ⟨_, _, by rw [h]⟩

theorem Marked.trans (h : Marked e e') (h' : Marked e' e'') : Marked e e'' := by
  intro t
  obtain ⟨b, n, hb⟩ := h t
  obtain ⟨b', n', hb'⟩ := h' t
  exact ⟨b', n', by rw [hb', hb]⟩

theorem Marked.kept (h : Marked e e') : Kept e e' := by
  intro t
  obtain ⟨b, n, ht⟩ := h t
  rw [ht]
  exact ⟨rfl, rfl⟩

theorem marked_modify (e : EventLoop) (s : Nat) {f : EventSource → EventSource}
    (hf : ∀ x, ∃ b n, f x = { x with pending := b, pendingIteration := n }) : Marked e (e.modify s f) := by
  intro t
  by_cases ht : t = s
  · subst ht
    rw [sources_modify_self]
    exact hf _
  · rw [sources_modify_of_ne e s f ht]
    exact ⟨_, _, rfl⟩

@[simp] theorem sources_ppPrioqReshuffle (e : EventLoop) (s : Nat) :
    (e.eventSourcePpPrioqReshuffle s).sources = e.sources := by
  unfold eventSourcePpPrioqReshuffle
  dsimp only
  split <;> split <;> rfl

@[simp] theorem sources_timePrioqReshuffle (e : EventLoop) (s : Nat) :
    (e.eventSourceTimePrioqReshuffle s).sources = e.sources := by
  unfold eventSourceTimePrioqReshuffle
  split <;> rfl

theorem marked_sourceSetPending (e : EventLoop) (s : Nat) (b putPending : Bool) :
    Marked e (e.sourceSetPending s b putPending).1 := by
  have hpending : ∀ (e : EventLoop) b, Marked e (e.modify s fun x => { x with pending := b }) := fun e b =>
    marked_modify e s fun _ => ⟨_, _, rfl⟩
  have hiteration : ∀ (e : EventLoop) n, Marked e (e.modify s fun x => { x with pendingIteration := n }) :=
    fun e n => marked_modify e s fun _ => ⟨_, _, rfl⟩
  have hend : ∀ e : EventLoop,
      Marked e (if (e.sources s).type.isTime then e.eventSourceTimePrioqReshuffle s else e) := by
    intro e
    split
    · exact .of_sources (sources_timePrioqReshuffle e s)
    · exact .refl e
  unfold sourceSetPending
  split
  · exact .refl e
  · cases b with
    | true =>
      dsimp only
      rw [if_pos rfl]
      refine (hpending e true).trans ((hiteration _ e.iteration).trans ?_)
      split
      · exact (Marked.of_sources rfl).trans (hpending _ false)
      · exact (Marked.of_sources rfl).trans (hend _)
    | false =>
      exact (hpending e false).trans ((Marked.of_sources rfl).trans (hend _))

end Kept

/-! ## Consistent event loops -/

section Consistent

variable {e : EventLoop} {s : Nat} {x : EventSource} {p : EventPlaces}

/-- What does not say where sources stand does not matter. -/
theorem Consistent.congr {e' : EventLoop} (h : Consistent e) (hsources : e'.sources = e.sources)
    (hallocated : e'.allocated = e.allocated) (hlist : e'.list = e.list) (hitems : e'.items = e.items)
    (hindex : e'.index = e.index) : Consistent e' := by
  have hqueue : ∀ q, e'.queue q = e.queue q := by
    intro q
    unfold queue
    rw [hsources, hitems, hindex]
  refine ⟨⟨hlist ▸ h.listed.nodup, ?_, ?_, ?_, hlist ▸ h.listed.room⟩, ?_, ?_⟩
  · rw [hlist, hsources]
    exact h.listed.mem
  · rw [hsources]
    exact h.listed.live
  · rw [hallocated, hsources]
    exact h.listed.fresh
  · intro q
    rw [hqueue]
    exact h.own q
  · intro q t
    rw [hsources, ← h.mem, Has, Has, hqueue]

/-- A change that no queue notices. -/
theorem Consistent.modify {f : EventSource → EventSource} (h : Consistent e)
    (hconnected : (f (e.sources s)).connected = (e.sources s).connected)
    (hlive : 0 < (f (e.sources s)).nRef → (e.sources s).connected)
    (hplaces : (f (e.sources s)).places = (e.sources s).places)
    (hsame : ∀ q, (e.sources s).places.Has q → q.Same (e.sources s) (f (e.sources s))) :
    Consistent (e.modify s f) := by
  by_cases hs : (e.sources s).connected
  · have hshape : Shape (e.modify s f) s (f (e.sources s)) (fun _ => True) (e.sources s).places.Has :=
      (h.shape rfl hs).modify hconnected fun q _ hin => ⟨trivial, hsame q hin⟩
    exact hshape.consistent (fun _ _ => trivial) fun q => by rw [hplaces]
  · have hout : ∀ q, ¬e.Has q s := fun q hin => hs ((h.mem q s).mp hin).1
    have hother : ∀ t, t ≠ s → (e.modify s f).sources t = e.sources t := fun t => sources_modify_of_ne e s f
    refine ⟨h.listed.modify hconnected hlive, fun q => ?_, fun q t => ?_⟩
    · refine (h.own q).congr (isTotalPreorder_comap q.isTotalPreorder_compare (e.modify s f).sources)
        (fun a b ha hb => ?_) fun _ _ => rfl
      have hne : ∀ t, (e.queue q).Has t → t ≠ s := by
        rintro t hin rfl
        exact hout q hin
      rw [hother a (hne a ha), hother b (hne b hb)]
      rfl
    · by_cases ht : t = s
      · subst ht
        refine iff_of_false (hout q) fun hmem => hs ?_
        rw [← hconnected, ← sources_modify_self e t f]
        exact hmem.1
      · rw [hother t ht]
        exact h.mem q t

theorem modify_modify (e : EventLoop) (s : Nat) (f g : EventSource → EventSource) :
    (e.modify s f).modify s g = e.modify s (g ∘ f) := by
  unfold EventLoop.modify
  simp only [Function.update_self, Function.update_idem, Function.comp_apply]

/-! ## Pending -/

/-- The flag `pending` matters to the queues of its clock only. -/
theorem same_pending {q : EventQueue} {b : Bool} {n : Nat} (hin : x.places.Has q)
    (hq : q.clock = none ∨ ¬x.type.isTime) (hn : q ≠ .pending ∨ n = x.pendingIteration) :
    q.Same x { x with pending := b, pendingIteration := n } := by
  have hlimited : q.clock.isSome → x.ratelimited := by
    intro hclock
    obtain ⟨c, hc⟩ := Option.isSome_iff_exists.mp hclock
    have hplace := (EventPlaces.has_of_clock hc).mp hin
    have htime := hq.resolve_left (by rw [hc]; exact Option.some_ne_none c)
    change x.timeClock = some c at hplace
    unfold EventSource.timeClock at hplace
    by_contra hnot
    rw [if_neg hnot] at hplace
    exact htime (by unfold EventSourceType.isTime; rw [hplace]; rfl)
  have hcandidate : q.clock.isSome →
      ({ x with pending := b, pendingIteration := n } : EventSource).timerCandidate = x.timerCandidate := by
    intro hclock
    unfold EventSource.timerCandidate
    rw [hlimited hclock, Bool.or_true, Bool.or_true]
  refine ⟨rfl, fun hp => ⟨rfl, rfl, hn.resolve_left (not_not.mpr hp)⟩, fun _ => ⟨rfl, rfl, rfl⟩, fun _ => rfl,
    fun c hc => ⟨hcandidate (by rw [hc]; rfl), rfl⟩, fun c hc => ⟨hcandidate (by rw [hc]; rfl), rfl⟩⟩

/-- The end of `source_set_pending`. -/
theorem Shape.setPendingEnd (h : Shape e s x (fun q => q.clock = none ∨ ¬x.type.isTime) x.places.Has) :
    Consistent (if (e.sources s).type.isTime then e.eventSourceTimePrioqReshuffle s else e) := by
  rw [h.value]
  by_cases htime : x.type.isTime
  · rw [if_pos htime]
    refine (h.timePrioqReshuffle rfl).consistent (fun q _ => ?_) fun _ => Iff.rfl
    cases hq : q.clock with
    | none => exact .inr (.inl rfl)
    | some c => exact .inl rfl
  · rw [if_neg htime]
    exact h.consistent (fun _ _ => .inr htime) fun _ => Iff.rfl

@[simp] theorem iteration_modify (e : EventLoop) (s : Nat) (f : EventSource → EventSource) :
    (e.modify s f).iteration = e.iteration := rfl

theorem Consistent.sourceSetPending (h : Consistent e) (hs : (e.sources s).connected) (b putPending : Bool) :
    Consistent (e.sourceSetPending s b putPending).1 := by
  unfold EventLoop.sourceSetPending
  split
  · exact h
  next hb =>
  obtain ⟨x, hx⟩ : ∃ x, e.sources s = x := ⟨_, rfl⟩
  rw [hx] at hb hs
  have hflag : Shape (e.modify s fun x => { x with pending := b }) s { x with pending := b }
      (fun q => q.clock = none ∨ ¬x.type.isTime) x.places.Has :=
    (h.shape hx hs).modify rfl fun q hq hin => ⟨trivial, same_pending hin hq (.inr rfl)⟩
  cases b with
  | true =>
    have hout : ¬x.places.Has .pending := fun hin => hb (by rw [show x.pending = true from hin]; rfl)
    dsimp only
    rw [if_pos rfl, iteration_modify]
    cases putPending with
    | false =>
      rw [prioqPut_failed]
      dsimp only
      rw [if_pos (by decide), modify_modify, modify_modify]
      have hpending : x.pending = false := Bool.eq_false_iff.mpr hout
      refine h.modify rfl (fun _ => hx ▸ hs) ?_ fun q hin => ?_
      · rw [hx]
        unfold EventSource.places
        rw [hpending]
        rfl
      · rw [hx] at hin ⊢
        have hcandidate : ∀ n, ({ x with pending := false, pendingIteration := n } : EventSource).timerCandidate =
            x.timerCandidate := fun n => by unfold EventSource.timerCandidate; rw [hpending]
        exact ⟨rfl, fun hq => absurd (hq ▸ hin) hout, fun _ => ⟨rfl, rfl, rfl⟩, fun _ => rfl,
          fun _ _ => ⟨hcandidate _, rfl⟩, fun _ _ => ⟨hcandidate _, rfl⟩⟩
    | true =>
      have hmarked : Shape ((e.modify s fun x => { x with pending := true }).modify s fun x =>
          { x with pendingIteration := e.iteration }) s { x with pending := true, pendingIteration := e.iteration }
          (fun q => q.clock = none ∨ ¬x.type.isTime) x.places.Has :=
        hflag.modify rfl fun q hq hin => ⟨hq, ⟨rfl, fun heq => absurd (heq ▸ hin) hout, fun _ => ⟨rfl, rfl, rfl⟩,
          fun _ => rfl, fun _ _ => ⟨rfl, rfl⟩, fun _ _ => ⟨rfl, rfl⟩⟩⟩
      obtain ⟨e', heq, hput⟩ := hmarked.prioqPut (q := .pending) fun q' hindex hin =>
        hout (EventQueue.eq_of_index (q := .pending) rfl hindex ▸ hin)
      rw [heq]
      refine (hput.weaken (fun q hq _ => .inr hq) fun q => ?_).setPendingEnd
      cases q <;> simp [EventPlaces.Has, EventSource.places, EventSource.timeClock]
  | false =>
    have hremoved := hflag.prioqRemove (q := .pending) (fun _ => .inl rfl) fun q' hne hindex =>
      absurd (EventQueue.eq_of_index rfl hindex) hne
    refine (hremoved.weaken (fun q hq _ => hq) fun q => ?_).setPendingEnd
    cases q <;> simp [EventPlaces.Has, EventSource.places, EventSource.timeClock]

/-! ## Switching on and off -/

theorem sources_setPrecise (e : EventLoop) (s : Nat) (enabled : EventEnabled) (ratelimited : Bool) :
    (e.setPrecise s enabled ratelimited).sources =
      (e.modify s fun x => { x with enabled := enabled, ratelimited := ratelimited }).sources := by
  unfold EventLoop.setPrecise
  rw [sources_timePrioqReshuffle]
  split <;> rfl

theorem kept_setPrecise (e : EventLoop) (s : Nat) (enabled : EventEnabled) (ratelimited : Bool) :
    Kept e (e.setPrecise s enabled ratelimited) := by
  refine Kept.trans ?_ (.of_sources (sources_setPrecise ..))
  exact kept_modify e s (fun _ => rfl) fun _ => rfl

/-- A source in the queues of the clock where it is going to belong is switched on or off. -/
theorem Shape.setPrecise {settled : EventQueue → Prop} {enabled : EventEnabled} {ratelimited : Bool}
    (h : Shape e s x settled p.Has)
    (hp : ({ x with enabled := enabled, ratelimited := ratelimited } : EventSource).places = p) :
    Consistent ((e.setPrecise s enabled ratelimited).eventSourcePpPrioqReshuffle s) := by
  subst hp
  let x' : EventSource := { x with enabled := enabled, ratelimited := ratelimited }
  have hnew : Shape (e.modify s fun x => { x with enabled := enabled, ratelimited := ratelimited }) s x'
      (fun _ => False) x'.places.Has := h.modify rfl fun _ hq => hq.elim
  have hexit := hnew.reshuffleIf (q := .exit) rfl (b := decide (x'.type = .exit)) id
  have hpp := (hexit.timePrioqReshuffle rfl).ppPrioqReshuffle rfl rfl
  have hdone : Consistent _ := hpp.consistent (fun q _ => by cases q <;> simp [EventQueue.clock]) fun _ => Iff.rfl
  unfold EventLoop.setPrecise
  dsimp only
  rw [hnew.value]
  simpa only [decide_eq_true_eq] using hdone

/-- `event_source_offline` and `event_source_online` forget that the source is pending, and nothing else. -/
theorem Consistent.unmark (h : Consistent e) (hs : (e.sources s).connected) (P : Prop) [Decidable P] :
    Consistent (if P then (e.sourceSetPending s false true).1 else e) ∧
      Marked e (if P then (e.sourceSetPending s false true).1 else e) := by
  split
  · exact ⟨h.sourceSetPending hs false true, marked_sourceSetPending e s false true⟩
  · exact ⟨h, .refl e⟩

/-- What belongs to a source that is marked in another way. -/
theorem places_of_marked {x' : EventSource} {b : Bool} {n : Nat} (hx : x' = { x with pending := b, pendingIteration := n })
    (enabled : EventEnabled) :
    ({ x' with enabled := enabled, ratelimited := x.ratelimited } : EventSource).places = x'.places := by
  subst hx
  rfl

theorem Consistent.eventSourceOffline (h : Consistent e) (hs : (e.sources s).connected) (enabled : EventEnabled) :
    Consistent ((e.eventSourceOffline s enabled (e.sources s).ratelimited).eventSourcePpPrioqReshuffle s) := by
  obtain ⟨hcons, hmarked⟩ := h.unmark hs ((e.sources s).enabled ≠ .off ∧ enabled = .off ∧
    !(e.sources s).type.keepsPending)
  obtain ⟨b, n, hx'⟩ := hmarked s
  exact (hcons.shape rfl (by rw [hx']; exact hs)).setPrecise (places_of_marked hx' enabled)

/-- The source is switched on where it is not rate-limited. -/
theorem Consistent.eventSourceOnline (h : Consistent e) (hs : (e.sources s).connected) {enabled : EventEnabled}
    (hon : enabled ≠ .off) (hfree : (e.sources s).ratelimited = false) (registered : Except Errno Unit) :
    ∃ e' r, e.eventSourceOnline s enabled (e.sources s).ratelimited registered = (e', r) ∧
      (∀ er, r = .error er → Consistent e') ∧
      (∀ n, r = .ok n → Consistent (e'.eventSourcePpPrioqReshuffle s)) := by
  unfold EventLoop.eventSourceOnline
  obtain ⟨hcons, hmarked⟩ := h.unmark hs ((e.sources s).enabled = .off ∧ enabled ≠ .off ∧
    !(e.sources s).type.keepsPending)
  obtain ⟨b, n, hx'⟩ := hmarked s
  rw [if_neg (by simp [hon, hfree])]
  split
  · refine ⟨_, _, rfl, fun _ _ => hcons, ?_⟩
    intro n hn
    cases hn
  · refine ⟨_, _, rfl, ?_, fun _ _ => ?_⟩
    · intro er her
      cases her
    exact (hcons.shape rfl (by rw [hx']; exact hs)).setPrecise (places_of_marked hx' enabled)

/-- A source that is off and rate-limited is not switched on. -/
def KeepsLimited (e : EventLoop) (s : Nat) (m : EventEnabled) : Prop :=
  e.state ≠ .finished → m ≠ .off → (e.sources s).enabled = .off → (e.sources s).ratelimited = false

theorem Consistent.sdEventSourceSetEnabled {m : EventEnabled} (h : Consistent e) (hs : (e.sources s).connected)
    (hm : KeepsLimited e s m) (env : EventEnv) : Consistent (e.sdEventSourceSetEnabled s m env).1 := by
  unfold EventLoop.sdEventSourceSetEnabled
  dsimp only
  split
  · exact h
  next hstate =>
  split
  · exact h
  next hne =>
  split
  · exact h.eventSourceOffline hs m
  next hm' =>
  split
  next hon =>
    -- one of the two ways to be on for the other
    have hsame : ∀ y : EventEnabled, y ≠ .off → (y == EventEnabled.off) = false := by
      intro y hy
      cases y
      · exact absurd rfl hy
      · rfl
      · rfl
    refine h.modify (f := fun x => { x with enabled := m }) rfl (fun _ => hs) rfl fun q _ => ⟨?_,
      fun _ => ⟨rfl, rfl, rfl⟩, fun _ => ⟨rfl, rfl, rfl⟩, fun _ => rfl, fun _ _ => ⟨rfl, rfl⟩, fun _ _ => ⟨rfl, rfl⟩⟩
    rw [hsame _ hm', hsame _ hon]
  next hoff =>
    obtain ⟨e', r, heq, herror, hok⟩ :=
      h.eventSourceOnline hs hm' (hm hstate hm' (not_not.mp hoff)) env.registered
    rw [heq]
    cases r with
    | error er => exact herror er rfl
    | ok n => exact hok n rfl

end Consistent

end EventLoop

end Elogind
