/-
  Elogind.Event.Queues

  What the queues of an event loop hold while a source is changed (sd-event.c).  Between two changes of
  the source some queues are in order and others are in order but for the place of the source; taking
  it out, putting it in and reshuffling it lead from one such shape to the next.
-/

import Elogind.Event.Loop
import Mathlib.Data.List.Perm.Subperm

namespace Elogind

open Lib Function

/-! ## Comparing -/

section Compare

variable {D : Type}

theorem isTotalPreorder_threeWay {α : Type} [LinearOrder α] (f : D → α) :
    Prioq.IsTotalPreorder fun a b => threeWay (f a) (f b) where
  swap a b := by
    unfold threeWay
    rcases lt_trichotomy (f a) (f b) with h | h | h
    · simp [h, not_lt_of_gt h]
    · simp [h]
    · simp [h, not_lt_of_gt h]
  trans {a b c} hab hbc := by
    have hle : ∀ x y, threeWay (f x) (f y) ≤ 0 ↔ f x ≤ f y := by
      intro x y
      unfold threeWay
      rcases lt_trichotomy (f x) (f y) with h | h | h
      · simp [h, le_of_lt h]
      · simp [h]
      · simp [h, not_lt_of_gt h]
    rw [hle] at hab hbc ⊢
    exact le_trans hab hbc

theorem isTotalPreorder_lexCompare {c c' : D → D → Int} (h : Prioq.IsTotalPreorder c)
    (h' : Prioq.IsTotalPreorder c') : Prioq.IsTotalPreorder fun a b => lexCompare (c a b) (c' a b) where
  swap a b := by
    have hab := h.swap a b
    have hba := h.swap b a
    have hab' := h'.swap a b
    unfold lexCompare
    split <;> split <;> omega
  trans {x y z} hxy hyz := by
    -- with a strict step, the whole is strict
    have hstrict : ∀ {a b d}, c a b ≤ 0 → c b d ≤ 0 → (c a b < 0 ∨ c b d < 0) → c a d < 0 := by
      intro a b d hab hbd hlt
      by_contra hge
      have hda : c d a ≤ 0 := by
        have := h.swap a d
        omega
      have hba := h.trans hbd hda
      have hdb := h.trans hda hab
      have := h.swap a b
      have := h.swap b d
      omega
    have htrans := h.trans (a := x) (b := y) (c := z)
    have htrans' := h'.trans (a := x) (b := y) (c := z)
    have hstrict' := hstrict (a := x) (b := y) (d := z)
    unfold lexCompare at hxy hyz ⊢
    split at hxy <;> split at hyz <;> split <;> omega

theorem isTotalPreorder_comap {α : Type} {c : α → α → Int} (h : Prioq.IsTotalPreorder c) (f : D → α) :
    Prioq.IsTotalPreorder fun a b => c (f a) (f b) where
  swap a b := h.swap (f a) (f b)
  trans := h.trans

end Compare

namespace EventQueue

/-- The functions of the queues compare as they should. -/
theorem isTotalPreorder_compare (q : EventQueue) : Prioq.IsTotalPreorder q.compare := by
  have henabled := isTotalPreorder_threeWay fun x : EventSource => x.enabled == .off
  have hlimited := isTotalPreorder_threeWay EventSource.ratelimited
  have hpriority := isTotalPreorder_threeWay EventSource.priority
  have htime : ∀ f : EventSource → Nat, Prioq.IsTotalPreorder (timePrioqCompare f) := fun f =>
    isTotalPreorder_lexCompare henabled (isTotalPreorder_lexCompare
      (isTotalPreorder_threeWay fun x : EventSource => !x.timerCandidate) (isTotalPreorder_threeWay f))
  cases q with
  | pending =>
    exact isTotalPreorder_lexCompare henabled (isTotalPreorder_lexCompare hlimited
      (isTotalPreorder_lexCompare hpriority (isTotalPreorder_threeWay EventSource.pendingIteration)))
  | prepare =>
    exact isTotalPreorder_lexCompare henabled (isTotalPreorder_lexCompare hlimited
      (isTotalPreorder_lexCompare (isTotalPreorder_threeWay EventSource.prepareIteration) hpriority))
  | exit => exact isTotalPreorder_lexCompare henabled hpriority
  | earliest c => exact htime _
  | latest c => exact htime _

/-- What a queue looks at is the same. -/
structure Same (q : EventQueue) (x x' : EventSource) : Prop where
  enabled : (x'.enabled == .off) = (x.enabled == .off)
  pending : q = .pending →
    x'.ratelimited = x.ratelimited ∧ x'.priority = x.priority ∧ x'.pendingIteration = x.pendingIteration
  prepare : q = .prepare →
    x'.ratelimited = x.ratelimited ∧ x'.prepareIteration = x.prepareIteration ∧ x'.priority = x.priority
  exit : q = .exit → x'.priority = x.priority
  earliest : ∀ c, q = .earliest c →
    x'.timerCandidate = x.timerCandidate ∧ x'.timeEventSourceNext = x.timeEventSourceNext
  latest : ∀ c, q = .latest c →
    x'.timerCandidate = x.timerCandidate ∧ x'.timeEventSourceLatest = x.timeEventSourceLatest

theorem Same.compare {q : EventQueue} {x x' : EventSource} (h : q.Same x x') (y : EventSource) :
    q.compare x' y = q.compare x y ∧ q.compare y x' = q.compare y x := by
  cases q with
  | pending =>
    obtain ⟨hr, hp, hi⟩ := h.pending rfl
    simp only [EventQueue.compare, pendingPrioqCompare, h.enabled, hr, hp, hi, and_self]
  | prepare =>
    obtain ⟨hr, hi, hp⟩ := h.prepare rfl
    simp only [EventQueue.compare, preparePrioqCompare, h.enabled, hr, hp, hi, and_self]
  | exit => simp only [EventQueue.compare, exitPrioqCompare, h.enabled, h.exit rfl, and_self]
  | earliest c =>
    obtain ⟨hc, ht⟩ := h.earliest c rfl
    simp only [EventQueue.compare, earliestTimePrioqCompare, timePrioqCompare, h.enabled, hc, ht, and_self]
  | latest c =>
    obtain ⟨hc, ht⟩ := h.latest c rfl
    simp only [EventQueue.compare, latestTimePrioqCompare, timePrioqCompare, h.enabled, hc, ht, and_self]

/-- The clock of a queue for times. -/
def clock : EventQueue → Option EventClock
  | pending => none
  | prepare => none
  | exit => none
  | earliest c => some c
  | latest c => some c

end EventQueue

/-- Where a source stands: in the queues without a clock, or not, and in those of a clock. -/
structure EventPlaces where
  pending : Bool
  prepare : Bool
  exit : Bool
  clock : Option EventClock

namespace EventPlaces

/-- The queue is one of the places. -/
def Has (p : EventPlaces) : EventQueue → Prop
  | .pending => p.pending
  | .prepare => p.prepare
  | .exit => p.exit
  | .earliest c => p.clock = some c
  | .latest c => p.clock = some c

/-- Of the queues that share a field of the source, one at most is a place. -/
theorem Has.unique {p : EventPlaces} {q q' : EventQueue} (h : p.Has q) (h' : p.Has q')
    (hindex : q.index = q'.index) : q = q' := by
  cases q <;> cases q' <;> cases hindex
  · rfl
  · rfl
  · rfl
  · rw [Option.some.inj (Eq.trans (Eq.symm h) h')]
  · rw [Option.some.inj (Eq.trans (Eq.symm h) h')]

/-- No place at all. -/
def nowhere : EventPlaces := ⟨false, false, false, none⟩

theorem not_has_nowhere (q : EventQueue) : ¬nowhere.Has q := by
  intro h
  cases q <;> cases h

end EventPlaces

/-- Where a source belongs. -/
def EventSource.places (x : EventSource) : EventPlaces where
  pending := x.pending
  prepare := x.prepare.isSome
  exit := x.type = .exit
  clock := x.timeClock

namespace EventQueue

/-- The source belongs into the queue. -/
def Member (q : EventQueue) (x : EventSource) : Prop := x.connected ∧ x.places.Has q

/-- One field is enough for the places of a source. -/
theorem Member.unique {q q' : EventQueue} {x : EventSource} (h : q.Member x) (h' : q'.Member x)
    (hindex : q.index = q'.index) : q = q' :=
  h.2.unique h'.2 hindex

end EventQueue

namespace EventLoop

/-! ## Updates -/

section Updates

variable (e : EventLoop) (s : Nat) (f : EventSource → EventSource)

@[simp] theorem sources_modify_self : (e.modify s f).sources s = f (e.sources s) := update_self ..

@[simp] theorem sources_modify_of_ne {t : Nat} (h : t ≠ s) : (e.modify s f).sources t = e.sources t :=
  update_of_ne h ..

/-- Nothing happens to a queue. -/
theorem setQueue_queue (q : EventQueue) : e.setQueue q (e.queue q) = e := by
  unfold setQueue queue
  rw [update_eq_self, update_eq_self]

end Updates

/-! ## The list of sources -/

/-- The list holds, without repetition, the sources that belong to the loop, and these are not too many. -/
structure Listed (e : EventLoop) : Prop where
  nodup : e.list.Nodup
  mem : ∀ t, t ∈ e.list ↔ (e.sources t).connected
  live : ∀ t, 0 < (e.sources t).nRef → (e.sources t).connected
  fresh : ∀ t, e.allocated ≤ t → (e.sources t).connected = false
  room : e.list.length ≤ 2 ^ 31

theorem Listed.modify {e : EventLoop} {s : Nat} {f : EventSource → EventSource} (h : Listed e)
    (hconnected : (f (e.sources s)).connected = (e.sources s).connected)
    (hlive : 0 < (f (e.sources s)).nRef → (e.sources s).connected) : Listed (e.modify s f) := by
  have hsame : ∀ t, ((e.modify s f).sources t).connected = (e.sources t).connected := by
    intro t
    by_cases ht : t = s
    · subst ht
      rw [sources_modify_self, hconnected]
    · rw [sources_modify_of_ne e s f ht]
  refine ⟨h.nodup, fun t => by rw [hsame]; exact h.mem t, fun t ht => ?_,
    fun t ht => by rw [hsame]; exact h.fresh t ht, h.room⟩
  rw [hsame]
  by_cases hts : t = s
  · subst hts
    rw [sources_modify_self] at ht
    exact hlive ht
  · rw [sources_modify_of_ne e s f hts] at ht
    exact h.live t ht

/-! ## Shapes -/

/-- The source stands in the queue. -/
def Has (e : EventLoop) (q : EventQueue) (s : Nat) : Prop := (e.queue q).Has s

/-- The queue is in order, but perhaps for the place of the source. -/
def Loose (e : EventLoop) (s : Nat) (q : EventQueue) : Prop :=
  ∃ compare, Prioq.IsTotalPreorder compare ∧
    (∀ a b, a ≠ s → b ≠ s → compare a b = (e.queue q).compareFunc a b) ∧
    Prioq.Own { e.queue q with compareFunc := compare }

/-- While the source `s`, which has the values `x`, is changed: the queues that are `settled` are in order,
    and the others are but for the place of the source, which stands in the queues `place`.  All other
    sources are where they belong. -/
structure Shape (e : EventLoop) (s : Nat) (x : EventSource) (settled place : EventQueue → Prop) : Prop where
  value : e.sources s = x
  connected : x.connected
  listed : Listed e
  loose : ∀ q, Loose e s q
  order : ∀ q, settled q → Prioq.Own (e.queue q)
  mem : ∀ q, e.Has q s ↔ place q
  others : ∀ q t, t ≠ s → (e.Has q t ↔ q.Member (e.sources t))

/-- Every queue is in order and holds the sources that belong into it. -/
structure Consistent (e : EventLoop) : Prop where
  listed : Listed e
  own : ∀ q, Prioq.Own (e.queue q)
  mem : ∀ q t, e.Has q t ↔ q.Member (e.sources t)

section Shape

variable {e : EventLoop} {s : Nat} {x : EventSource} {q : EventQueue} {settled place : EventQueue → Prop}

theorem Loose.of_own (h : Prioq.Own (e.queue q)) : Loose e s q :=
  ⟨_, h.valid.compareFunc, fun _ _ _ _ => rfl, h⟩

/-- A queue without the source is in order. -/
theorem Loose.own (h : Loose e s q) (hout : ¬e.Has q s) : Prioq.Own (e.queue q) := by
  obtain ⟨compare, -, hsame, hown⟩ := h
  refine hown.congr (isTotalPreorder_comap q.isTotalPreorder_compare e.sources) (fun a b ha hb => ?_)
    fun _ _ => rfl
  refine (hsame a b ?_ ?_).symm
  · rintro rfl
    exact hout ha
  · rintro rfl
    exact hout hb

/-- Every change of a source starts here. -/
theorem Consistent.shape (h : Consistent e) (hvalue : e.sources s = x) (hconnected : x.connected) :
    Shape e s x (fun _ => True) x.places.Has where
  value := hvalue
  connected := hconnected
  listed := h.listed
  loose q := .of_own (h.own q)
  order q _ := h.own q
  mem q := by rw [h.mem, hvalue, EventQueue.Member, and_iff_right hconnected]
  others q t _ := h.mem q t

theorem Shape.own (h : Shape e s x settled place) (hq : place q → settled q) : Prioq.Own (e.queue q) := by
  by_cases hin : place q
  · exact h.order q (hq hin)
  · exact (h.loose q).own fun hin' => hin ((h.mem q).mp hin')

/-- And it ends here. -/
theorem Shape.consistent (h : Shape e s x settled place) (hsettled : ∀ q, place q → settled q)
    (hplace : ∀ q, place q ↔ x.places.Has q) : Consistent e where
  listed := h.listed
  own q := h.own (hsettled q)
  mem q t := by
    by_cases ht : t = s
    · subst ht
      rw [h.mem, hplace, h.value, EventQueue.Member, and_iff_right h.connected]
    · exact h.others q t ht

/-- Fewer queues need to be known to be in order. -/
theorem Shape.weaken {settled' place' : EventQueue → Prop} (h : Shape e s x settled place)
    (hsettled : ∀ q, settled' q → place q → settled q) (hplace : ∀ q, place' q ↔ place q) :
    Shape e s x settled' place' where
  value := h.value
  connected := h.connected
  listed := h.listed
  loose := h.loose
  order q hq := h.own (hsettled q hq)
  mem q := (h.mem q).trans (hplace q).symm
  others := h.others

/-- All queues are in order if those are where the source stands. -/
theorem Shape.settle (h : Shape e s x settled place) (hsettled : ∀ q, place q → settled q) :
    Shape e s x (fun _ => True) place :=
  h.weaken (fun q _ => hsettled q) fun _ => Iff.rfl

theorem Shape.standing (h : Shape e s x settled place) (p : EventPlaces) (hp : ∀ q, p.Has q ↔ place q) :
    Shape e s x settled p.Has :=
  h.weaken (fun _ hq _ => hq) hp

/-- The source gets other values, which may matter to some of the queues. -/
theorem Shape.modify {settled' : EventQueue → Prop} {f : EventSource → EventSource}
    (h : Shape e s x settled place) (hconnected : (f x).connected = x.connected)
    (hsettled : ∀ q, settled' q → place q → settled q ∧ q.Same x (f x)) :
    Shape (e.modify s f) s (f x) settled' place := by
  have hvalue := h.value
  have hself : (e.modify s f).sources s = f x := by rw [sources_modify_self, hvalue]
  have hother : ∀ t, t ≠ s → (e.modify s f).sources t = e.sources t := fun t => sources_modify_of_ne e s f
  have hpre : ∀ q : EventQueue, Prioq.IsTotalPreorder ((e.modify s f).queue q).compareFunc := fun q =>
    isTotalPreorder_comap q.isTotalPreorder_compare (e.modify s f).sources
  have hloose : ∀ q, Loose (e.modify s f) s q := by
    intro q
    obtain ⟨compare, hcompare, hsame, hown⟩ := h.loose q
    refine ⟨compare, hcompare, fun a b ha hb => ?_, hown⟩
    rw [hsame a b ha hb]
    change q.compare (e.sources a) (e.sources b) = q.compare ((e.modify s f).sources a) _
    rw [hother a ha, hother b hb]
  have hlisted : Listed (e.modify s f) :=
    h.listed.modify (by rw [hvalue, hconnected]) fun _ => by rw [hvalue]; exact h.connected
  refine ⟨hself, by rw [hconnected]; exact h.connected, hlisted, hloose, ?_, h.mem, ?_⟩
  · intro q hq
    by_cases hin : place q
    · obtain ⟨hbefore, hsame⟩ := hsettled q hq hin
      refine (h.order q hbefore).congr (hpre q) (fun a b _ _ => ?_) fun _ _ => rfl
      change q.compare ((e.modify s f).sources a) ((e.modify s f).sources b) =
        q.compare (e.sources a) (e.sources b)
      by_cases ha : a = s
      · subst ha
        rw [hself, hvalue, (hsame.compare _).1]
        by_cases hb : b = a
        · subst hb
          rw [hself, hvalue, (hsame.compare _).2]
        · rw [hother b hb]
      · rw [hother a ha]
        by_cases hb : b = s
        · subst hb
          rw [hself, hvalue, (hsame.compare _).2]
        · rw [hother b hb]
    · exact (hloose q).own fun hin' => hin ((h.mem q).mp hin')
  · intro q t ht
    rw [hother t ht]
    exact h.others q t ht

/-- An operation on one queue leaves the others alone. -/
theorem Shape.setQueue {p : Prioq Nat Nat} (h : Shape e s x settled place) (placeq : Prop)
    (hfree : ∀ q', q' ≠ q → q'.index = q.index → ¬place q')
    (hp : Prioq.Result (e.queue q) s p fun c => if c = s then placeq else (e.queue q).Has c) :
    Shape (e.setQueue q p) s x (fun q' => q' = q ∨ settled q') fun q' => if q' = q then placeq else place q' := by
  have hqueue : (e.setQueue q p).queue q = p := by
    have hcompare := hp.compareFunc
    cases p
    simp only [EventLoop.queue, EventLoop.setQueue, update_self] at hcompare ⊢
    rw [hcompare]
  have hitems : ∀ q', q' ≠ q → ((e.setQueue q p).queue q').items = (e.queue q').items := fun q' hne =>
    update_of_ne hne ..
  -- a shared index changes for `s` only
  have hcells : ∀ q', q' ≠ q → ∀ c, e.Has q' c → ((e.setQueue q p).queue q').cells c = (e.queue q').cells c := by
    intro q' hne c hc
    change update e.index q.index p.cells q'.index c = e.index q'.index c
    by_cases hindex : q'.index = q.index
    · have hcs : c ≠ s := by
        rintro rfl
        exact hfree q' hne hindex ((h.mem q').mp hc)
      have hout : ¬(e.queue q).Has c := by
        intro hin
        exact hne (((h.others q' c hcs).mp hc).unique ((h.others q c hcs).mp hin) hindex)
      rw [hindex, update_self, hp.cells c hcs hout]
      rfl
    · rw [update_of_ne hindex]
  have hhas : ∀ q', q' ≠ q → ∀ c, (e.setQueue q p).Has q' c ↔ e.Has q' c := by
    intro q' hne c
    unfold Has Prioq.Has
    rw [hitems q' hne]
  have hown : ∀ q', q' ≠ q → ∀ compare, Prioq.Own { e.queue q' with compareFunc := compare } →
      Prioq.Own { (e.setQueue q p).queue q' with compareFunc := compare } := by
    intro q' hne compare hq'
    have hcongr := hq'.congr hq'.valid.compareFunc (fun _ _ _ _ => rfl) fun c hc => hcells q' hne c hc
    have hsame := hitems q' hne
    dsimp only at hsame hcongr ⊢
    rwa [hsame]
  have hlisted : Listed (e.setQueue q p) :=
    ⟨h.listed.nodup, h.listed.mem, h.listed.live, h.listed.fresh, h.listed.room⟩
  refine ⟨h.value, h.connected, hlisted, ?_, ?_, ?_, ?_⟩
  · intro q'
    by_cases hq : q' = q
    · subst hq
      exact .of_own (by rw [hqueue]; exact hp.own)
    · obtain ⟨compare, hcompare, hsame, hq'⟩ := h.loose q'
      exact ⟨compare, hcompare, hsame, hown q' hq compare hq'⟩
  · rintro q' (rfl | hq')
    · rw [hqueue]
      exact hp.own
    · by_cases hq : q' = q
      · subst hq
        rw [hqueue]
        exact hp.own
      · exact hown q' hq _ (h.order q' hq')
  · intro q'
    by_cases hq : q' = q
    · subst hq
      rw [if_pos rfl]
      unfold Has
      rw [hqueue, hp.has, if_pos rfl]
    · rw [if_neg hq, hhas q' hq, h.mem]
  · intro q' t ht
    by_cases hq : q' = q
    · subst hq
      unfold Has
      rw [hqueue, hp.has, if_neg ht]
      exact h.others q' t ht
    · rw [hhas q' hq]
      exact h.others q' t ht

/-! ## Operations on one queue -/

/-- There is always room for the source in a queue where it is not. -/
theorem Shape.room (h : Shape e s x settled place) (hq : ¬place q) (hown : Prioq.Own (e.queue q)) :
    (e.queue q).items.length < 2 ^ 31 := by
  have hout : ¬e.Has q s := fun hin => hq ((h.mem q).mp hin)
  have hnodup : (s :: (e.queue q).items.map PrioqItem.data).Nodup := by
    refine List.nodup_cons.mpr ⟨fun hin => hout ?_, hown.nodup⟩
    obtain ⟨y, hy, hdata⟩ := List.mem_map.mp hin
    exact ⟨y, hy, hdata⟩
  have hsub : s :: (e.queue q).items.map PrioqItem.data ⊆ e.list := by
    intro t ht
    rcases List.mem_cons.mp ht with rfl | ht
    · exact (h.listed.mem t).mpr (h.value ▸ h.connected)
    · obtain ⟨y, hy, rfl⟩ := List.mem_map.mp ht
      have hne : y.data ≠ s := fun heq => hout ⟨y, hy, heq⟩
      exact (h.listed.mem _).mpr ((h.others q _ hne).mp ⟨y, hy, rfl⟩).1
  have hlen := (List.subperm_of_subset hnodup hsub).length_le
  rw [List.length_cons, List.length_map] at hlen
  have hroom := h.listed.room
  omega

theorem prioqPut_failed (e : EventLoop) (q : EventQueue) (s : Nat) : e.prioqPut q s false = (e, false) := by
  unfold EventLoop.prioqPut
  rw [Prioq.put_failed]
  dsimp only
  rw [setQueue_queue]
  rfl

theorem Shape.prioqPut (h : Shape e s x settled place) (hfree : ∀ q', q'.index = q.index → ¬place q') :
    ∃ e', e.prioqPut q s true = (e', true) ∧
      Shape e' s x (fun q' => q' = q ∨ settled q') fun q' => q' = q ∨ place q' := by
  have hq : ¬place q := hfree q rfl
  have hown : Prioq.Own (e.queue q) := h.own fun hin => absurd hin hq
  obtain ⟨hzero, hresult⟩ := hown.put (h.room hq hown) fun hin => hq ((h.mem q).mp hin)
  refine ⟨_, by rw [EventLoop.prioqPut, hzero]; rfl, ?_⟩
  refine (h.setQueue True (fun q' _ => hfree q') (hresult.congr fun c => ?_)).weaken
    (fun q' hq' _ => hq') fun q' => ?_
  · by_cases hc : c = s
    · simp only [hc, true_or, if_true]
    · simp only [hc, false_or, if_false]
  · by_cases hq' : q' = q
    · simp only [hq', true_or, if_true]
    · simp only [hq', false_or, if_false]

theorem Shape.prioqRemove (h : Shape e s x settled place) (hsettled : place q → settled q)
    (hfree : ∀ q', q' ≠ q → q'.index = q.index → ¬place q') :
    Shape (e.prioqRemove q s) s x settled fun q' => q' ≠ q ∧ place q' := by
  have hresult := (h.own hsettled).remove s
  refine (h.setQueue False hfree (hresult.congr fun c => ?_)).weaken
    (fun q' hq' _ => .inr hq') fun q' => ?_
  · by_cases hc : c = s
    · simp only [hc, ne_eq, not_true, false_and, if_true]
    · simp only [hc, ne_eq, not_false_iff, true_and, if_false]
  · by_cases hq' : q' = q
    · simp only [hq', ne_eq, not_true, false_and, if_true]
    · simp only [hq', ne_eq, not_false_iff, true_and, if_false]

theorem Shape.prioqReshuffle (h : Shape e s x settled place)
    (hfree : ∀ q', q' ≠ q → q'.index = q.index → ¬place q') :
    Shape (e.prioqReshuffle q s) s x (fun q' => q' = q ∨ settled q') place := by
  obtain ⟨compare, -, hsame, hown⟩ := h.loose q
  have hresult := hown.reshuffle (isTotalPreorder_comap q.isTotalPreorder_compare e.sources)
    fun a b ha hb => (hsame a b ha hb).symm
  refine (h.setQueue (place q) hfree (hresult.congr fun c => ?_)).weaken (fun q' hq' _ => hq')
    fun q' => ?_
  · by_cases hc : c = s
    · rw [if_pos hc, ← h.mem q, hc]
      rfl
    · rw [if_neg hc]
      rfl
  · by_cases hq' : q' = q
    · rw [if_pos hq', hq']
    · rw [if_neg hq']

/-- The place of a source in a queue is set, where it is in none. -/
theorem Shape.setIndex {i : EventIndex} (h : Shape e s x settled place) (hfree : ∀ q, q.index = i → ¬place q)
    (n : Nat) : Shape (e.setIndex i s n) s x settled place := by
  have hcells : ∀ q c, e.Has q c → ((e.setIndex i s n).queue q).cells c = (e.queue q).cells c := by
    intro q c hc
    change update e.index i (update (e.index i) s n) q.index c = e.index q.index c
    by_cases hi : q.index = i
    · have hcs : c ≠ s := by
        rintro rfl
        exact hfree q hi ((h.mem q).mp hc)
      rw [hi, update_self, update_of_ne hcs]
    · rw [update_of_ne hi]
  have hown : ∀ q compare, Prioq.Own { e.queue q with compareFunc := compare } →
      Prioq.Own { (e.setIndex i s n).queue q with compareFunc := compare } := fun q compare hq =>
    hq.congr hq.valid.compareFunc (fun _ _ _ _ => rfl) (hcells q)
  refine ⟨h.value, h.connected, ⟨h.listed.nodup, h.listed.mem, h.listed.live, h.listed.fresh, h.listed.room⟩,
    fun q => ?_, fun q hq => hown q _ (h.order q hq), h.mem, h.others⟩
  obtain ⟨compare, hcompare, hsame, hq⟩ := h.loose q
  exact ⟨compare, hcompare, hsame, hown q compare hq⟩

end Shape

end EventLoop

end Elogind
