/-
  Elogind.Event.Places

  Taking a source out of the queues of an event loop, putting it in and reshuffling it (sd-event.c):
  the functions that work on several queues, and what they do to the places of the source.
-/

import Elogind.Event.Queues

namespace Elogind

open Lib EventPlaces

namespace EventQueue

/-- A queue without a clock has a field of the source for itself. -/
theorem eq_of_index {q q' : EventQueue} (hq : q.clock = none) (hindex : q'.index = q.index) : q' = q := by
  cases q with
  | earliest c => cases hq
  | latest c => cases hq
  | pending | prepare | exit => cases q' <;> first | rfl | cases hindex

theorem clock_eq_some {q : EventQueue} {c : EventClock} : q.clock = some c ↔ q = .earliest c ∨ q = .latest c := by
  cases q <;> simp [clock]

end EventQueue

theorem EventPlaces.has_of_clock {p : EventPlaces} {q : EventQueue} {c : EventClock} (hq : q.clock = some c) :
    p.Has q ↔ p.clock = some c := by
  rcases EventQueue.clock_eq_some.mp hq with rfl | rfl <;> exact Iff.rfl

/-- What the places have to do with other clocks does not matter to a queue without one. -/
theorem EventPlaces.has_of_clock_none {p : EventPlaces} {q : EventQueue} (hq : q.clock = none)
    (c : Option EventClock) : ({ p with clock := c } : EventPlaces).Has q ↔ p.Has q := by
  cases q <;> first | exact Iff.rfl | cases hq

namespace EventLoop

section Places

variable {e : EventLoop} {s : Nat} {x : EventSource} {q : EventQueue} {settled : EventQueue → Prop} {p : EventPlaces}

/-! ## Reshuffling -/

/-- A queue without a clock is in order again. -/
theorem Shape.reshuffleOwn {place : EventQueue → Prop} (h : Shape e s x settled place) (hq : q.clock = none) :
    Shape (e.prioqReshuffle q s) s x (fun q' => q' = q ∨ settled q') place :=
  h.prioqReshuffle fun _ hne hindex => absurd (EventQueue.eq_of_index hq hindex) hne

/-- It is, if the source is reshuffled where it stands in the queue. -/
theorem Shape.reshuffleIf {place : EventQueue → Prop} (h : Shape e s x settled place) (hq : q.clock = none) {b : Bool}
    (hb : place q → b) :
    Shape (if b then e.prioqReshuffle q s else e) s x (fun q' => q' = q ∨ settled q') place := by
  cases b with
  | true => exact h.reshuffleOwn hq
  | false =>
    refine h.weaken (fun q' hq' hin => ?_) fun _ => Iff.rfl
    rcases hq' with rfl | hq'
    · exact absurd (hb hin) Bool.false_ne_true
    · exact hq'

theorem Shape.ppPrioqReshuffle (h : Shape e s x settled p.Has) (hpending : p.pending = x.pending)
    (hprepare : p.prepare = x.prepare.isSome) :
    Shape (e.eventSourcePpPrioqReshuffle s) s x (fun q => q = .prepare ∨ q = .pending ∨ settled q) p.Has := by
  have hpend := h.reshuffleIf (q := .pending) rfl (b := x.pending) fun hin => hpending ▸ hin
  have hprep := hpend.reshuffleIf (q := .prepare) rfl (b := x.prepare.isSome) fun hin => hprepare ▸ hin
  unfold eventSourcePpPrioqReshuffle
  dsimp only
  rw [h.value, hpend.value]
  exact hprep

theorem Shape.timePrioqReshuffle (h : Shape e s x settled p.Has) (hclock : p.clock = x.timeClock) :
    Shape (e.eventSourceTimePrioqReshuffle s) s x (fun q => q.clock.isSome ∨ settled q) p.Has := by
  unfold eventSourceTimePrioqReshuffle
  rw [h.value, ← hclock]
  have hplace : ∀ q : EventQueue, q.clock.isSome → p.Has q → q.clock = p.clock := by
    intro q hq hin
    obtain ⟨c, hc⟩ := Option.isSome_iff_exists.mp hq
    rw [hc, (has_of_clock hc).mp hin]
  cases hc : p.clock with
  | none =>
    refine h.weaken (fun q hq hin => ?_) fun _ => Iff.rfl
    rcases hq with hq | hq
    · rw [hplace q hq hin, hc] at hq
      cases hq
    · exact hq
  | some c =>
    have hfree : ∀ q q' : EventQueue, q.clock = some c → q' ≠ q → q'.index = q.index → ¬p.Has q' :=
      fun q q' hq hne hindex hin => hne (hin.unique ((has_of_clock hq).mpr hc) hindex)
    refine ((h.prioqReshuffle (hfree (.earliest c) · rfl)).prioqReshuffle (hfree (.latest c) · rfl)).weaken
      (fun q hq hin => ?_) fun _ => Iff.rfl
    rcases hq with hq | hq
    · rcases EventQueue.clock_eq_some.mp ((hplace q hq hin).trans hc) with rfl | rfl
      · exact .inr (.inl rfl)
      · exact .inl rfl
    · exact .inr (.inr hq)

/-! ## The queues of a clock -/

theorem Shape.timePrioqRemove (h : Shape e s x settled p.Has) {c : EventClock}
    (hclock : ∀ c', p.clock = some c' → c' = c) (hsettled : ∀ q : EventQueue, q.clock = some c → settled q) :
    Shape (e.eventSourceTimePrioqRemove s c) s x settled ({ p with clock := none } : EventPlaces).Has := by
  have hfree : ∀ q q' : EventQueue, q.clock = some c → q' ≠ q → q'.index = q.index → ¬p.Has q' := by
    intro q q' hq hne hindex hin
    have hq' : q'.clock.isSome := by
      cases hnone : q'.clock with
      | none => exact absurd (EventQueue.eq_of_index hnone hindex.symm).symm hne
      | some c' => rfl
    obtain ⟨c', hc'⟩ := Option.isSome_iff_exists.mp hq'
    have hpc := (has_of_clock hc').mp hin
    have hcc := hclock c' hpc
    exact hne (hin.unique ((has_of_clock hq).mpr (hcc ▸ hpc)) hindex)
  have hout := (h.prioqRemove (q := .earliest c) (fun _ => hsettled _ rfl) (hfree _ · rfl)).prioqRemove
    (q := .latest c) (fun _ => hsettled _ rfl) fun q' hne hindex hin => hfree _ q' rfl hne hindex hin.2
  have hplace : ∀ q, ({ p with clock := none } : EventPlaces).Has q ↔ q ≠ .latest c ∧ q ≠ .earliest c ∧ p.Has q := by
    intro q
    cases hq : q.clock with
    | none =>
      rw [has_of_clock_none hq]
      refine ⟨fun hin => ⟨?_, ?_, hin⟩, fun hin => hin.2.2⟩
      · rintro rfl
        cases hq
      · rintro rfl
        cases hq
    | some c' =>
      rw [has_of_clock hq]
      constructor
      · intro hnone
        cases hnone
      rintro ⟨hlatest, hearliest, hin⟩
      have hcc := hclock c' ((has_of_clock hq).mp hin)
      rcases EventQueue.clock_eq_some.mp (hcc ▸ hq) with rfl | rfl
      · exact absurd rfl hearliest
      · exact absurd rfl hlatest
  have hfree' : ∀ q : EventQueue, q.clock.isSome → ¬({ p with clock := none } : EventPlaces).Has q := by
    intro q hq hin
    obtain ⟨c', hc'⟩ := Option.isSome_iff_exists.mp hq
    cases (has_of_clock hc').mp hin
  refine ((hout.weaken (fun _ hq _ => hq) hplace).setIndex (i := .earliest) (fun q hq => ?_) _).setIndex
    (i := .latest) (fun q hq => ?_) _
  · refine hfree' q ?_
    cases q <;> first | rfl | cases hq
  · refine hfree' q ?_
    cases q <;> first | rfl | cases hq

theorem Shape.timePrioqPut (h : Shape e s x settled p.Has) (hclock : p.clock = none) (c : EventClock)
    (putEarliest putLatest : Bool) :
    ∃ e', e.eventSourceTimePrioqPut s c putEarliest putLatest = (e', putEarliest && putLatest) ∧
      Shape e' s x (fun q => q.clock.isSome ∨ settled q)
        ({ p with clock := if putEarliest && putLatest then some c else none } : EventPlaces).Has := by
  have hsame : ({ p with clock := none } : EventPlaces) = p := by rw [← hclock]
  -- no prioq of a clock holds `s`, so that both places are free
  have hout : ∀ q : EventQueue, q.clock.isSome → ¬p.Has q := by
    intro q hq hin
    obtain ⟨c', hc'⟩ := Option.isSome_iff_exists.mp hq
    rw [(has_of_clock hc').mp hin] at hclock
    cases hclock
  have hfree : ∀ q q' : EventQueue, q.clock = some c → q'.index = q.index → ¬p.Has q' := by
    intro q q' hq hindex
    refine hout q' ?_
    cases hnone : q'.clock with
    | none =>
      rw [EventQueue.eq_of_index hnone hindex.symm, hnone] at hq
      cases hq
    | some c' => rfl
  have hfailed : Shape e s x (fun q => q.clock.isSome ∨ settled q) p.Has :=
    h.weaken (fun q hq hin => hq.resolve_left fun hq => hout q hq hin) fun _ => Iff.rfl
  unfold eventSourceTimePrioqPut
  cases putEarliest with
  | false =>
    rw [prioqPut_failed]
    exact ⟨e, rfl, by rw [Bool.false_and, if_neg Bool.false_ne_true, hsame]; exact hfailed⟩
  | true =>
    obtain ⟨e₁, heq, h₁⟩ := h.prioqPut (q := .earliest c) (hfree _ · rfl)
    rw [heq]
    have hfree₁ : ∀ q' : EventQueue, q'.index = EventIndex.latest → ¬(q' = .earliest c ∨ p.Has q') := by
      rintro q' hindex (rfl | hin)
      · cases hindex
      · exact hfree (.latest c) q' rfl hindex hin
    cases putLatest with
    -- the second prioq has no room: the source leaves the first one again
    | false =>
      dsimp only
      rw [prioqPut_failed]
      refine ⟨_, rfl, ?_⟩
      have hremoved := h₁.prioqRemove (q := .earliest c) (fun _ => .inl rfl) fun q' hne hindex hin =>
        hin.elim hne (hfree (.earliest c) q' rfl hindex)
      rw [Bool.true_and, if_neg Bool.false_ne_true, hsame]
      refine (hremoved.setIndex (i := .earliest) (fun q' hindex hin => ?_) _).weaken (fun q' hq' hin => ?_)
        fun q' => ?_
      · exact hin.2.elim hin.1 (hfree (.earliest c) q' rfl hindex)
      · exact .inr (hq'.resolve_left fun hq' => hin.2.elim hin.1 (hout q' hq'))
      · refine ⟨fun hin => ⟨?_, .inr hin⟩, fun hin => hin.2.resolve_left hin.1⟩
        rintro rfl
        exact hout (.earliest c) rfl hin
    | true =>
      dsimp only
      obtain ⟨e₂, heq₂, h₂⟩ := h₁.prioqPut (q := .latest c) hfree₁
      rw [heq₂]
      refine ⟨e₂, rfl, ?_⟩
      -- both prioqs hold it, and they are those of `c`
      refine h₂.weaken (fun q' hq' hin => ?_) fun q' => ?_
      · rcases hin with hin | hin | hin
        · exact .inl hin
        · exact .inr (.inl hin)
        · exact .inr (.inr (hq'.resolve_left fun hq' => hout q' hq' hin))
      · cases hq : q'.clock with
        | none =>
          rw [has_of_clock_none hq]
          refine ⟨fun hin => .inr (.inr hin), ?_⟩
          rintro (rfl | rfl | hin)
          · cases hq
          · cases hq
          · exact hin
        | some c' =>
          rw [has_of_clock hq]
          constructor
          · intro hc
            cases hc
            rcases EventQueue.clock_eq_some.mp hq with rfl | rfl
            · exact .inr (.inl rfl)
            · exact .inl rfl
          · rintro (rfl | rfl | hin)
            · exact hq
            · exact hq
            · exact absurd hin (hout q' (by rw [hq]; rfl))

end Places

end EventLoop

end Elogind
