/-
  Elogind.Login.Inhibit

  Inhibitors, and the question the rest of the daemon asks about them:
  `manager_is_inhibited` (logind-inhibit.c).

  An `InhibitWhat` is a bit mask of the operations a lock covers.  The table of
  inhibitors is a hashmap in the daemon; here it is the list of its values in
  the order in which `HASHMAP_FOREACH` visits them.
-/

import Mathlib.Order.Bounds.Basic

namespace Elogind

/-- A mask of `INHIBIT_*` bits. -/
abbrev InhibitWhat := Nat

namespace InhibitWhat

def shutdown : InhibitWhat := 1 <<< 0
def sleep : InhibitWhat := 1 <<< 1
def idle : InhibitWhat := 1 <<< 2
def handlePowerKey : InhibitWhat := 1 <<< 3
def handleSuspendKey : InhibitWhat := 1 <<< 4
def handleHibernateKey : InhibitWhat := 1 <<< 5
def handleLidSwitch : InhibitWhat := 1 <<< 6
def handleRebootKey : InhibitWhat := 1 <<< 7

/-- `inhibit_what_is_valid`: a non-empty mask below `_INHIBIT_WHAT_MAX`. -/
def isValid (w : InhibitWhat) : Bool := 0 < w && w < 1 <<< 8

end InhibitWhat

inductive InhibitMode where
  | block
  | blockWeak
  | delay
  deriving DecidableEq, Repr

/-- The number of the mode in the C enumeration, by which modes are compared. -/
def InhibitMode.rank : InhibitMode → Nat
  | block => 0
  | blockWeak => 1
  | delay => 2

structure Inhibitor where
  id : Nat
  started : Bool
  what : InhibitWhat
  who : String
  why : String
  mode : InhibitMode
  pid : Nat
  uid : Nat
  since : Nat
  deriving DecidableEq, Repr

/-- The arguments of `manager_is_inhibited`, but for the out parameters.
    `isActiveSession` answers for `pidref_is_active_session`. -/
structure InhibitQuery where
  w : InhibitWhat
  block : Bool
  ignoreInactive : Bool
  ignoreUid : Bool
  uid : Nat
  isActiveSession : Nat → Int

/-- What `manager_is_inhibited` has found so far. -/
structure Inhibited where
  inhibited : Bool
  since : Nat
  offending : Option Inhibitor
  deriving DecidableEq, Repr

/-- The chain of `continue`s of the loop: whether the inhibitor counts. -/
def InhibitQuery.matches (q : InhibitQuery) (i : Inhibitor) : Bool :=
  i.started &&
  (i.what &&& q.w) != 0 &&
  !((q.block && !(i.mode == .block || i.mode == .blockWeak)) ||
    (!q.block && i.mode != .delay)) &&
  !(q.ignoreInactive && q.isActiveSession i.pid ≤ 0) &&
  !(i.mode == .blockWeak && q.ignoreUid && i.uid == q.uid)

/-- The rest of the loop body, for an inhibitor that counts. -/
def Inhibited.add (r : Inhibited) (i : Inhibitor) : Inhibited where
  inhibited := true
  since := if !r.inhibited || i.since < r.since then i.since else r.since
  offending :=
    match r.offending with
    | none => some i
    | some o => if i.mode.rank < o.mode.rank then some i else some o

/-- `manager_is_inhibited`, with the values it stores through `since` and
    `ret_offending`. -/
def managerIsInhibited (inhibitors : List Inhibitor) (q : InhibitQuery) : Inhibited :=
  inhibitors.foldl (fun r i => if q.matches i then r.add i else r)
    { inhibited := false, since := 0, offending := none }

/-- The query for the delay locks on `w`, as the shutdown code asks it. -/
def InhibitQuery.delay (w : InhibitWhat) : InhibitQuery where
  w := w
  block := false
  ignoreInactive := false
  ignoreUid := false
  uid := 0
  isActiveSession := fun _ => 0

/-- The inhibitor is a started delay lock on some operation of `w`. -/
def Inhibitor.delays (i : Inhibitor) (w : InhibitWhat) : Bool :=
  i.started && i.mode == .delay && (i.what &&& w) != 0

/-! ## The loop finds a match exactly when there is one -/

theorem foldl_inhibited (q : InhibitQuery) (is : List Inhibitor) (r : Inhibited) :
    (is.foldl (fun r i => if q.matches i then r.add i else r) r).inhibited =
      (r.inhibited || is.any q.matches) := by
  induction is generalizing r with
  | nil => simp
  | cons i is ih =>
      rw [List.foldl_cons, ih, List.any_cons]
      by_cases h : q.matches i = true
      · simp [h, Inhibited.add]
      · simp [h]

theorem managerIsInhibited_inhibited (is : List Inhibitor) (q : InhibitQuery) :
    (managerIsInhibited is q).inhibited = is.any q.matches := by
  simp [managerIsInhibited, foldl_inhibited]

theorem delay_matches (w : InhibitWhat) (i : Inhibitor) :
    (InhibitQuery.delay w).matches i = i.delays w := by
  simp only [InhibitQuery.delay, InhibitQuery.matches, Inhibitor.delays]
  generalize (i.what &&& w != 0) = covers
  cases i.mode <;> cases i.started <;> cases covers <;> rfl

/-- Asked about delay locks, `manager_is_inhibited` says whether a started one
    covers `w`. -/
theorem managerIsInhibited_delay (is : List Inhibitor) (w : InhibitWhat) :
    (managerIsInhibited is (.delay w)).inhibited = is.any (·.delays w) := by
  rw [managerIsInhibited_inhibited]
  congr 1
  funext i
  exact delay_matches w i

/-! ## What the loop answers does not depend on the order -/

/-- What a query asks for: a started inhibitor for one of the operations, of the kind in question, held by
    the foreground where that matters, and not a weak one of the caller's own where these are ignored. -/
structure InhibitQuery.Asks (q : InhibitQuery) (i : Inhibitor) : Prop where
  started : i.started = true
  what : ∃ k, i.what.testBit k = true ∧ q.w.testBit k = true
  mode : if q.block then i.mode = .block ∨ i.mode = .blockWeak else i.mode = .delay
  active : q.ignoreInactive = true → 0 < q.isActiveSession i.pid
  others : i.mode = .blockWeak → q.ignoreUid = true → i.uid ≠ q.uid

theorem and_ne_zero_iff (a b : Nat) : a &&& b ≠ 0 ↔ ∃ k, a.testBit k = true ∧ b.testBit k = true := by
  constructor
  · intro h
    obtain ⟨k, hk⟩ := Nat.exists_testBit_of_ne_zero h
    exact ⟨k, by simpa using hk⟩
  · rintro ⟨k, ha, hb⟩ h
    have := Nat.testBit_and a b k
    simp [h, ha, hb] at this

theorem matches_iff_asks (q : InhibitQuery) (i : Inhibitor) : q.matches i = true ↔ q.Asks i := by
  -- one fact for each `continue`
  have hmode : (!((q.block && !(i.mode == .block || i.mode == .blockWeak)) ||
      (!q.block && i.mode != .delay))) = true ↔
      if q.block then i.mode = .block ∨ i.mode = .blockWeak else i.mode = .delay := by
    cases q.block <;> cases i.mode <;> simp
  have hown : (!(i.mode == .blockWeak && q.ignoreUid && i.uid == q.uid)) = true ↔
      (i.mode = .blockWeak → q.ignoreUid = true → i.uid ≠ q.uid) := by
    cases i.mode <;> cases q.ignoreUid <;> simp
  have hactive : (!(q.ignoreInactive && q.isActiveSession i.pid ≤ 0)) = true ↔
      (q.ignoreInactive = true → 0 < q.isActiveSession i.pid) := by
    cases q.ignoreInactive <;> simp
  have hwhat : ((i.what &&& q.w) != 0) = true ↔ ∃ k, i.what.testBit k = true ∧ q.w.testBit k = true := by
    rw [bne_iff_ne, and_ne_zero_iff]
  rw [InhibitQuery.matches, Bool.and_eq_true, Bool.and_eq_true, Bool.and_eq_true, Bool.and_eq_true, hwhat,
    hmode, hactive, hown]
  constructor
  · rintro ⟨⟨⟨⟨h1, h2⟩, h3⟩, h4⟩, h5⟩
    exact ⟨h1, h2, h3, h4, h5⟩
  · rintro ⟨h1, h2, h3, h4, h5⟩
    exact ⟨⟨⟨⟨h1, h2⟩, h3⟩, h4⟩, h5⟩

/-- The right answer when the inhibitors that count are those of `P`. -/
structure Inhibited.Answers (r : Inhibited) (P : Inhibitor → Prop) : Prop where
  inhibited : r.inhibited = true ↔ ∃ i, P i
  since : r.inhibited = true → IsLeast { t | ∃ i, P i ∧ i.since = t } r.since
  offending : r.inhibited = true →
    ∃ o, P o ∧ r.offending = some o ∧ ∀ i, P i → o.mode.rank ≤ i.mode.rank
  idle : r.inhibited = false → r.since = 0 ∧ r.offending = none

namespace Inhibited.Answers

variable {r r' : Inhibited} {P : Inhibitor → Prop}

theorem congr {Q : Inhibitor → Prop} (h : r.Answers P) (hPQ : ∀ i, P i ↔ Q i) : r.Answers Q := by
  have : P = Q := funext fun i => propext (hPQ i)
  rwa [← this]

/-- One more inhibitor that counts. -/
theorem add (h : r.Answers P) (i : Inhibitor) : (r.add i).Answers fun j => P j ∨ j = i := by
  cases hr : r.inhibited with
  | false =>
    -- the first one: the answer is about it alone
    have hnone : ∀ j, ¬ P j := fun j hj => by simp [h.inhibited.mpr ⟨j, hj⟩] at hr
    refine ⟨?_, fun _ => ?_, fun _ => ?_, fun hno => by simp [Inhibited.add] at hno⟩
    · exact ⟨fun _ => ⟨i, .inr rfl⟩, fun _ => rfl⟩
    · simp [Inhibited.add, hr, hnone, IsLeast, lowerBounds]
    · simp [Inhibited.add, (h.idle hr).2, hnone]
  | true =>
    obtain ⟨⟨l, hl, hls⟩, hleast⟩ := h.since hr
    obtain ⟨o, ho, hoff, hmin⟩ := h.offending hr
    refine ⟨⟨fun _ => ⟨i, .inr rfl⟩, fun _ => rfl⟩, fun _ => ?_, fun _ => ?_,
      fun hno => by simp [Inhibited.add] at hno⟩
    -- the time: the new one is older than all others, or the old time stays
    · have hle : ∀ j, P j → r.since ≤ j.since := fun j hj => hleast ⟨j, hj, rfl⟩
      by_cases hlt : i.since < r.since
      · simp only [Inhibited.add, hlt, decide_true, Bool.or_true, if_true]
        refine ⟨⟨i, .inr rfl, rfl⟩, ?_⟩
        rintro t ⟨j, hj | rfl, rfl⟩
        · exact le_trans hlt.le (hle j hj)
        · exact le_refl _
      · simp only [Inhibited.add, hr, hlt, decide_false, Bool.or_false, Bool.not_true, Bool.false_eq_true,
          if_false]
        refine ⟨⟨l, .inl hl, hls⟩, ?_⟩
        rintro t ⟨j, hj | rfl, rfl⟩
        · exact hle j hj
        · exact Nat.le_of_not_lt hlt
    -- and the offending one: of two equally strong the first stays
    · by_cases hlt : i.mode.rank < o.mode.rank
      · refine ⟨i, .inr rfl, by simp [Inhibited.add, hoff, hlt], ?_⟩
        rintro j (hj | rfl)
        · exact le_trans hlt.le (hmin j hj)
        · exact le_refl _
      · refine ⟨o, .inl ho, by simp [Inhibited.add, hoff, hlt], ?_⟩
        rintro j (hj | rfl)
        · exact hmin j hj
        · exact Nat.le_of_not_lt hlt

theorem foldl (q : InhibitQuery) (is : List Inhibitor) (h : r.Answers P) :
    (is.foldl (fun r i => if q.matches i then r.add i else r) r).Answers
      fun i => P i ∨ i ∈ is ∧ q.Asks i := by
  induction is generalizing r P with
  | nil => exact h.congr fun i => by simp
  | cons a is ih =>
    rw [List.foldl_cons]
    by_cases ha : q.matches a = true
    · rw [if_pos ha]
      refine (ih (h.add a)).congr fun i => ?_
      have := (matches_iff_asks q a).mp ha
      constructor
      · rintro ((hi | rfl) | hi)
        · exact .inl hi
        · exact .inr ⟨.head _, this⟩
        · exact .inr ⟨.tail _ hi.1, hi.2⟩
      · rintro (hi | ⟨hi, hq⟩)
        · exact .inl (.inl hi)
        · cases hi with
          | head => exact .inl (.inr rfl)
          | tail _ hi => exact .inr ⟨hi, hq⟩
    · rw [if_neg ha]
      refine (ih h).congr fun i => or_congr_right ?_
      rw [matches_iff_asks] at ha
      rw [List.mem_cons]
      exact ⟨fun hi => ⟨.inr hi.1, hi.2⟩,
        fun hi => ⟨hi.1.resolve_left fun he => ha (he ▸ hi.2), hi.2⟩⟩

/-- The answer is determined but for which of the strongest inhibitors is named. -/
theorem unique (h : r.Answers P) (h' : r'.Answers P) :
    r.inhibited = r'.inhibited ∧ r.since = r'.since ∧
      r.offending.map (·.mode) = r'.offending.map (·.mode) := by
  have hin : r.inhibited = r'.inhibited :=
    Bool.eq_iff_iff.mpr (h.inhibited.trans h'.inhibited.symm)
  refine ⟨hin, ?_⟩
  cases hr : r.inhibited with
  | false =>
    rw [hr] at hin
    rw [(h.idle hr).1, (h.idle hr).2, (h'.idle hin.symm).1, (h'.idle hin.symm).2]
    exact ⟨rfl, rfl⟩
  | true =>
    rw [hr] at hin
    refine ⟨(h.since hr).unique (h'.since hin.symm), ?_⟩
    obtain ⟨o, ho, hoff, hmin⟩ := h.offending hr
    obtain ⟨o', ho', hoff', hmin'⟩ := h'.offending hin.symm
    have hrank : o.mode.rank = o'.mode.rank := le_antisymm (hmin o' ho') (hmin' o ho)
    rw [hoff, hoff', Option.map_some, Option.map_some]
    -- no two modes have the same rank
    revert hrank
    cases o.mode <;> cases o'.mode <;> simp [InhibitMode.rank]

end Inhibited.Answers

theorem managerIsInhibited_answers (is : List Inhibitor) (q : InhibitQuery) :
    (managerIsInhibited is q).Answers fun i => i ∈ is ∧ q.Asks i := by
  have hstart : (Inhibited.mk false 0 none).Answers fun _ => False :=
    ⟨by simp, by simp, by simp, fun _ => ⟨rfl, rfl⟩⟩
  exact (hstart.foldl q is).congr fun i => by simp

/-- `manager_is_inhibited` answers whether an inhibitor is asked for, since when, and names a strongest
    one; in which order the inhibitors are visited changes neither of these. -/
theorem managerIsInhibited_meets_spec (is : List Inhibitor) (q : InhibitQuery) :
    let r := managerIsInhibited is q
    (r.inhibited = true ↔ ∃ i ∈ is, q.Asks i) ∧
    (r.inhibited = true → IsLeast { t | ∃ i ∈ is, q.Asks i ∧ i.since = t } r.since) ∧
    (r.inhibited = true → ∃ o ∈ is, q.Asks o ∧ r.offending = some o ∧
      ∀ i ∈ is, q.Asks i → o.mode.rank ≤ i.mode.rank) ∧
    (r.inhibited = false → r.since = 0 ∧ r.offending = none) ∧
    ∀ is', (∀ i, i ∈ is' ↔ i ∈ is) →
      (managerIsInhibited is' q).inhibited = r.inhibited ∧ (managerIsInhibited is' q).since = r.since ∧
      (managerIsInhibited is' q).offending.map (·.mode) = r.offending.map (·.mode) := by
  have h := managerIsInhibited_answers is q
  refine ⟨h.inhibited, fun hr => ?_, fun hr => ?_, h.idle, fun is' hsame => ?_⟩
  · have := h.since hr
    simpa only [and_assoc] using this
  · obtain ⟨o, ⟨ho, hq⟩, hoff, hmin⟩ := h.offending hr
    exact ⟨o, ho, hq, hoff, fun i hi hqi => hmin i ⟨hi, hqi⟩⟩
  · refine ((managerIsInhibited_answers is' q).congr fun i => ?_).unique h
    rw [hsame i]

end Elogind
