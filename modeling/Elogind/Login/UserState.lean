/-
  Elogind.Login.UserState

  The state of a user (`user_get_state`, logind-user.c): a fold over the sessions of the user that ends early at one that
  is active.
-/

import Elogind.Login.State

namespace Elogind

/-- `UserState` -/
inductive UserState where
  | offline
  | opening
  | lingering
  | online
  | active
  | closing
  deriving DecidableEq, Repr

namespace Manager

/-- `SESSION_CLASS_PIN_USER(i->class)` -/
def sessionPinsUser (m : Manager) (s : Ref) : Bool := (m.session.sessionClass s).pinsUser

/-- The loop of `user_get_state`: nothing where it returns `USER_ACTIVE`, and `all_closing` at its end.  The variable
    `has_pinning` is set in it, but not read. -/
def userStateLoop (m : Manager) (mode : UserGcMode) : Bool → List Ref → Option Bool
  | allClosing, [] => some allClosing
  | allClosing, i :: sessions =>
    let pinned := m.sessionPinsUser i
    if mode = .byPin ∧ pinned = false then m.userStateLoop mode allClosing sessions
    else
      let state := m.sessionGetState i
      if state = .active ∧ pinned = true then none
      else m.userStateLoop mode (if state ≠ .closing then false else allClosing) sessions

/-- `user_get_state` -/
def userGetState (env : Env) (m : Manager) (u : Ref) : UserState :=
  if m.user.stopping u then .closing
  else if !m.user.started u then .opening
  else
    match m.userStateLoop (m.user.gcMode u) true (m.user.sessions u) with
    | none => .active
    | some allClosing =>
      if env.linger u then .lingering
      else if allClosing then .closing
      else .online

/-! ## The documented states -/

/-- A session counts for the state of a user in this mode. -/
def Counts (m : Manager) (mode : UserGcMode) (s : Ref) : Prop := mode = .byAny ∨ m.sessionPinsUser s = true

/-- A session that pins the user is in the foreground. -/
def HasActive (m : Manager) (u : Ref) : Prop :=
  ∃ s ∈ m.user.sessions u, m.sessionPinsUser s = true ∧ m.sessionGetState s = .active

/-- The user is logged in: a session that pins the user is not closing. -/
def LoggedIn (m : Manager) (u : Ref) : Prop :=
  ∃ s ∈ m.user.sessions u, m.sessionPinsUser s = true ∧ m.sessionGetState s ≠ .closing

/-- A session that counts is not closing. -/
def HasOpen (m : Manager) (u : Ref) : Prop :=
  ∃ s ∈ m.user.sessions u, m.Counts (m.user.gcMode u) s ∧ m.sessionGetState s ≠ .closing

section Loop

variable {m : Manager} {mode : UserGcMode} {allClosing : Bool} {i : Ref} {l : List Ref}

theorem counts_iff : m.Counts mode i ↔ ¬ (mode = .byPin ∧ m.sessionPinsUser i = false) := by
  unfold Counts
  cases mode <;> simp

/-- A round passes over a session that does not count. -/
theorem userStateLoop_skip (h : ¬ m.Counts mode i) :
    m.userStateLoop mode allClosing (i :: l) = m.userStateLoop mode allClosing l := by
  rw [counts_iff, not_not] at h
  rw [userStateLoop, if_pos h]

theorem userStateLoop_count (h : m.Counts mode i) :
    m.userStateLoop mode allClosing (i :: l) =
      if m.sessionGetState i = .active ∧ m.sessionPinsUser i = true then none
      else m.userStateLoop mode (if m.sessionGetState i ≠ .closing then false else allClosing) l := by
  rw [counts_iff] at h
  rw [userStateLoop, if_neg h]

/-- The loop returns early exactly at a session that pins the user and is active. -/
theorem userStateLoop_eq_none_iff :
    m.userStateLoop mode allClosing l = none ↔
      ∃ s ∈ l, m.sessionPinsUser s = true ∧ m.sessionGetState s = .active := by
  induction l generalizing allClosing with
  | nil => simp [userStateLoop]
  | cons i l ih =>
    simp only [List.mem_cons, exists_eq_or_imp]
    by_cases hcounts : m.Counts mode i
    · rw [userStateLoop_count hcounts]
      by_cases hactive : m.sessionGetState i = .active ∧ m.sessionPinsUser i = true
      · rw [if_pos hactive]
        exact iff_of_true rfl (.inl hactive.symm)
      · rw [if_neg hactive, ih]
        exact (or_iff_right fun h => hactive h.symm).symm
    · rw [userStateLoop_skip hcounts, ih]
      exact (or_iff_right fun h => hcounts (.inr h.1)).symm

/-- At its end the loop knows whether all sessions that count are closing. -/
theorem userStateLoop_eq_some {b : Bool} (h : m.userStateLoop mode allClosing l = some b) :
    b = true ↔ allClosing = true ∧ ∀ s ∈ l, m.Counts mode s → m.sessionGetState s = .closing := by
  induction l generalizing allClosing with
  | nil =>
    cases h
    simp
  | cons i l ih =>
    by_cases hcounts : m.Counts mode i
    · rw [userStateLoop_count hcounts] at h
      by_cases hactive : m.sessionGetState i = .active ∧ m.sessionPinsUser i = true
      · rw [if_pos hactive] at h
        cases h
      · rw [if_neg hactive] at h
        rw [ih h]
        by_cases hclosing : m.sessionGetState i = .closing
        · simp [hclosing]
        · simp [hclosing, hcounts]
    · rw [userStateLoop_skip hcounts] at h
      rw [ih h]
      simp [hcounts]

end Loop

theorem userStateLoop_open {m : Manager} {u : Ref} {b : Bool}
    (h : m.userStateLoop (m.user.gcMode u) true (m.user.sessions u) = some b) : b = false ↔ m.HasOpen u := by
  have hall := userStateLoop_eq_some h
  rw [← Bool.not_eq_true, hall]
  unfold HasOpen
  push Not
  simp

theorem HasActive.loggedIn {m : Manager} {u : Ref} (h : m.HasActive u) : m.LoggedIn u := by
  obtain ⟨s, hs, hpins, hactive⟩ := h
  refine ⟨s, hs, hpins, ?_⟩
  rw [hactive]
  decide

theorem LoggedIn.hasOpen {m : Manager} {u : Ref} (h : m.LoggedIn u) : m.HasOpen u := by
  obtain ⟨s, hs, hpins, hopen⟩ := h
  exact ⟨s, hs, .inr hpins, hopen⟩

/-- A user that is stopping is closing, and one that is not started is opening.  Otherwise the user is active exactly if a
    session that pins the user is (`HasActive`).  One that is not logged in lingers if lingering applies; where it does not, the user is
    online if a session that counts in the mode of the user is not closing, and closing otherwise. -/
theorem userGetState_documented (env : Env) (m : Manager) (u : Ref) :
    (m.user.stopping u = true → m.userGetState env u = .closing) ∧
    (m.user.stopping u = false → m.user.started u = false → m.userGetState env u = .opening) ∧
    (m.user.stopping u = false → m.user.started u = true →
      (m.userGetState env u = .active ↔ m.HasActive u) ∧
      (m.userGetState env u = .lingering → env.linger u = true) ∧
      (env.linger u = true → ¬ m.LoggedIn u → m.userGetState env u = .lingering) ∧
      (env.linger u = false → (m.userGetState env u = .online ↔ m.HasOpen u ∧ ¬ m.HasActive u)) ∧
      (env.linger u = false → (m.userGetState env u = .closing ↔ ¬ m.HasOpen u))) := by
  refine ⟨fun hstopping => if_pos hstopping, fun hstopping hstarted => ?_, fun hstopping hstarted => ?_⟩
  · unfold userGetState
    rw [if_neg (by rw [hstopping]; decide), if_pos (by rw [hstarted]; rfl)]
  have hstate : m.userGetState env u =
      match m.userStateLoop (m.user.gcMode u) true (m.user.sessions u) with
      | none => .active
      | some allClosing => if env.linger u then .lingering else if allClosing then .closing else .online := by
    unfold userGetState
    rw [if_neg (by rw [hstopping]; decide), if_neg (by rw [hstarted]; decide)]
  have hnone : m.userStateLoop (m.user.gcMode u) true (m.user.sessions u) = none ↔ m.HasActive u :=
    userStateLoop_eq_none_iff
  cases hloop : m.userStateLoop (m.user.gcMode u) true (m.user.sessions u) with
  | none =>
    have hactive : m.HasActive u := hnone.mp hloop
    have hopen : m.HasOpen u := hactive.loggedIn.hasOpen
    have hin : m.LoggedIn u := hactive.loggedIn
    rw [hloop] at hstate
    simp [hstate, hactive, hopen, hin]
  | some allClosing =>
    have hactive : ¬ m.HasActive u := fun h => by
      rw [hnone.mpr h] at hloop
      cases hloop
    have hopen := userStateLoop_open hloop
    rw [hloop] at hstate
    cases hlinger : env.linger u with
    | true => simp [hstate, hactive, hlinger]
    | false =>
      cases allClosing with
      | true | false => simp [hstate, hactive, hlinger, ← hopen]

/-- A user whose only session belongs to the service manager. -/
def managerOnly : Manager :=
  { empty false with
    user.sessions := fun _ => [1]
    user.started := fun _ => true
    session.sessionClass := fun _ => .manager
    session.seat := fun _ => some 2
    session.fifo := fun _ => true }

/-- The session of the service manager does not pin the user, but makes it online. -/
theorem userGetState_managerOnly : managerOnly.userGetState Env.calm 0 = .online ∧ ¬ managerOnly.LoggedIn 0 := by
  refine ⟨rfl, ?_⟩
  rintro ⟨s, -, hpins, -⟩
  cases hpins

end Manager

end Elogind
