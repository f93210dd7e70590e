/-
  Elogind.Login.Idle

  The idle hints: of a session (`session_get_idle_hint`, logind-session.c), and
  the three loops that sum them up for a seat, a user and the whole machine
  (logind-seat.c, logind-user.c, logind-core.c).

  All loops have a variable `k` for the time stamp of a session, which
  `session_get_idle_hint` does not set for a session whose class knows no idling.
  The loop over the sessions of a seat is the only one that does not pass over
  such sessions, and then reads what happens to be in the variable: the argument
  `stale`.
-/

import Elogind.Basic.Errno
import Elogind.Basic.TimeUtil
import Elogind.Login.Inhibit
import Elogind.Login.SessionTypes

namespace Elogind

open List

/-! ## Sessions -/

/-- What idle hints depend on besides the sessions: the clocks, the access times of
    terminals, and the configuration. -/
structure IdleEnv where
  realtime : Nat
  monotonic : Nat
  /-- `get_tty_atime` -/
  ttyAtime : Bytes → Result Nat
  /-- `get_process_ctty_atime` -/
  cttyAtime : Nat → Result Nat
  idleActionUsec : Nat
  stopIdleSessionUsec : Nat

/-- `dual_timestamp_from_realtime` -/
def IdleEnv.dualTimestampFromRealtime (env : IdleEnv) (u : Nat) : DualTimestamp :=
  if !timestampIsSet u then ⟨u, u⟩ else ⟨u, mapClockUsecRaw u env.realtime env.monotonic⟩

/-- The members of a session that idling depends on. -/
structure IdleSession where
  sessionClass : SessionClass
  type : SessionType
  idleHint : Bool
  idleHintTimestamp : DualTimestamp
  tty : Option Bytes
  leader : Option Nat
  deriving DecidableEq, Repr

/-- The access time `session_get_idle_hint` finds for a session on a terminal. -/
def IdleSession.atime (env : IdleEnv) (s : IdleSession) : Option Nat :=
  match s.tty.map env.ttyAtime with
  | some (.ok atime) => some atime
  | _ =>
    match s.leader.map env.cttyAtime with
    | some (.ok atime) => some atime
    | _ => none

/-- The label `found_atime` of `session_get_idle_hint`. -/
def IdleEnv.idleSince (env : IdleEnv) (atime : Nat) : Bool :=
  if 0 < env.idleActionUsec ∧ env.stopIdleSessionUsec ≠ usecInfinity then
    usecAdd atime (min env.idleActionUsec env.stopIdleSessionUsec) ≤ env.realtime
  else if 0 < env.idleActionUsec then usecAdd atime env.idleActionUsec ≤ env.realtime
  else if env.stopIdleSessionUsec ≠ usecInfinity then
    usecAdd atime env.stopIdleSessionUsec ≤ env.realtime
  else false

/-- `session_get_idle_hint`, and what it stores through `t`, if anything. -/
def sessionGetIdleHint (env : IdleEnv) (s : IdleSession) : Bool × Option DualTimestamp :=
  if !s.sessionClass.canIdle then (false, none)
  else if s.type.isGraphical then (s.idleHint, some s.idleHintTimestamp)
  else
    match (if s.type = .tty then s.atime env else none) with
    | some atime => (env.idleSince atime, some (env.dualTimestampFromRealtime atime))
    | none => (false, some .null)

/-! ## The three loops -/

/-- The variables `idle_hint` and `ts` of the loops. -/
structure IdleHint where
  idle : Bool
  since : DualTimestamp
  deriving DecidableEq, Repr

/-- The body of the loops: the hint `ih` and the time stamp `k` of one more
    session.  `replaces` compares the time stamps of two busy sessions. -/
def IdleHint.add (replaces : Nat → Nat → Bool) (acc : IdleHint) (ih : Bool) (k : DualTimestamp) :
    IdleHint :=
  if !ih then
    if !acc.idle then
      if replaces k.monotonic acc.since.monotonic then { acc with since := k } else acc
    else { idle := false, since := k }
  else if acc.idle then
    if k.monotonic > acc.since.monotonic then { acc with since := k } else acc
  else acc

/-- The loop of a user and of the manager, which passes over sessions that know no
    idling. -/
def idleLoop (env : IdleEnv) (stale : IdleSession → DualTimestamp) (acc : IdleHint)
    (sessions : List IdleSession) : IdleHint :=
  sessions.foldl (fun acc s =>
    if !s.sessionClass.canIdle then acc
    else
      let (ih, k) := sessionGetIdleHint env s
      acc.add (fun k ts => k < ts) ih (k.getD (stale s))) acc

/-- `user_get_idle_hint` -/
def userGetIdleHint (env : IdleEnv) (stale : IdleSession → DualTimestamp)
    (sessions : List IdleSession) : IdleHint :=
  idleLoop env stale ⟨true, .null⟩ sessions

/-- The question of `manager_get_idle_hint` to the inhibitors. -/
def InhibitQuery.idle : InhibitQuery where
  w := InhibitWhat.idle
  block := true
  ignoreInactive := false
  ignoreUid := false
  uid := 0
  isActiveSession := fun _ => 0

/-- `manager_get_idle_hint` -/
def managerGetIdleHint (env : IdleEnv) (stale : IdleSession → DualTimestamp)
    (inhibitors : List Inhibitor) (sessions : List IdleSession) : IdleHint :=
  idleLoop env stale ⟨!(managerIsInhibited inhibitors .idle).inhibited, .null⟩ sessions

/-- `seat_get_idle_hint` -/
def seatGetIdleHint (env : IdleEnv) (stale : IdleSession → DualTimestamp)
    (sessions : List IdleSession) : IdleHint :=
  sessions.foldl (fun acc s =>
    let (ih, k) := sessionGetIdleHint env s
    acc.add (fun k ts => k > ts) ih (k.getD (stale s))) ⟨true, .null⟩

/-! ## What the hints should be -/

/-- The idle bit and the monotonic time stamp of a hint. -/
def IdleHint.summary (h : IdleHint) : Bool × Nat := (h.idle, h.since.monotonic)

/-- The time stamps of the idle, or of the busy sessions. -/
def timesOf (idle : Bool) (hints : List (Bool × Nat)) : List Nat :=
  (hints.filter (·.1 = idle)).map Prod.snd

/-- The hint for a set of sessions: not idle since the first session has been busy,
    or idle since the last one has been. -/
def idleSummary (hints : List (Bool × Nat)) : Bool × Nat :=
  match (timesOf false hints).min? with
  | some t => (false, t)
  | none => (true, (timesOf true hints).max?.getD 0)

/-- The hints of the sessions whose class knows idling. -/
def eligibleHints (env : IdleEnv) (sessions : List IdleSession) : List (Bool × Nat) :=
  (sessions.filter (·.sessionClass.canIdle)).map fun s =>
    ((sessionGetIdleHint env s).1, ((sessionGetIdleHint env s).2.getD .null).monotonic)

/-- The three functions say the same about sessions that all belong to one user and
    one seat, in whatever order each of them visits the sessions and whatever is
    in an uninitialised variable; and this is determined by the set of hints. -/
structure IdleHintsAgree (env : IdleEnv) (sessions : List IdleSession) : Prop where
  user : ∀ stale l, l.Perm sessions →
    (userGetIdleHint env stale l).summary = idleSummary (eligibleHints env sessions)
  manager : ∀ stale l inhibitors, l.Perm sessions →
    (managerIsInhibited inhibitors .idle).inhibited = false →
    (managerGetIdleHint env stale inhibitors l).summary = idleSummary (eligibleHints env sessions)
  seat : ∀ stale l, (∀ s, (stale s).monotonic ≤ usecInfinity) → l.Perm sessions →
    (seatGetIdleHint env stale l).summary = idleSummary (eligibleHints env sessions)
  determined : ∀ hints, (∀ hint, hint ∈ hints ↔ hint ∈ eligibleHints env sessions) →
    idleSummary hints = idleSummary (eligibleHints env sessions)

/-! ## The loops as functions of the hints -/

/-- The body of the loops, without the realtime clock; `pick` chooses between the
    time stamps of two busy sessions. -/
def addSummary (pick : Nat → Nat → Nat) (acc hint : Bool × Nat) : Bool × Nat :=
  if !hint.1 then (false, if acc.1 then hint.2 else pick acc.2 hint.2)
  else (acc.1, if acc.1 then max acc.2 hint.2 else acc.2)

theorem summary_add {replaces : Nat → Nat → Bool} {pick : Nat → Nat → Nat}
    (hpick : ∀ t k, pick t k = if replaces k t then k else t) (acc : IdleHint) (ih : Bool)
    (k : DualTimestamp) :
    (acc.add replaces ih k).summary = addSummary pick acc.summary (ih, k.monotonic) := by
  obtain ⟨idle, since⟩ := acc
  unfold IdleHint.add IdleHint.summary addSummary
  rw [hpick]
  cases ih with
  | false =>
    cases idle with
    | false => by_cases h : replaces k.monotonic since.monotonic = true <;> simp [h]
    | true => rfl
  | true =>
    cases idle with
    | false => rfl
    | true =>
      by_cases h : k.monotonic > since.monotonic
      · simp [h, Nat.max_eq_right (Nat.le_of_lt h)]
      · simp [h, Nat.max_eq_left (Nat.not_lt.mp h)]

theorem summary_foldl {replaces : Nat → Nat → Bool} {pick : Nat → Nat → Nat}
    (hpick : ∀ t k, pick t k = if replaces k t then k else t) (acc : IdleHint)
    (hints : List (Bool × DualTimestamp)) :
    (hints.foldl (fun acc h => acc.add replaces h.1 h.2) acc).summary =
      (hints.map fun h => (h.1, h.2.monotonic)).foldl (addSummary pick) acc.summary := by
  induction hints generalizing acc with
  | nil => rfl
  | cons h hints ih =>
    rw [foldl_cons, ih, map_cons, foldl_cons, summary_add hpick]

/-- Once a session has been busy, only busy sessions count. -/
theorem foldl_addSummary_busy (pick : Nat → Nat → Nat) (t : Nat) (hints : List (Bool × Nat)) :
    hints.foldl (addSummary pick) (false, t) = (false, (timesOf false hints).foldl pick t) := by
  induction hints generalizing t with
  | nil => rfl
  | cons hint hints ih =>
    obtain ⟨idle, k⟩ := hint
    cases idle with
    | false =>
      show hints.foldl (addSummary pick) (false, pick t k) = _
      rw [ih]
      rfl
    | true =>
      show hints.foldl (addSummary pick) (false, t) = _
      rw [ih]
      rfl

/-- Before that, the first busy session decides. -/
theorem foldl_addSummary_idle (pick : Nat → Nat → Nat) (t : Nat) (hints : List (Bool × Nat)) :
    hints.foldl (addSummary pick) (true, t) =
      match timesOf false hints with
      | [] => (true, (timesOf true hints).foldl max t)
      | k :: ks => (false, ks.foldl pick k) := by
  induction hints generalizing t with
  | nil => rfl
  | cons hint hints ih =>
    obtain ⟨idle, k⟩ := hint
    cases idle with
    | false =>
      show hints.foldl (addSummary pick) (false, k) = _
      rw [foldl_addSummary_busy]
      rfl
    | true =>
      show hints.foldl (addSummary pick) (true, max t k) = _
      rw [ih]
      rfl

theorem foldl_max_eq (l : List Nat) : l.foldl max 0 = l.max?.getD 0 := by
  cases l with
  | nil => rfl
  | cons a l =>
    show l.foldl max (max 0 a) = l.foldl max a
    rw [Nat.zero_max]

/-- The summary the loops of a user and of the manager compute. -/
theorem foldl_min_eq_idleSummary (hints : List (Bool × Nat)) :
    hints.foldl (addSummary min) (true, 0) = idleSummary hints := by
  rw [foldl_addSummary_idle, foldl_max_eq]
  unfold idleSummary
  cases timesOf false hints with
  | nil => rfl
  | cons k ks => rfl

/-- The summary the loop of a seat computes: not idle since the last session has
    been busy. -/
def seatSummary (hints : List (Bool × Nat)) : Bool × Nat :=
  match (timesOf false hints).max? with
  | some t => (false, t)
  | none => (true, (timesOf true hints).max?.getD 0)

theorem foldl_max_eq_seatSummary (hints : List (Bool × Nat)) :
    hints.foldl (addSummary max) (true, 0) = seatSummary hints := by
  rw [foldl_addSummary_idle, foldl_max_eq]
  unfold seatSummary
  cases timesOf false hints with
  | nil => rfl
  | cons k ks => rfl

/-! ## The order does not matter -/

variable {hints hints' : List (Bool × Nat)} {t : Nat} {env : IdleEnv} {s : IdleSession}

theorem mem_timesOf {idle : Bool} : t ∈ timesOf idle hints ↔ (idle, t) ∈ hints := by
  constructor
  · intro h
    obtain ⟨⟨i, k⟩, hmem, rfl⟩ := mem_map.mp h
    obtain ⟨hin, hi⟩ := mem_filter.mp hmem
    have hi : i = idle := by simpa using hi
    exact hi ▸ hin
  · intro h
    exact mem_map.mpr ⟨(idle, t), mem_filter.mpr ⟨h, by simp⟩, rfl⟩

theorem min?_congr {l l' : List Nat} (h : ∀ t, t ∈ l ↔ t ∈ l') : l.min? = l'.min? := by
  apply Option.ext
  intro t
  rw [min?_eq_some_iff, min?_eq_some_iff]
  simp only [h]

theorem max?_congr {l l' : List Nat} (h : ∀ t, t ∈ l ↔ t ∈ l') : l.max? = l'.max? := by
  apply Option.ext
  intro t
  rw [max?_eq_some_iff, max?_eq_some_iff]
  simp only [h]

theorem idleSummary_congr (h : ∀ hint, hint ∈ hints ↔ hint ∈ hints') :
    idleSummary hints = idleSummary hints' := by
  unfold idleSummary
  rw [min?_congr fun t => (mem_timesOf).trans ((h _).trans (mem_timesOf).symm),
    max?_congr fun t => (mem_timesOf).trans ((h _).trans (mem_timesOf).symm)]

theorem seatSummary_congr (h : ∀ hint, hint ∈ hints ↔ hint ∈ hints') :
    seatSummary hints = seatSummary hints' := by
  unfold seatSummary
  rw [max?_congr fun t => (mem_timesOf).trans ((h (false, t)).trans (mem_timesOf).symm),
    max?_congr fun t => (mem_timesOf).trans ((h (true, t)).trans (mem_timesOf).symm)]

/-! ## The three functions -/

/-- The hint of a session as a loop over all sessions sees it. -/
def hintOf (env : IdleEnv) (stale : IdleSession → DualTimestamp) (s : IdleSession) : Bool × Nat :=
  ((sessionGetIdleHint env s).1, ((sessionGetIdleHint env s).2.getD (stale s)).monotonic)

/-- A session whose class knows idling has a time stamp of its own. -/
theorem sessionGetIdleHint_some (h : s.sessionClass.canIdle = true) :
    ∃ t, (sessionGetIdleHint env s).2 = some t := by
  unfold sessionGetIdleHint
  rw [h]
  by_cases hg : s.type.isGraphical = true
  · rw [if_neg (by simp), if_pos hg]
    exact ⟨_, rfl⟩
  · rw [if_neg (by simp), if_neg hg]
    split
    · exact ⟨_, rfl⟩
    · exact ⟨_, rfl⟩

theorem hintOf_eligible (stale : IdleSession → DualTimestamp) (h : s.sessionClass.canIdle = true) :
    hintOf env stale s =
      ((sessionGetIdleHint env s).1, ((sessionGetIdleHint env s).2.getD .null).monotonic) := by
  obtain ⟨t, ht⟩ : ∃ t, (sessionGetIdleHint env s).2 = some t := sessionGetIdleHint_some h
  unfold hintOf
  rw [ht]
  rfl

theorem hintOf_ineligible (env : IdleEnv) (stale : IdleSession → DualTimestamp)
    (h : s.sessionClass.canIdle = false) : hintOf env stale s = (false, (stale s).monotonic) := by
  unfold hintOf sessionGetIdleHint
  rw [h]
  rfl

theorem mem_eligibleHints {sessions : List IdleSession} {hint : Bool × Nat} :
    hint ∈ eligibleHints env sessions ↔
      ∃ s ∈ sessions, s.sessionClass.canIdle = true ∧ hintOf env (fun _ => .null) s = hint := by
  unfold eligibleHints hintOf
  rw [mem_map]
  constructor
  · rintro ⟨s, hs, heq⟩
    obtain ⟨hmem, hidle⟩ := mem_filter.mp hs
    exact ⟨s, hmem, hidle, heq⟩
  · rintro ⟨s, hmem, hidle, heq⟩
    exact ⟨s, mem_filter.mpr ⟨hmem, hidle⟩, heq⟩

theorem idleLoop_summary (env : IdleEnv) (stale : IdleSession → DualTimestamp)
    (sessions : List IdleSession) :
    (idleLoop env stale ⟨true, .null⟩ sessions).summary =
      idleSummary (eligibleHints env sessions) := by
  have hloop : idleLoop env stale ⟨true, .null⟩ sessions =
      ((sessions.filter (·.sessionClass.canIdle)).map fun s =>
        ((sessionGetIdleHint env s).1, (sessionGetIdleHint env s).2.getD (stale s))).foldl
          (fun acc h => acc.add (fun k ts => k < ts) h.1 h.2) ⟨true, .null⟩ := by
    unfold idleLoop
    rw [foldl_map, foldl_filter]
    congr 1
    funext acc s
    cases s.sessionClass.canIdle <;> rfl
  have hpick : ∀ t k : Nat, min t k = if decide (k < t) then k else t := by
    intro t k
    by_cases h : k < t
    · simp [h, Nat.min_eq_right (Nat.le_of_lt h)]
    · simp [h, Nat.min_eq_left (Nat.not_lt.mp h)]
  rw [hloop, summary_foldl hpick, map_map]
  show foldl (addSummary min) (true, 0) _ = _
  rw [foldl_min_eq_idleSummary]
  congr 1
  apply map_congr_left
  intro s hs
  exact hintOf_eligible stale (mem_filter.mp hs).2

theorem seatGetIdleHint_summary (env : IdleEnv) (stale : IdleSession → DualTimestamp)
    (sessions : List IdleSession) :
    (seatGetIdleHint env stale sessions).summary =
      seatSummary (sessions.map (hintOf env stale)) := by
  have hloop : seatGetIdleHint env stale sessions =
      (sessions.map fun s =>
        ((sessionGetIdleHint env s).1, (sessionGetIdleHint env s).2.getD (stale s))).foldl
          (fun acc h => acc.add (fun k ts => k > ts) h.1 h.2) ⟨true, .null⟩ := by
    unfold seatGetIdleHint
    rw [foldl_map]
  have hpick : ∀ t k : Nat, max t k = if decide (k > t) then k else t := by
    intro t k
    by_cases h : k > t
    · simp [h, Nat.max_eq_right (Nat.le_of_lt h)]
    · simp [h, Nat.max_eq_left (Nat.not_lt.mp h)]
  rw [hloop, summary_foldl hpick, map_map]
  show foldl (addSummary max) (true, 0) _ = _
  rw [foldl_max_eq_seatSummary]
  rfl

/-! ## When the hints agree -/

/-- What a seat sees: the hints of the other loops, and for every session that
    knows no idling a busy one with a stale time stamp. -/
theorem mem_map_hintOf {stale : IdleSession → DualTimestamp} {sessions : List IdleSession}
    {hint : Bool × Nat} :
    hint ∈ sessions.map (hintOf env stale) ↔ hint ∈ eligibleHints env sessions ∨
      ∃ s ∈ sessions, s.sessionClass.canIdle = false ∧ hint = (false, (stale s).monotonic) := by
  rw [mem_map, mem_eligibleHints]
  constructor
  · rintro ⟨s, hs, rfl⟩
    cases hidle : s.sessionClass.canIdle with
    | true =>
      refine .inl ⟨s, hs, hidle, ?_⟩
      rw [hintOf_eligible _ hidle, hintOf_eligible _ hidle]
    | false => exact .inr ⟨s, hs, hidle, hintOf_ineligible env stale hidle⟩
  · rintro (⟨s, hs, hidle, rfl⟩ | ⟨s, hs, hidle, rfl⟩)
    · refine ⟨s, hs, ?_⟩
      rw [hintOf_eligible _ hidle, hintOf_eligible _ hidle]
    · exact ⟨s, hs, hintOf_ineligible env stale hidle⟩

/-- All busy sessions whose class knows idling have been busy since the same time. -/
def BusyTogether (env : IdleEnv) (sessions : List IdleSession) : Prop :=
  ∀ t t', (false, t) ∈ eligibleHints env sessions → (false, t') ∈ eligibleHints env sessions →
    t = t'

/-- Every session knows idling, or a busy one that does has the largest time stamp
    there is. -/
def StaleHidden (env : IdleEnv) (sessions : List IdleSession) : Prop :=
  (∀ s ∈ sessions, s.sessionClass.canIdle = true) ∨
    ∃ t, (false, t) ∈ eligibleHints env sessions ∧ usecInfinity ≤ t

/-- A summary of busy sessions has the time stamp that was picked. -/
theorem seatSummary_busy (h : (false, t) ∈ hints) (hmax : ∀ t', (false, t') ∈ hints → t' ≤ t) :
    seatSummary hints = (false, t) := by
  have hsome : (timesOf false hints).max? = some t := by
    rw [max?_eq_some_iff]
    exact ⟨(mem_timesOf).mpr h, fun t' ht' => hmax t' ((mem_timesOf).mp ht')⟩
  unfold seatSummary
  rw [hsome]

theorem idleSummary_busy (h : (false, t) ∈ hints) (hmin : ∀ t', (false, t') ∈ hints → t ≤ t') :
    idleSummary hints = (false, t) := by
  have hsome : (timesOf false hints).min? = some t := by
    rw [min?_eq_some_iff]
    exact ⟨(mem_timesOf).mpr h, fun t' ht' => hmin t' ((mem_timesOf).mp ht')⟩
  unfold idleSummary
  rw [hsome]

theorem summary_of_no_busy (h : ∀ t, (false, t) ∉ hints) : seatSummary hints = idleSummary hints := by
  have hnil : timesOf false hints = [] := by
    rw [eq_nil_iff_forall_not_mem]
    exact fun t ht => h t ((mem_timesOf).mp ht)
  unfold seatSummary idleSummary
  rw [hnil]
  rfl

/-- The seat reports a busy time stamp that is the latest, the user the earliest. -/
theorem bounds_of_summary_eq (heq : seatSummary hints = idleSummary hints') (h : (false, t) ∈ hints) :
    ∃ c, (false, c) ∈ hints' ∧ t ≤ c ∧ ∀ t', (false, t') ∈ hints' → c ≤ t' := by
  have hne : timesOf false hints ≠ [] := ne_nil_of_mem ((mem_timesOf).mpr h)
  unfold seatSummary idleSummary at heq
  cases hmax : (timesOf false hints).max? with
  | none => exact absurd (max?_eq_none_iff.mp hmax) hne
  | some c =>
    rw [hmax] at heq
    cases hmin : (timesOf false hints').min? with
    | none =>
      rw [hmin] at heq
      simp at heq
    | some c' =>
      rw [hmin] at heq
      have hc : c = c' := (Prod.mk.inj heq).2
      subst hc
      rw [max?_eq_some_iff] at hmax
      rw [min?_eq_some_iff] at hmin
      exact ⟨c, (mem_timesOf).mp hmin.1, hmax.2 t ((mem_timesOf).mpr h),
        fun t' ht' => hmin.2 t' ((mem_timesOf).mpr ht')⟩

/-- The three functions agree exactly when no two sessions have been busy since
    different times (`BusyTogether`) and no stale time stamp shows (`StaleHidden`). -/
theorem idleHintsAgree_iff (env : IdleEnv) (sessions : List IdleSession) :
    IdleHintsAgree env sessions ↔ BusyTogether env sessions ∧ StaleHidden env sessions := by
  constructor
  · intro h
    constructor
    · intro t t' ht ht'
      have hseat := h.seat (fun _ => .null) sessions (fun _ => Nat.zero_le _) (.refl _)
      rw [seatGetIdleHint_summary] at hseat
      obtain ⟨c, hc, htc, hmin⟩ := bounds_of_summary_eq hseat ((mem_map_hintOf).mpr (.inl ht))
      obtain ⟨c', hc', htc', hmin'⟩ := bounds_of_summary_eq hseat ((mem_map_hintOf).mpr (.inl ht'))
      have h₂ := hmin t' ht'
      have h₃ := hmin' t ht
      omega
    · by_cases hex : ∃ s ∈ sessions, s.sessionClass.canIdle = false
      · -- a session that knows no idling is shown with whatever the variable holds
        obtain ⟨s, hs, hidle⟩ := hex
        have hseat := h.seat (fun _ => ⟨0, usecInfinity⟩) sessions (fun _ => Nat.le_refl _)
          (.refl _)
        rw [seatGetIdleHint_summary] at hseat
        have hstale : (false, usecInfinity) ∈ sessions.map (hintOf env fun _ =>
            ⟨0, usecInfinity⟩) := (mem_map_hintOf).mpr (.inr ⟨s, hs, hidle, rfl⟩)
        obtain ⟨c, hc, hle, -⟩ := bounds_of_summary_eq hseat hstale
        exact .inr ⟨c, hc, hle⟩
      · refine .inl ?_
        intro s hs
        cases hidle : s.sessionClass.canIdle with
        | true => rfl
        | false => exact absurd ⟨s, hs, hidle⟩ hex
  · rintro ⟨htogether, hhidden⟩
    have hperm : ∀ {l : List IdleSession}, l.Perm sessions →
        idleSummary (eligibleHints env l) = idleSummary (eligibleHints env sessions) := by
      intro l hl
      apply idleSummary_congr
      intro hint
      rw [mem_eligibleHints, mem_eligibleHints]
      simp only [hl.mem_iff]
    refine ⟨?_, ?_, ?_, fun hints hhints => idleSummary_congr hhints⟩
    · intro stale l hl
      exact (idleLoop_summary env stale l).trans (hperm hl)
    · intro stale l inhibitors hl hno
      unfold managerGetIdleHint
      rw [hno]
      exact (idleLoop_summary env stale l).trans (hperm hl)
    · intro stale l hstale hl
      have hmem : ∀ hint, hint ∈ l.map (hintOf env stale) ↔
          hint ∈ sessions.map (hintOf env stale) := by
        intro hint
        rw [mem_map, mem_map]
        simp only [hl.mem_iff]
      rw [seatGetIdleHint_summary, seatSummary_congr hmem]
      by_cases hbusy : ∃ t, (false, t) ∈ eligibleHints env sessions
      · obtain ⟨t, ht⟩ := hbusy
        rw [idleSummary_busy ht fun t' ht' => Nat.le_of_eq (htogether t t' ht ht')]
        refine seatSummary_busy ((mem_map_hintOf).mpr (.inl ht)) ?_
        intro t' ht'
        rcases (mem_map_hintOf).mp ht' with ht' | ⟨s, hs, hidle, heq⟩
        · exact Nat.le_of_eq (htogether t' t ht' ht)
        · rcases hhidden with hall | ⟨c, hc, hle⟩
          · simp [hall s hs] at hidle
          · have hct := htogether c t hc ht
            have hs' := hstale s
            have ht's : t' = (stale s).monotonic := (Prod.mk.inj heq).2
            omega
      · have hall : ∀ s ∈ sessions, s.sessionClass.canIdle = true := by
          rcases hhidden with hall | ⟨c, hc, -⟩
          · exact hall
          · exact absurd ⟨c, hc⟩ hbusy
        have hsame : ∀ hint, hint ∈ sessions.map (hintOf env stale) ↔
            hint ∈ eligibleHints env sessions := by
          intro hint
          rw [mem_map_hintOf]
          refine or_iff_left ?_
          rintro ⟨s, hs, hidle, -⟩
          simp [hall s hs] at hidle
        rw [seatSummary_congr hsame]
        exact summary_of_no_busy fun t ht => hbusy ⟨t, ht⟩

/-- Two busy graphical sessions of one user on one seat: the user has been busy
    since the first of them is, the seat since the second. -/
theorem not_idleHintsAgree_of_two_busy :
    ¬ IdleHintsAgree ⟨100, 100, fun _ => .error .ENOENT, fun _ => .error .ENOENT, 0, usecInfinity⟩
      [⟨.user, .wayland, false, ⟨10, 10⟩, none, none⟩,
        ⟨.user, .wayland, false, ⟨20, 20⟩, none, none⟩] := by
  intro h
  have huser := h.user (fun _ => .null) _ (.refl _)
  have hseat := h.seat (fun _ => .null) _ (fun _ => Nat.zero_le _) (.refl _)
  rw [← huser] at hseat
  revert hseat
  decide

end Elogind
