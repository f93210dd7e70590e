/-
  Elogind.Login.SeatSwitch

  Switching to the session in the next or in the previous position of a seat (`seat_switch_to_next` and
  `seat_switch_to_previous` of logind-seat.c, `session_activate` of logind-session.c).

  The positions other than that of the session in the foreground are visited in a circle; one direction
  is the other one reversed.
-/

import Mathlib.Data.List.ReduceOption
import Mathlib.Data.List.Rotate
import Elogind.Login.Change

namespace Elogind

open Function Errno List

namespace Manager

/-! ## Activating a session -/

/-- `session_device_try_pause_all`, with the number of devices that are waited for. -/
def sessionDeviceTryPauseAll (m : Manager) (s : Ref) : Manager × Nat :=
  (m.session.devices s).foldl
    (fun (m, pending) sd =>
      if !m.sd.active sd then (m, pending) else (m.sessionDeviceNotify sd .tryPause, pending + 1))
    (m, 0)

/-- `seat_complete_switch` -/
def seatCompleteSwitch (env : Env) (m : Manager) (x : Ref) : Manager :=
  match m.seat.pendingSwitch x with
  | none => m
  | some s => (m.seatPutPending x none).seatSetActive env x (some s)

/-- `session_activate` -/
def sessionActivate (env : Env) (m : Manager) (s : Ref) : Manager × Result Unit :=
  match m.session.seat s with
  | none => (m, .error EOPNOTSUPP)
  | some x =>
    if m.seat.active x = some s then (m, .ok ())
    else if m.seatHasVts x then
      if m.session.vtnr s = 0 then (m, .error EOPNOTSUPP) else (m, env.chvt)
    else
      let (m, pending) := (m.seatPutPending x (some s)).sessionDeviceTryPauseAll s
      (if pending = 0 then m.seatCompleteSwitch env x else m, .ok ())

/-! ## The scans -/

/-- Where the scans start: the position in the foreground, or 1. -/
def seatScanStart (m : Manager) (x : Ref) : Nat :=
  match m.seat.active x with
  | some a => if m.session.position a > 0 then m.session.position a else 1
  | none => 1

/-- What `seat_switch_to_next` finds: first from `start + 1` to the end, then from 1 to `start - 1`.
    The positions are of unsigned 32-bit type. -/
def seatNext (m : Manager) (x : Ref) : Option Ref :=
  let start := m.seatScanStart x
  (((m.seat.positions x).drop ((start + 1) % 2 ^ 32)).findSome? id).or
    ((((m.seat.positions x).take start).drop 1).findSome? id)

/-- What `seat_switch_to_previous` finds: first from `start - 1` down to 1, then from the end down to
    `start + 1`. -/
def seatPrevious (m : Manager) (x : Ref) : Option Ref :=
  let start := m.seatScanStart x
  ((((m.seat.positions x).take start).drop 1).reverse.findSome? id).or
    (((m.seat.positions x).drop (start + 1)).reverse.findSome? id)

/-- `seat_switch_to_next` -/
def seatSwitchToNext (env : Env) (m : Manager) (x : Ref) : Manager × Result Unit :=
  if m.seat.positions x = [] then (m, .error EINVAL)
  else
    match m.seatNext x with
    | some s => m.sessionActivate env s
    | none => (m, .error EINVAL)

/-- `seat_switch_to_previous` -/
def seatSwitchToPrevious (env : Env) (m : Manager) (x : Ref) : Manager × Result Unit :=
  if m.seat.positions x = [] then (m, .error EINVAL)
  else
    match m.seatPrevious x with
    | some s => m.sessionActivate env s
    | none => (m, .error EINVAL)

/-! ## Whether a target is found -/

variable {m m' : Manager} {x a : Ref} {env : Env}

/-- The session `s` has the position `i` of the seat. -/
def Holds (m : Manager) (x : Ref) (i : Nat) (s : Ref) : Prop := (m.seat.positions x)[i]? = some (some s)

theorem findSome?_eq_none (l : List (Option Ref)) :
    l.findSome? id = none ↔ ∀ (i : Nat) (s : Ref), l[i]? ≠ some (some s) := by
  rw [findSome?_eq_none_iff]
  constructor
  · intro h i s hi
    cases h _ (mem_of_getElem? hi)
  · intro h o ho
    obtain ⟨i, hi⟩ := getElem?_of_mem ho
    cases o with
    | none => rfl
    | some s => exact absurd hi (h i s)

theorem findSome?_reverse_eq_none (l : List (Option Ref)) :
    l.reverse.findSome? id = none ↔ l.findSome? id = none := by
  simp [findSome?_eq_none_iff]

theorem drop_eq_none_iff (n : Nat) :
    ((m.seat.positions x).drop n).findSome? id = none ↔ ∀ i s, n ≤ i → ¬ m.Holds x i s := by
  rw [findSome?_eq_none]
  constructor
  · intro h i s hi hs
    refine h (i - n) s ?_
    rw [getElem?_drop, Nat.add_sub_cancel' hi]
    exact hs
  · intro h i s hi
    rw [getElem?_drop] at hi
    exact h (n + i) s (Nat.le_add_right n i) hi

theorem take_eq_none_iff (n : Nat) :
    (((m.seat.positions x).take n).drop 1).findSome? id = none ↔
      ∀ i s, 0 < i → i < n → ¬ m.Holds x i s := by
  rw [findSome?_eq_none]
  constructor
  · intro h i s hpos hi hs
    refine h (i - 1) s ?_
    rw [getElem?_drop, Nat.add_sub_cancel' hpos, getElem?_take_of_lt hi]
    exact hs
  · intro h i s hi
    rw [getElem?_drop] at hi
    by_cases hn : 1 + i < n
    · rw [getElem?_take_of_lt hn] at hi
      exact h (1 + i) s (by omega) hn hi
    · rw [getElem?_take_eq_none (by omega)] at hi
      cases hi

/-- Nothing is found only when all positions but the start are free. -/
theorem free_of_next (h : m.seatNext x = none) :
    ∀ i s, 0 < i → i ≠ m.seatScanStart x → ¬ m.Holds x i s := by
  obtain ⟨hafter, hbefore⟩ := Option.or_eq_none_iff.mp h
  rw [drop_eq_none_iff] at hafter
  rw [take_eq_none_iff] at hbefore
  intro i s hpos hne
  by_cases hi : i < m.seatScanStart x
  · exact hbefore i s hpos hi
  · exact hafter i s (by omega)

theorem previous_eq_none_iff :
    m.seatPrevious x = none ↔ ∀ i s, 0 < i → i ≠ m.seatScanStart x → ¬ m.Holds x i s := by
  unfold seatPrevious
  rw [Option.or_eq_none_iff, findSome?_reverse_eq_none, findSome?_reverse_eq_none, take_eq_none_iff,
    drop_eq_none_iff]
  constructor
  · rintro ⟨hbefore, hafter⟩ i s hpos hne
    by_cases hi : i < m.seatScanStart x
    · exact hbefore i s hpos hi
    · exact hafter i s (by omega)
  · intro h
    exact ⟨fun i s hpos hi => h i s hpos (by omega), fun i s hi => h i s (by omega) (by omega)⟩

/-- `session_activate` itself does not answer `EINVAL`. -/
theorem activate_ne_einval (hchvt : env.chvt ≠ .error EINVAL) (s : Ref) :
    (m.sessionActivate env s).2 ≠ .error EINVAL := by
  have hne : (Except.error EOPNOTSUPP : Result Unit) ≠ .error EINVAL := by decide
  unfold sessionActivate
  split
  · exact hne
  · split
    · exact nofun
    · split
      · split
        · exact hne
        · exact hchvt
      · exact nofun

theorem next_einval_iff (hchvt : env.chvt ≠ .error EINVAL) :
    (m.seatSwitchToNext env x).2 = .error EINVAL ↔ m.seatNext x = none := by
  unfold seatSwitchToNext
  split
  · next hnil => simp [seatNext, hnil]
  · split
    · next s hs => simp [activate_ne_einval hchvt, hs]
    · next hs => simp [hs]

theorem previous_einval_iff (hchvt : env.chvt ≠ .error EINVAL) :
    (m.seatSwitchToPrevious env x).2 = .error EINVAL ↔ m.seatPrevious x = none := by
  unfold seatSwitchToPrevious
  split
  · next hnil => simp [seatPrevious, hnil]
  · split
    · next s hs => simp [activate_ne_einval hchvt, hs]
    · next hs => simp [hs]

/-- No position but that of the session in the foreground is taken. -/
def NoOther (m : Manager) (x : Ref) : Prop :=
  ∀ i s, 0 < i → m.Holds x i s → (m.seat.active x).map m.session.position = some i

/-- No session with a position is in the foreground, and position 1 is the only one that is taken: it is
    the substitute start, which both scans leave out. -/
structure OnlyStart (m : Manager) (x : Ref) : Prop where
  unplaced : ∀ a, m.seat.active x = some a → m.session.position a = 0
  first : ∃ s, m.Holds x 1 s
  only : ∀ i s, 1 < i → ¬ m.Holds x i s

theorem OnlyStart.start (h : m.OnlyStart x) : m.seatScanStart x = 1 := by
  unfold seatScanStart
  split
  · next a ha => rw [h.unplaced a ha, if_neg (Nat.lt_irrefl 0)]
  · rfl

theorem OnlyStart.not_noOther (h : m.OnlyStart x) : ¬ m.NoOther x := by
  intro hno
  obtain ⟨s, hs⟩ := h.first
  obtain ⟨a, ha, hpos⟩ := Option.map_eq_some_iff.mp (hno 1 s Nat.one_pos hs)
  rw [h.unplaced a ha] at hpos
  cases hpos

/-- When all positions but the start are free, no other is taken or it is the substitute start. -/
theorem noOther_of_free (hfree : ∀ i s, 0 < i → i ≠ m.seatScanStart x → ¬ m.Holds x i s)
    (h : ¬ m.OnlyStart x) : m.NoOther x := by
  intro i s hpos hs
  have hi : i = m.seatScanStart x := by
    by_contra hne
    exact hfree i s hpos hne hs
  unfold seatScanStart at hfree hi
  split at hi
  · next a ha =>
    split at hi
    · rw [ha, Option.map_some, hi]
    · next hplace =>
      subst hi
      refine absurd ⟨fun b hb => ?_, ⟨s, hs⟩, fun j t hj ht => ?_⟩ h
      · rw [ha] at hb
        cases hb
        omega
      · rw [ha] at hfree
        exact hfree j t (by omega) (by simp only [if_neg hplace]; omega) ht
  · next ha =>
    subst hi
    refine absurd ⟨fun b hb => by simp [ha] at hb, ⟨s, hs⟩, fun j t hj ht => ?_⟩ h
    rw [ha] at hfree
    exact hfree j t (by omega) (by dsimp only; omega) ht

/-- Both ways of switching report that there is nothing to switch to only when that is so, unless the only
    session with a position has position 1 and is not in the foreground.  Changing the VT does not fail
    with `EINVAL`. -/
theorem switch_finds_target_iff (env : Env) (m : Manager) (x : Ref) (hchvt : env.chvt ≠ .error EINVAL) :
    (((m.seatSwitchToNext env x).2 = .error EINVAL → m.NoOther x) ↔ ¬ m.OnlyStart x) ∧
    (((m.seatSwitchToPrevious env x).2 = .error EINVAL → m.NoOther x) ↔ ¬ m.OnlyStart x) := by
  rw [next_einval_iff hchvt, previous_einval_iff hchvt]
  refine ⟨⟨fun h hstart => ?_, fun h hnone => noOther_of_free (free_of_next hnone) h⟩,
    ⟨fun h hstart => ?_, fun h hnone => noOther_of_free (previous_eq_none_iff.mp hnone) h⟩⟩
  · refine hstart.not_noOther (h (Option.or_eq_none_iff.mpr ⟨?_, ?_⟩))
    · rw [drop_eq_none_iff, hstart.start]
      exact fun i s hi => hstart.only i s hi
    · rw [take_eq_none_iff, hstart.start]
      exact fun i s hpos hi => absurd hpos (by omega)
  · refine hstart.not_noOther (h (previous_eq_none_iff.mpr fun i s hpos hne => ?_))
    rw [hstart.start] at hne
    exact hstart.only i s (by omega)

end Manager

/-- Seat 2 of a console whose VT in the foreground has no session; session 5 is on VT 1. -/
def emptyVt : Manager :=
  { Manager.empty true with
    seat0 := some 2
    seat := { (Manager.empty true).seat with positions := fun _ => [none, some 5, none, none] }
    session := { (Manager.empty true).session with
      seat := fun _ => some 2, vtnr := fun _ => 1, position := fun _ => 1 } }

theorem switch_finds_target_emptyVt :
    ((emptyVt.seatSwitchToNext .calm 2).2 = .error EINVAL → emptyVt.NoOther 2) ↔ ¬ emptyVt.OnlyStart 2 :=
  (Manager.switch_finds_target_iff .calm emptyVt 2 (by decide)).1

/-- From an empty VT neither way of switching leads to the session on VT 1. -/
theorem switch_misses_first :
    (emptyVt.seatSwitchToNext .calm 2).2 = .error EINVAL ∧
    (emptyVt.seatSwitchToPrevious .calm 2).2 = .error EINVAL ∧ ¬ emptyVt.NoOther 2 :=
  ⟨by decide, by decide, fun h => by simpa [emptyVt, Manager.empty] using h 1 5 (by decide) rfl⟩

namespace Manager

variable {m m' : Manager} {x a : Ref}

/-! ## The devices of the sessions -/

/-- Whatever device of a session is active can be stopped. -/
def Stoppable (m : Manager) : Prop := ∀ s, ∀ sd ∈ m.session.devices s,
  m.sd.active sd = true → ¬ (m.sd.type sd = .drm ∧ (m.sd.fd sd).isNone)

/-- Only session devices of `l` change, and those that are active can still be stopped. -/
structure DevicesOnly (l : List Ref) (m m' : Manager) : Prop where
  session : m'.session = m.session
  seat : m'.seat = m.seat
  seat0 : m'.seat0 = m.seat0
  consoleActive : m'.consoleActive = m.consoleActive
  others : ∀ sd ∉ l, m'.sd.active sd = m.sd.active sd
  stoppable : m.Stoppable → m'.Stoppable

namespace DevicesOnly

variable {m'' : Manager} {l : List Ref}

theorem refl (l : List Ref) (m : Manager) : DevicesOnly l m m := ⟨rfl, rfl, rfl, rfl, fun _ _ => rfl, id⟩

theorem trans (h : DevicesOnly l m m') (h' : DevicesOnly l m' m'') : DevicesOnly l m m'' where
  session := h'.session.trans h.session
  seat := h'.seat.trans h.seat
  seat0 := h'.seat0.trans h.seat0
  consoleActive := h'.consoleActive.trans h.consoleActive
  others sd hsd := (h'.others sd hsd).trans (h.others sd hsd)
  stoppable hs := h'.stoppable (h.stoppable hs)

theorem foldl {f : Manager → Ref → Manager} (hf : ∀ m, ∀ sd ∈ l, DevicesOnly l m (f m sd))
    (l' : List Ref) (hl : ∀ sd ∈ l', sd ∈ l) (m : Manager) : DevicesOnly l m (l'.foldl f m) := by
  induction l' generalizing m with
  | nil => exact refl l m
  | cons sd l' ih =>
    exact (hf m sd (hl sd (.head _))).trans (ih (fun i hi => hl i (.tail _ hi)) (f m sd))

theorem notify (m : Manager) (sd : Ref) (n : Notification) : DevicesOnly l m (m.sessionDeviceNotify sd n) := by
  unfold sessionDeviceNotify
  split
  · exact refl l m
  · split
    · exact refl l m
    · exact ⟨rfl, rfl, rfl, rfl, fun _ _ => rfl, id⟩

theorem stop (m : Manager) {sd : Ref} (hsd : sd ∈ l) : DevicesOnly l m (m.sessionDeviceStop sd) := by
  unfold sessionDeviceStop
  split
  · exact refl l m
  · split
    · exact refl l m
    · refine ⟨rfl, rfl, rfl, rfl, fun i hi => update_of_ne (by rintro rfl; exact hi hsd) .., fun hs s i hi hact => ?_⟩
      by_cases he : i = sd
      · subst he
        simp only [update_self, Bool.false_eq_true] at hact
      · exact hs s i hi (by simpa only [update_of_ne he] using hact)

theorem start (env : Env) (m : Manager) {sd : Ref} (hsd : sd ∈ l) :
    DevicesOnly l m (m.sessionDeviceStart env sd).1 := by
  -- the device that is started has a descriptor, or needs none to be stopped
  have hput : ∀ (fds : Ref → Option Nat), (∀ i, i ≠ sd → fds i = m.sd.fd i) →
      ¬ (m.sd.type sd = .drm ∧ (fds sd).isNone) →
      DevicesOnly l m { m with sd.fd := fds, sd.active := update m.sd.active sd true } := by
    intro fds hfds hdrm
    refine ⟨rfl, rfl, rfl, rfl, fun i hi => update_of_ne (by rintro rfl; exact hi hsd) .., fun hs s i hi hact => ?_⟩
    by_cases he : i = sd
    · exact he ▸ hdrm
    · dsimp only at hact ⊢
      rw [hfds i he]
      exact hs s i hi (by simpa only [update_of_ne he] using hact)
  unfold sessionDeviceStart
  split
  · exact refl l m
  · split
    · split
      · exact refl l m
      · next hfd =>
        split
        · exact refl l m
        · exact hput m.sd.fd (fun _ _ => rfl) fun h => hfd h.2
    all_goals next htype => first
      | exact hput m.sd.fd (fun _ _ => rfl) fun h => by simp [htype] at h
      | split
        · exact refl l m
        · exact hput _ (fun i hi => update_of_ne hi ..) fun h => by simp [htype] at h

theorem save (env : Env) (m : Manager) (sd : Ref) : DevicesOnly l m (m.sessionDeviceSave env sd).1 := by
  unfold sessionDeviceSave
  split
  · exact refl l m
  · split
    · exact refl l m
    · exact ⟨rfl, rfl, rfl, rfl, fun _ _ => rfl, id⟩

theorem resumeAll (env : Env) (m : Manager) (s : Ref) :
    DevicesOnly (m.session.devices s) m (m.sessionDeviceResumeAll env s) := by
  refine foldl (fun m' sd hsd => ?_) _ (fun _ h => h) m
  unfold sessionDeviceResume
  split
  · exact refl _ m'
  · dsimp only
    split
    · exact start env m' hsd
    · split
      · exact (start env m' hsd).trans (save env _ sd)
      · exact ((start env m' hsd).trans (save env _ sd)).trans (notify _ sd .resume)

theorem pause (m : Manager) {sd : Ref} (hsd : sd ∈ l) : DevicesOnly l m (m.sessionDevicePause sd) := by
  unfold sessionDevicePause
  split
  · exact refl l m
  · exact (stop m hsd).trans (notify _ sd .pause)

theorem pauseAll (m : Manager) (s : Ref) :
    DevicesOnly (m.session.devices s) m (m.sessionDevicePauseAll s) :=
  foldl (fun m' _ hsd => pause m' hsd) _ (fun _ h => h) m

end DevicesOnly

theorem active_notify (m : Manager) (sd : Ref) (n : Notification) :
    (m.sessionDeviceNotify sd n).sd.active = m.sd.active := by
  unfold sessionDeviceNotify
  split
  · rfl
  · split <;> rfl

/-- Pausing activates no device, and the one that is paused is inactive afterwards. -/
theorem active_pause {s sd i : Ref} (hs : m.Stoppable) (hsd : sd ∈ m.session.devices s)
    (h : (m.sessionDevicePause sd).sd.active i = true) : i ≠ sd ∧ m.sd.active i = true := by
  unfold sessionDevicePause at h
  split at h
  · next hoff => exact ⟨fun he => by simp [← he, h] at hoff, h⟩
  · next hact =>
    have hact : m.sd.active sd = true := by simpa using hact
    rw [active_notify, sessionDeviceStop, hact, Bool.not_true, if_neg Bool.false_ne_true,
      if_neg (hs s sd hsd hact)] at h
    by_cases he : i = sd
    · simp [he] at h
    · exact ⟨he, by simpa only [update_of_ne he] using h⟩

theorem active_pauseAll (hs : m.Stoppable) (s : Ref) :
    ∀ sd ∈ m.session.devices s, (m.sessionDevicePauseAll s).sd.active sd = false := by
  -- what is active after the loop was active before and is none of the list
  have hloop : ∀ (l : List Ref) (m : Manager), m.Stoppable → (∀ sd ∈ l, sd ∈ m.session.devices s) →
      ∀ i, (l.foldl sessionDevicePause m).sd.active i = true → i ∉ l ∧ m.sd.active i = true := by
    intro l
    induction l with
    | nil => exact fun m _ _ i hi => ⟨not_mem_nil, hi⟩
    | cons sd l ih =>
      intro m hs hl i hi
      have hsd := hl sd (.head _)
      have hframe := DevicesOnly.pause m hsd
      obtain ⟨hnotin, hact⟩ := ih (m.sessionDevicePause sd) (hframe.stoppable hs)
        (fun j hj => by rw [hframe.session]; exact hl j (.tail _ hj)) i hi
      obtain ⟨hne, hact⟩ := active_pause hs hsd hact
      exact ⟨fun hmem => (mem_cons.mp hmem).elim hne hnotin, hact⟩
  intro sd hsd
  by_contra hact
  exact (hloop _ m hs (fun _ h => h) sd (Bool.not_eq_false _ ▸ hact)).1 hsd

/-! ## Switching on a seat without VTs -/

/-- A seat without VTs between two switches: the sessions in the table know their position, `a` is in the
    foreground and holds its position, and no other session has devices that are active. -/
structure Switchable (m : Manager) (x a : Ref) : Prop where
  noVts : m.seatHasVts x = false
  short : (m.seat.positions x).length < 2 ^ 32
  table : ∀ i s, m.Holds x i s → 0 < i ∧ m.session.position s = i ∧ m.session.seat s = some x
  active : m.seat.active x = some a
  slot : m.Holds x (m.session.position a) a
  /-- A device is held by one session. -/
  owner : ∀ s t sd, sd ∈ m.session.devices s → sd ∈ m.session.devices t → s = t
  idle : ∀ s, s ≠ a → ∀ sd ∈ m.session.devices s, m.sd.active sd = false
  stoppable : m.Stoppable

namespace Switchable

variable {b : Ref}

theorem tryPauseAll (h : ∀ sd ∈ m.session.devices b, m.sd.active sd = false) :
    m.sessionDeviceTryPauseAll b = (m, 0) := by
  unfold sessionDeviceTryPauseAll
  generalize m.session.devices b = l at h
  induction l with
  | nil => rfl
  | cons sd l ih =>
    rw [foldl_cons]
    simp only [h sd (.head _), Bool.not_false, if_true]
    exact ih fun i hi => h i (.tail _ hi)

/-- Activating another session of the table moves it to the foreground. -/
theorem activate (h : m.Switchable x a) (env : Env) (hb : m.Holds x (m.session.position b) b) (hne : b ≠ a) :
    (m.sessionActivate env b).2 = .ok () ∧ (m.sessionActivate env b).1.Switchable x b ∧
      (m.sessionActivate env b).1.seat.positions x = m.seat.positions x ∧
      (m.sessionActivate env b).1.session = m.session := by
  obtain ⟨-, -, hseat⟩ := h.table _ _ hb
  have hactive : m.seat.active x ≠ some b := by
    rw [h.active]
    exact fun he => hne (Option.some.inj he).symm
  -- no device of the new session has to be waited for
  have hpending : ∀ sd ∈ (m.seatPutPending x (some b)).session.devices b,
      (m.seatPutPending x (some b)).sd.active sd = false := h.idle b hne
  have heq : m.sessionActivate env b =
      (((m.seatPutPending x (some b)).seatPutPending x none).seatSetActive env x (some b), .ok ()) := by
    unfold sessionActivate
    rw [hseat]
    dsimp only
    rw [if_neg hactive, h.noVts, if_neg Bool.false_ne_true, tryPauseAll hpending]
    rw [if_pos rfl, seatCompleteSwitch]
    simp only [seatPutPending, update_self]
  have hswitch : ((m.seatPutPending x (some b)).seatPutPending x none).seatSetActive env x (some b) =
      let m₁ := (((m.seatPutPending x (some b)).seatPutPending x none).seatPutActive x (some b)).sessionDevicePauseAll a
      if m₁.session.started b then m₁.sessionDeviceResumeAll env b else m₁ := by
    unfold seatSetActive seatSwitch
    have hsame : ((m.seatPutPending x (some b)).seatPutPending x none).seat.active x = some a := h.active
    rw [hsame, if_neg (fun he => hne (Option.some.inj he))]
  set m₀ := ((m.seatPutPending x (some b)).seatPutPending x none).seatPutActive x (some b) with hm₀
  have hstop : m₀.Stoppable := h.stoppable
  have hpause := DevicesOnly.pauseAll m₀ a
  have hoff := active_pauseAll hstop a
  -- what the pause leaves, with or without resuming devices of `b`
  have hfinal : ∀ m', DevicesOnly ((m₀.sessionDevicePauseAll a).session.devices b)
      (m₀.sessionDevicePauseAll a) m' → m'.Switchable x b ∧
        m'.seat.positions x = m.seat.positions x ∧ m'.session = m.session := by
    intro m' hm'
    have hsession : m'.session = m.session := hm'.session.trans hpause.session
    have hseats : m'.seat = m₀.seat := hm'.seat.trans hpause.seat
    have hpos : m'.seat.positions x = m.seat.positions x := by rw [hseats]; rfl
    refine ⟨⟨?_, ?_, ?_, ?_, ?_, ?_, ?_, hm'.stoppable (hpause.stoppable hstop)⟩, hpos, hsession⟩
    · rw [← h.noVts, seatHasVts, hm'.seat0, hm'.consoleActive, hpause.seat0, hpause.consoleActive]
      rfl
    · rw [hpos]
      exact h.short
    · unfold Holds
      rw [hpos, hsession]
      exact h.table
    · rw [hseats]
      exact update_self ..
    · unfold Holds
      rw [hpos, hsession]
      exact hb
    · rw [hsession]
      exact h.owner
    · intro s hs sd hsd
      rw [hsession] at hsd
      have hnotb : sd ∉ (m₀.sessionDevicePauseAll a).session.devices b := by
        rw [hpause.session]
        exact fun hmem => hs (h.owner s b sd hsd hmem)
      rw [hm'.others sd hnotb]
      by_cases ha : s = a
      · subst ha
        exact hoff sd hsd
      · rw [hpause.others sd fun hmem => ha (h.owner s a sd hsd hmem)]
        exact h.idle s ha sd hsd
  rw [heq, hswitch]
  refine ⟨rfl, ?_⟩
  dsimp only
  split
  · exact hfinal _ (DevicesOnly.resumeAll env _ b)
  · exact hfinal _ (DevicesOnly.refl _ _)

end Switchable

/-! ## The circle of the sessions -/

/-- The sessions of the table in circular order from `a` on. -/
def circle (m : Manager) (x a : Ref) : List Ref :=
  a :: ((m.seat.positions x).drop (m.session.position a + 1)).reduceOption ++
    (((m.seat.positions x).take (m.session.position a)).drop 1).reduceOption

namespace Switchable

variable {b : Ref}

theorem start (h : m.Switchable x a) : m.seatScanStart x = m.session.position a := by
  rw [seatScanStart, h.active]
  exact if_pos (h.table _ _ h.slot).1

theorem next_eq (h : m.Switchable x a) : m.seatNext x = (m.circle x a).tail.head? := by
  have hlt : m.session.position a < (m.seat.positions x).length := (List.getElem?_eq_some_iff.mp h.slot).1
  have hwrap : (m.session.position a + 1) % 2 ^ 32 = m.session.position a + 1 :=
    Nat.mod_eq_of_lt (by have := h.short; omega)
  simp only [seatNext, h.start, hwrap, circle, cons_append, tail_cons, head?_append,
    reduceOption, head?_filterMap]

theorem previous_eq (h : m.Switchable x a) : m.seatPrevious x = (m.circle x a).tail.getLast? := by
  simp only [seatPrevious, h.start, circle, cons_append, tail_cons, getLast?_append,
    reduceOption, getLast?_filterMap]

theorem mem_circle (h : m.Switchable x a) (s : Ref) : s ∈ m.circle x a ↔ ∃ i, m.Holds x i s := by
  simp only [circle, cons_append, mem_cons, mem_append, reduceOption_mem_iff]
  constructor
  · rintro (rfl | hs | hs)
    · exact ⟨_, h.slot⟩
    · exact getElem?_of_mem (mem_of_mem_drop hs)
    · exact getElem?_of_mem (mem_of_mem_take (mem_of_mem_drop hs))
  · rintro ⟨i, hi⟩
    obtain ⟨hpos, rfl, -⟩ := h.table i s hi
    -- before `a` in the table it is at the end of the circle, behind `a` at its beginning
    rcases Nat.lt_trichotomy (m.session.position s) (m.session.position a) with hlt | heq | hgt
    · refine .inr (.inr (mem_of_getElem? (i := m.session.position s - 1) ?_))
      rw [getElem?_drop, Nat.add_sub_cancel' hpos, getElem?_take_of_lt hlt]
      exact hi
    · have hsame := h.slot
      rw [Holds, ← heq] at hsame
      exact .inl (Option.some.inj (Option.some.inj (hi.symm.trans hsame)))
    · refine .inr (.inl (mem_of_getElem? (i := m.session.position s - (m.session.position a + 1)) ?_))
      rw [getElem?_drop, Nat.add_sub_cancel' hgt]
      exact hi

/-- The sessions in the order of their positions, cut at one of them. -/
theorem sessions_eq (hb : m.Holds x (m.session.position b) b) (hpos : 0 < m.session.position b) :
    ((m.seat.positions x).drop 1).reduceOption =
      (((m.seat.positions x).take (m.session.position b)).drop 1).reduceOption ++
        b :: ((m.seat.positions x).drop (m.session.position b + 1)).reduceOption := by
  obtain ⟨hlt, hget⟩ := List.getElem?_eq_some_iff.mp hb
  have hsplit := take_append_drop (m.session.position b) (m.seat.positions x)
  have hlen : 1 ≤ ((m.seat.positions x).take (m.session.position b)).length := by
    rw [length_take]
    omega
  rw [drop_eq_getElem_cons hlt, hget] at hsplit
  conv_lhs => rw [← hsplit]
  rw [drop_append_of_le_length hlen, reduceOption_append, reduceOption_cons_of_some]

theorem nodup_sessions (h : m.Switchable x a) : ((m.seat.positions x).drop 1).reduceOption.Nodup := by
  -- the positions grow along the table, and so no session is there twice
  have hshift : ∀ (l : List (Option Ref)) (k : Nat),
      (∀ (i : Nat) (s : Ref), l[i]? = some (some s) → m.session.position s = k + i) → l.reduceOption.Nodup := by
    intro l
    induction l with
    | nil => exact fun _ _ => nodup_nil
    | cons o l ih =>
      intro k hl
      have htail := ih (k + 1) fun i s hi => by
        have := hl (i + 1) s (by simpa using hi)
        omega
      cases o with
      | none => exact htail
      | some s =>
        refine nodup_cons.mpr ⟨fun hmem => ?_, htail⟩
        obtain ⟨i, hi⟩ := getElem?_of_mem (reduceOption_mem_iff.mp hmem)
        have h₀ := hl 0 s rfl
        have h₁ := hl (i + 1) s (by simpa using hi)
        omega
  refine hshift _ 1 fun i s hi => ?_
  rw [getElem?_drop] at hi
  exact (h.table _ _ hi).2.1

/-- The circle from the next session on is the same circle, turned by one. -/
theorem circle_next (h : m.Switchable x a) {rest : List Ref} (hc : m.circle x a = a :: b :: rest) :
    m.Holds x (m.session.position b) b ∧ b ≠ a ∧ m.circle x b = b :: rest ++ [a] := by
  obtain ⟨i, hb⟩ := (h.mem_circle b).mp (by rw [hc]; exact .tail _ (.head _))
  obtain ⟨hpos, rfl, -⟩ := h.table i b hb
  have hnodup := h.nodup_sessions
  have ha := sessions_eq h.slot (h.table _ _ h.slot).1
  have hsplit := sessions_eq hb hpos
  rw [ha] at hsplit
  simp only [circle, cons_append, cons.injEq, true_and] at hc ⊢
  generalize (((m.seat.positions x).take (m.session.position a)).drop 1).reduceOption = before at *
  generalize ((m.seat.positions x).drop (m.session.position a + 1)).reduceOption = after at *
  cases after with
  | nil =>
    -- past the end of the table: `b` is the first session of it
    obtain rfl : before = b :: rest := hc
    have hnotin : b ∉ ([] : List Ref) ∧ b ∉ rest ++ [a] := by grind
    have hcut := (append_cons_inj_of_notMem hnotin.1 hnotin.2).mp hsplit
    refine ⟨hb, by grind, ?_⟩
    rw [← hcut.1, ← hcut.2.2, append_nil]
  | cons c after =>
    obtain ⟨rfl, rfl⟩ := cons.inj hc
    have hnotin : c ∉ before ++ [a] ∧ c ∉ after := by grind
    rw [append_cons] at hsplit
    have hcut := (append_cons_inj_of_notMem hnotin.1 hnotin.2).mp hsplit
    refine ⟨hb, by grind, ?_⟩
    rw [← hcut.1, ← hcut.2.2]
    exact (append_assoc ..).symm

theorem nodup_circle (h : m.Switchable x a) : (m.circle x a).Nodup := by
  have hnodup := h.nodup_sessions
  rw [sessions_eq h.slot (h.table _ _ h.slot).1] at hnodup
  unfold circle
  grind

theorem positions_ne_nil (h : m.Switchable x a) : m.seat.positions x ≠ [] := by
  intro hnil
  have := h.slot
  rw [Holds, hnil] at this
  cases this

/-- One switch to the next session, on the circle. -/
theorem switch_next (h : m.Switchable x a) (env : Env) :
    ∃ b, (m.seatSwitchToNext env x).1.Switchable x b ∧
      (m.seatSwitchToNext env x).1.seat.positions x = m.seat.positions x ∧
      (m.seatSwitchToNext env x).1.session = m.session ∧
      (m.seatSwitchToNext env x).1.circle x b = (m.circle x a).rotate 1 ∧
      ((m.seatSwitchToNext env x).2 = .ok () → ∃ rest, m.circle x a = a :: b :: rest) := by
  unfold seatSwitchToNext
  rw [if_neg h.positions_ne_nil, h.next_eq]
  obtain ⟨l, hl⟩ : ∃ l, m.circle x a = a :: l := ⟨_, cons_append⟩
  rw [hl, tail_cons]
  cases l with
  | nil => exact ⟨a, h, rfl, rfl, by simpa using hl, nofun⟩
  | cons b rest =>
    obtain ⟨hb, hne, hcircle⟩ := h.circle_next hl
    obtain ⟨-, hready, hpos, hsession⟩ := h.activate env hb hne
    refine ⟨b, hready, hpos, hsession, ?_, fun _ => ⟨rest, rfl⟩⟩
    rw [show (a :: b :: rest).rotate 1 = b :: rest ++ [a] by simp, ← hcircle]
    unfold circle
    rw [head?_cons, hpos, hsession]

/-- Switching to the next session and then to the previous one comes back. -/
theorem switch_back (h : m.Switchable x a) (env env' : Env) (hok : (m.seatSwitchToNext env x).2 = .ok ()) :
    (((m.seatSwitchToNext env x).1.seatSwitchToPrevious env' x).2 = .ok ()) ∧
      ((m.seatSwitchToNext env x).1.seatSwitchToPrevious env' x).1.seat.active x = some a := by
  obtain ⟨b, hb, hpos, hsession, hcircle, hfound⟩ := h.switch_next env
  obtain ⟨rest, hrest⟩ := hfound hok
  rw [hrest, show (a :: b :: rest).rotate 1 = b :: (rest ++ [a]) by simp] at hcircle
  obtain ⟨-, hne, -⟩ := h.circle_next hrest
  have hslot : (m.seatSwitchToNext env x).1.Holds x
      ((m.seatSwitchToNext env x).1.session.position a) a := by
    rw [Holds, hpos, hsession]
    exact h.slot
  unfold seatSwitchToPrevious
  rw [if_neg hb.positions_ne_nil, hb.previous_eq, hcircle, tail_cons, getLast?_concat]
  obtain ⟨hback, hready, -⟩ := hb.activate env' hslot hne.symm
  exact ⟨hback, hready.active⟩

/-- After any number of switches to the next session, the circle is turned as often. -/
theorem switches (h : m.Switchable x a) (envs : List Env) :
    ∃ b, (envs.foldl (fun m env => (m.seatSwitchToNext env x).1) m).Switchable x b ∧
      (envs.foldl (fun m env => (m.seatSwitchToNext env x).1) m).circle x b =
        (m.circle x a).rotate envs.length := by
  induction envs generalizing m a with
  | nil => exact ⟨a, h, (rotate_zero _).symm⟩
  | cons env envs ih =>
    obtain ⟨b, hb, -, -, hcircle, -⟩ := h.switch_next env
    obtain ⟨c, hc, hturned⟩ := ih hb
    refine ⟨c, hc, ?_⟩
    rw [foldl_cons, hturned, hcircle, rotate_rotate, length_cons, Nat.add_comm]

end Switchable

/-- On a seat without VTs whose sessions have no active devices, switching to the next session and then to
    the previous one comes back, and switching on and on to the next one goes round all sessions that hold a
    position, each once in a round. -/
theorem next_previous_inverse (m : Manager) (x a : Ref) (hvts : m.seatHasVts x = false)
    (hshort : (m.seat.positions x).length < 2 ^ 32)
    (htable : ∀ i s, m.Holds x i s → 0 < i ∧ m.session.position s = i ∧ m.session.seat s = some x)
    (hactive : m.seat.active x = some a) (hslot : m.Holds x (m.session.position a) a)
    (howner : ∀ s t sd, sd ∈ m.session.devices s → sd ∈ m.session.devices t → s = t)
    (hidle : ∀ s, ∀ sd ∈ m.session.devices s, m.sd.active sd = false) :
    (∀ env env', (m.seatSwitchToNext env x).2 = .ok () →
      (((m.seatSwitchToNext env x).1.seatSwitchToPrevious env' x).2 = .ok ()) ∧
      ((m.seatSwitchToNext env x).1.seatSwitchToPrevious env' x).1.seat.active x = some a) ∧
    ∃ round : List Ref, round.head? = some a ∧ round.Nodup ∧ (∀ s, s ∈ round ↔ ∃ i, m.Holds x i s) ∧
      ∀ envs : List Env, (envs.foldl (fun m env => (m.seatSwitchToNext env x).1) m).seat.active x =
        round[envs.length % round.length]? := by
  have h : m.Switchable x a := ⟨hvts, hshort, htable, hactive, hslot, howner, fun s _ => hidle s,
    fun s sd hsd hact => by simp [hidle s sd hsd] at hact⟩
  refine ⟨fun env env' hok => h.switch_back env env' hok,
    m.circle x a, rfl, h.nodup_circle, h.mem_circle, fun envs => ?_⟩
  obtain ⟨b, hb, hcircle⟩ := h.switches envs
  have hpos : 0 < (m.circle x a).length := Nat.succ_pos _
  rw [hb.active, ← head?_rotate (Nat.mod_lt _ hpos), rotate_mod, ← hcircle]
  rfl

end Manager

/-- A seat without VTs with the sessions 3 and 4 in its positions 1 and 2; session 3 is in the foreground. -/
def twoSessions : Manager :=
  { Manager.empty false with
    seat := { (Manager.empty false).seat with
      positions := fun _ => [none, some 3, some 4], active := fun _ => some 3 }
    session := { (Manager.empty false).session with
      seat := fun _ => some 2, position := fun s => s - 2 } }

theorem next_previous_twoSessions :
    ((twoSessions.seatSwitchToNext .calm 2).1.seatSwitchToPrevious .calm 2).1.seat.active 2 = some 3 := by
  have htable : ∀ i s, twoSessions.Holds 2 i s → 0 < i ∧ twoSessions.session.position s = i ∧
      twoSessions.session.seat s = some 2 := by
    intro i s h
    match i with
    | 0 => cases h
    | 1 => cases h; decide
    | 2 => cases h; decide
    | _ + 3 => cases h
  exact ((Manager.next_previous_inverse twoSessions 2 3 rfl (by decide) htable rfl rfl (by simp [twoSessions, Manager.empty])
    (by simp [twoSessions, Manager.empty])).1 .calm .calm (by decide)).2

end Elogind
