/-
  Elogind.Login.RestoreFrame

  What `session_load` leaves alone once the session has its seat and its position:
  the places of all sessions, and the session in the foreground of seats without
  VTs.
-/

import Elogind.Login.DecomposeTeardown
import Elogind.Login.Restore

namespace Elogind

open Function Lib Manager

/-- The places of sessions, and how sessions, seats and users are found. -/
structure Places where
  positions : Ref → List (Option Ref)
  position : Ref → Nat
  vtnr : Ref → Nat
  sessionSeat : Ref → Option Ref
  seatSessions : Ref → List Ref
  sessionLive : Ref → Bool
  sessionId : Ref → Bytes
  sessions : List Ref
  users : List Ref
  uid : Ref → Nat
  seat0 : Option Ref
  consoleActive : Bool

def Manager.places (m : Manager) : Places where
  positions := m.seat.positions
  position := m.session.position
  vtnr := m.session.vtnr
  sessionSeat := m.session.seat
  seatSessions := m.seat.sessions
  sessionLive := m.session.live
  sessionId := m.session.id
  sessions := m.sessions
  users := m.users
  uid := m.user.uid
  seat0 := m.seat0
  consoleActive := m.consoleActive

/-- Seats were made before the references that are handed out next. -/
def Manager.SeatsOld (m : Manager) : Prop := ∀ x ∈ m.seats, x < m.next

/-- The places stay, what is found by its name is still found, and without VTs
    nothing comes to the foreground. -/
structure Keeps (m m' : Manager) : Prop where
  places : m'.places = m.places
  seatsOld : m.SeatsOld → m'.SeatsOld
  getSeat : m.SeatsOld → ∀ {id x}, m.getSeat id = some x → m'.getSeat id = some x
  active : ∀ x, m.seatHasVts x = false → m'.seat.active x = m.seat.active x
  next : m.next ≤ m'.next

namespace Keeps

variable {m m' m'' : Manager}

theorem refl (m : Manager) : Keeps m m := ⟨rfl, id, fun _ _ _ h => h, fun _ _ => rfl, Nat.le_refl _⟩

theorem hasVts (h : Keeps m m') (x : Ref) : m'.seatHasVts x = m.seatHasVts x := by
  have hseat0 : m'.seat0 = m.seat0 := congrArg Places.seat0 h.places
  have hconsole : m'.consoleActive = m.consoleActive := congrArg Places.consoleActive h.places
  unfold seatHasVts
  rw [hseat0, hconsole]

theorem trans (h : Keeps m m') (h' : Keeps m' m'') : Keeps m m'' where
  places := h'.places.trans h.places
  seatsOld hold := h'.seatsOld (h.seatsOld hold)
  getSeat hold _ _ hx := h'.getSeat (h.seatsOld hold) (h.getSeat hold hx)
  active x hx := (h'.active x ((h.hasVts x).trans hx)).trans (h.active x hx)
  next := Nat.le_trans h.next h'.next

/-- The seats and the session in the foreground, together with the places. -/
theorem of_same (hplaces : m'.places = m.places) (hseats : m'.seats = m.seats)
    (hid : m'.seat.id = m.seat.id) (hactive : m'.seat.active = m.seat.active)
    (hnext : m.next ≤ m'.next) : Keeps m m' where
  places := hplaces
  seatsOld hold x hx := Nat.lt_of_lt_of_le (hold x (hseats ▸ hx)) hnext
  getSeat _ _ _ hx := by
    unfold Manager.getSeat at hx ⊢
    rw [hseats, hid]
    exact hx
  active x _ := congrFun hactive x
  next := hnext

theorem of_withoutControl (h : m'.withoutControl = m.withoutControl) : Keeps m m' := by
  have hplaces := congrArg Manager.places h
  have hseats := congrArg (fun m => m.seats) h
  have hid := congrArg (fun m => m.seat.id) h
  have hactive := congrArg (fun m => m.seat.active) h
  have hnext : m'.next = m.next := congrArg (fun m => m.next) h
  exact of_same hplaces hseats hid hactive (Nat.le_of_eq hnext.symm)

theorem of_withoutSds (h : m'.withoutSds = m.withoutSds) : Keeps m m' :=
  of_withoutControl (withoutControl_of_withoutSds h)

theorem foldl {α : Type} {f : Manager → α → Manager} (hf : ∀ m a, Keeps m (f m a)) (l : List α)
    (m : Manager) : Keeps m (l.foldl f m) := by
  induction l generalizing m with
  | nil => exact refl m
  | cons a l ih => exact (hf m a).trans (ih (f m a))

/-! ## Seats and devices -/

theorem places_setActive (env : Env) (m : Manager) (x : Ref) (a : Option Ref) :
    (m.seatSetActive env x a).places = m.places := by
  have hput : (m.seatPutActive x a).places = m.places := rfl
  exact (of_withoutSds (withoutSds_setActive env m x a)).places.trans hput

/-- Only a seat with VTs changes its foreground on its own. -/
theorem setActive (env : Env) (m : Manager) {x : Ref} (a : Option Ref)
    (hx : m.seatHasVts x = true) : Keeps m (m.seatSetActive env x a) := by
  have hput : Keeps m (m.seatPutActive x a) := by
    refine ⟨rfl, id, fun _ _ _ h => h, ?_, Nat.le_refl _⟩
    intro y hy
    have hne : y ≠ x := by
      rintro rfl
      rw [hx] at hy
      cases hy
    exact update_of_ne hne ..
  exact hput.trans (of_withoutSds (withoutSds_setActive env m x a))

theorem readActiveVt (env : Env) (m : Manager) (x : Ref) : Keeps m (m.seatReadActiveVt env x) := by
  unfold seatReadActiveVt
  split
  · exact refl m
  · next hx =>
    split
    · exact refl m
    · unfold seatActiveVtChanged
      split
      · exact refl m
      · exact setActive env m _ (by simpa using hx)

theorem seatStart (env : Env) (m : Manager) (x : Ref) : Keeps m (m.seatStart env x) := by
  unfold Manager.seatStart
  split
  · exact refl m
  · exact (readActiveVt env m x).trans (of_same rfl rfl rfl rfl (Nat.le_refl _))

theorem deviceDetach (m : Manager) (d : Ref) : Keeps m (m.deviceDetach d) := by
  have hqueue : ∀ (m : Manager) x, Keeps m (m.seatAddToGcQueue x) := by
    intro m x
    unfold seatAddToGcQueue
    split
    · exact refl m
    · exact of_same rfl rfl rfl rfl (Nat.le_refl _)
  unfold Manager.deviceDetach
  split
  · exact refl m
  · next x _ =>
    have hfree : Keeps m ((m.device.sessionDevices d).foldl sessionDeviceFree m) :=
      of_withoutSds (withoutSds_foldl (fun _ sd => withoutSds_free sd) _ m)
    have hunlink : Keeps m (seatUnlinkDevice _ x d) :=
      hfree.trans (of_same rfl rfl rfl rfl (Nat.le_refl _))
    dsimp only
    split
    · exact hunlink
    · exact hunlink.trans (hqueue _ x)

theorem deviceFree (m : Manager) (d : Ref) : Keeps m (m.deviceFree d) :=
  (deviceDetach m d).trans (of_same rfl rfl rfl rfl (Nat.le_refl _))

theorem deviceAttach (m : Manager) (d x : Ref) : Keeps m (m.deviceAttach d x) := by
  unfold Manager.deviceAttach
  split
  · exact refl m
  · exact (deviceDetach m d).trans (of_same rfl rfl rfl rfl (Nat.le_refl _))

theorem addDevice (env : Env) (m : Manager) (syspath : Bytes) (master : Bool) :
    Keeps m (m.addDevice env syspath master).1 := by
  unfold Manager.addDevice
  split
  · exact of_same rfl rfl rfl rfl (Nat.le_refl _)
  · split
    · exact refl m
    · exact of_same rfl rfl rfl rfl (Nat.le_succ _)

theorem find?_update {id : Ref → Bytes} {l : List Ref} {r : Ref} (hr : r ∉ l) (b k : Bytes) :
    l.find? (fun y => decide (update id r b y = k)) = l.find? (fun y => decide (id y = k)) := by
  induction l with
  | nil => rfl
  | cons a l ih =>
    have hne : a ≠ r := by
      rintro rfl
      exact hr List.mem_cons_self
    rw [List.find?_cons, List.find?_cons, update_of_ne hne, ih fun h => hr (List.mem_cons_of_mem a h)]

theorem addSeat (env : Env) (m : Manager) (id : Bytes) : Keeps m (m.addSeat env id).1 := by
  unfold Manager.addSeat
  split
  · exact refl m
  · next hnone =>
    split
    · exact refl m
    · split
      · exact refl m
      · refine ⟨rfl, ?_, ?_, fun _ _ => rfl, Nat.le_succ _⟩
        · intro hold x hx
          rcases List.mem_cons.mp hx with rfl | hx
          · exact Nat.lt_succ_self _
          · exact Nat.lt_succ_of_lt (hold x hx)
        · intro hold id' x hx
          -- the new seat has a name that no seat had
          have hne : id ≠ id' := by
            rintro rfl
            rw [hnone] at hx
            cases hx
          have hnew : m.next ∉ m.seats := fun h => Nat.lt_irrefl _ (hold m.next h)
          show List.find? (fun y => decide (update m.seat.id m.next id y = id'))
            (m.next :: m.seats) = _
          rw [List.find?_cons_of_neg (by simpa using hne), find?_update hnew]
          exact hx

theorem processSeatDevice (env : Env) (m : Manager) (e : SeatDevice) :
    Keeps m (m.processSeatDevice env e).1 := by
  have hqueue : ∀ (m : Manager) x, Keeps m (m.seatAddToGcQueue x) := by
    intro m x
    unfold seatAddToGcQueue
    split
    · exact refl m
    · exact of_same rfl rfl rfl rfl (Nat.le_refl _)
  unfold Manager.processSeatDevice
  split
  · unfold processRemove
    split
    · exact refl m
    · split
      · exact deviceFree m _
      · exact (hqueue m _).trans (deviceFree _ _)
  · unfold processAdd
    split
    · exact refl m
    · split
      · exact refl m
      · have hadd := addDevice env m e.syspath e.master
        generalize m.addDevice env e.syspath e.master = r₁ at hadd
        obtain ⟨m₁, r₁⟩ := r₁
        cases r₁ with
        | error err => exact hadd
        | ok d =>
          dsimp only at hadd ⊢
          have hseat := hadd.trans (addSeat env m₁ e.seatName)
          generalize m₁.addSeat env e.seatName = r₂ at hseat
          obtain ⟨m₂, r₂⟩ := r₂
          cases r₂ with
          | error err =>
            dsimp only at hseat ⊢
            split
            · exact hseat.trans (deviceFree m₂ d)
            · exact hseat
          | ok x => exact (hseat.trans (deviceAttach m₂ d x)).trans (seatStart env _ x)

/-! ## The rest of session_load -/

theorem sessionDeviceNew (env : Env) (m : Manager) (s dev : Ref) (openDevice : Bool)
    (node : Result DeviceNode) :
    Keeps m (m.sessionDeviceNew env s dev openDevice node).1 := by
  have hremove : ∀ m : Manager, Keeps m (m.sessionRemoveDevice s dev) :=
    fun m => of_same rfl rfl rfl rfl (Nat.le_refl _)
  have hlink : ∀ (m : Manager) d type active fd,
      Keeps m (m.sessionDeviceLink s d dev type active fd) :=
    fun m d type active fd => of_same rfl rfl rfl rfl (Nat.le_succ _)
  unfold Manager.sessionDeviceNew
  split
  · exact refl m
  · split
    · exact refl m
    · have hverify : Keeps m (m.sessionDeviceVerify env s node).1 := by
        unfold sessionDeviceVerify
        split
        · exact refl m
        · next node =>
          split
          · exact refl m
          · have hstep : Keeps m (m.enumerateDevice env node.device).1 := by
              unfold enumerateDevice
              split
              · exact refl m
              · exact processSeatDevice env m node.device
            split
            · next h =>
              rw [h] at hstep
              exact hstep
            · next h =>
              rw [h] at hstep
              exact hstep
      generalize m.sessionDeviceVerify env s node = r at hverify
      obtain ⟨m₁, r⟩ := r
      cases r with
      | error e => exact hverify.trans (hremove m₁)
      | ok p =>
        dsimp only at hverify ⊢
        split
        · exact hverify.trans (hremove m₁)
        · split
          · exact hverify.trans (hremove m₁)
          · split
            · exact hverify.trans (hlink ..)
            · split
              · exact hverify.trans (hremove m₁)
              · exact hverify.trans (hlink ..)

theorem setController (env : Env) (m : Manager) (s : Ref) (c : Bytes) (force prepare : Bool) :
    Keeps m (m.sessionSetController env s c force prepare).1 :=
  of_withoutControl (withoutControl_setController env m s c force prepare)

theorem setLeader (env : Env) (m : Manager) (s : Ref) (p : PidRef) :
    Keeps m (m.sessionSetLeaderConsume env s p).1 := by
  have hput : Keeps m ((m.sessionResetLeader s).sessionPutLeader s p) := by
    unfold sessionResetLeader
    split <;> exact of_same rfl rfl rfl rfl (Nat.le_refl _)
  unfold sessionSetLeaderConsume
  split
  · exact refl m
  · dsimp only
    split
    · exact hput
    · split
      · exact hput
      · split
        · exact hput
        · exact hput.trans (of_same rfl rfl rfl rfl (Nat.le_refl _))

theorem loadTypes (m : Manager) (s : Ref) (f : StateFile) : Keeps m (m.sessionLoadTypes s f) := by
  unfold sessionLoadTypes
  dsimp only
  split <;> exact of_same rfl rfl rfl rfl (Nat.le_refl _)

theorem loadFlags (m : Manager) (s : Ref) (f : StateFile) (createFifo : Bool) :
    Keeps m (m.sessionLoadFlags s f createFifo) := by
  have hstate : Keeps m (m.sessionLoadState s f createFifo) := by
    unfold sessionLoadState
    split
    · split <;> exact of_same rfl rfl rfl rfl (Nat.le_refl _)
    · split <;> exact of_same rfl rfl rfl rfl (Nat.le_refl _)
  have hactive : ∀ m : Manager, Keeps m (m.sessionLoadActive s f) := by
    intro m
    unfold sessionLoadActive
    split <;> exact of_same rfl rfl rfl rfl (Nat.le_refl _)
  have hdisplay : ∀ m : Manager, Keeps m (m.sessionLoadDisplay s f) := by
    intro m
    unfold sessionLoadDisplay
    split <;> exact of_same rfl rfl rfl rfl (Nat.le_refl _)
  exact (hstate.trans (hactive _)).trans (hdisplay _)

theorem loadController (env : LoadAnswers) (m : Manager) (s : Ref) (f : StateFile) :
    Keeps m (m.sessionLoadController env s f) := by
  unfold sessionLoadController
  split
  · exact refl m
  · split
    · exact (setController ..).trans (foldl (fun m dev => sessionDeviceNew ..) _ _)
    · exact of_same rfl rfl rfl rfl (Nat.le_refl _)

theorem loadLeader (env : LoadAnswers) (m : Manager) (s : Ref) (f : StateFile) :
    Keeps m (m.sessionLoadLeader env s f) := by
  have hput : ∀ pid, Keeps m (m.sessionPutDeserializedPid s pid) :=
    fun pid => of_same rfl rfl rfl rfl (Nat.le_refl _)
  unfold sessionLoadLeader
  split
  · exact refl m
  · split
    · exact hput _
    · split
      · exact hput _
      · exact (hput _).trans (setLeader ..)

theorem loadRest (env : LoadAnswers) (m : Manager) (s : Ref) (f : StateFile) :
    Keeps m (m.sessionLoadRest env s f) :=
  (((loadTypes m s f).trans (loadFlags _ s f _)).trans (loadController env _ s f)).trans
    (loadLeader env _ s f)

theorem loadUser {env : Env} {m m' : Manager} {s : Ref} {f : StateFile}
    (h : m.sessionLoadUser env s f = some m') : Keeps m m' := by
  have htimer : ∀ (m : Manager) u, Keeps m (m.userUpdateLastSessionTimer env u) := by
    intro m u
    unfold userUpdateLastSessionTimer
    split
    · exact of_same rfl rfl rfl rfl (Nat.le_refl _)
    · split
      · exact refl m
      · split <;> exact of_same rfl rfl rfl rfl (Nat.le_refl _)
  unfold sessionLoadUser at h
  split at h
  · cases h
    exact refl m
  · split at h
    · cases h
    · split at h
      · cases h
      · next u _ =>
        cases h
        have hlink : Keeps m (m.userLinkSession u s) := of_same rfl rfl rfl rfl (Nat.le_refl _)
        exact hlink.trans (htimer _ u)

theorem queueSession (m : Manager) (s : Ref) : Keeps m (m.sessionAddToGcQueue s) := by
  unfold sessionAddToGcQueue
  split
  · exact refl m
  · exact of_same rfl rfl rfl rfl (Nat.le_refl _)

end Keeps

end Elogind
