/-
  Elogind.Login.Decompose

  The functions of the manager, taken apart into elementary changes.  `Does P D m m'`
  says that `m` becomes `m'` by changes whose kinds satisfy `P`; one theorem for each
  function names the kinds it needs.  Most functions make plain changes only.
-/

import Elogind.Login.Change

namespace Elogind

open Function Lib Manager

/-- Changes of the allowed kinds lead from `m` to `m'`. -/
def Does (P : ChangeKind → Prop) (D : Option Ref) (m m' : Manager) : Prop :=
  Reaches Change P (D, m) (D, m')

namespace Does

variable {P : ChangeKind → Prop} {D : Option Ref} {m m' m'' : Manager} {k : ChangeKind}

theorem refl (m : Manager) : Does P D m m := Reaches.refl _

theorem one (hc : Change (D, m) k (D, m')) (hk : P k) : Does P D m m' := Reaches.single hc hk

theorem trans (h : Does P D m m') (h' : Does P D m' m'') : Does P D m m'' := Reaches.trans h h'

theorem quiet (hP : P .plain) (h : m'.core = m.core) : Does P D m m' := one (.quiet h) hP

theorem wf (h : Does P D m m') (hw : Wf D m) : Wf D m' :=
  Reaches.invariant (I := fun p => Wf p.1 p.2) h hw fun hw hc _ => hc.wf hw

/-- Where nothing is made, linked or removed, the objects are the same. -/
theorem objects (h : Does ChangeKind.Steady D m m') : m'.objects = m.objects :=
  Reaches.invariant (I := fun p => p.2.objects = m.objects) h rfl
    fun hobj hc hk => (hc.objects hk).2.trans hobj

/-- A loop over references. -/
theorem foldl {f : Manager → Ref → Manager} {l : List Ref}
    (hf : ∀ {m}, Wf D m → ∀ i ∈ l, Does P D m (f m i)) (hw : Wf D m) :
    Does P D m (l.foldl f m) := by
  induction l generalizing m with
  | nil => exact refl m
  | cons i l ih =>
    have hstep := hf hw i (by simp)
    exact hstep.trans (ih (fun hw j hj => hf hw j (by simp [hj])) (hstep.wf hw))

end Does

section Functions

variable {P : ChangeKind → Prop} {D : Option Ref} {m : Manager}

/-! ## Session devices -/

theorem does_notify (hP : P .plain) (sd : Ref) (n : Notification) :
    Does P D m (m.sessionDeviceNotify sd n) := by
  refine .quiet hP ?_
  unfold sessionDeviceNotify
  split
  · rfl
  · split <;> rfl

theorem does_save (hP : P .plain) (env : Env) (sd : Ref) :
    Does P D m (m.sessionDeviceSave env sd).1 := by
  refine .quiet hP ?_
  unfold sessionDeviceSave
  split
  · rfl
  · split <;> rfl

theorem does_stop (hP : P .plain) (sd : Ref) : Does P D m (m.sessionDeviceStop sd) :=
  .one (.sdStop sd) hP

theorem does_sessionDeviceFree (hP : P .plain) (sd : Ref) : Does P D m (m.sessionDeviceFree sd) :=
  ((does_stop hP sd).trans (does_notify hP sd .release)).trans (.one (.sdFree sd) hP)

theorem does_freeDevices (hP : P .plain) (hw : Wf D m) (s : Ref) :
    Does P D m (m.sessionFreeDevices s) :=
  .foldl (fun _ sd _ => does_sessionDeviceFree hP sd) hw

/-- Resuming a device changes neither seats nor sessions. -/
theorem resume_eq (env : Env) (m : Manager) (sd : Ref) :
    (m.sessionDeviceResume env sd).session = m.session ∧
    (m.sessionDeviceResume env sd).seat = m.seat := by
  have hnotify : ∀ m : Manager, (m.sessionDeviceNotify sd .resume).session = m.session ∧
      (m.sessionDeviceNotify sd .resume).seat = m.seat := by
    intro m
    unfold sessionDeviceNotify
    split
    · exact ⟨rfl, rfl⟩
    · split <;> exact ⟨rfl, rfl⟩
  have hsave : ∀ m : Manager, (m.sessionDeviceSave env sd).1.session = m.session ∧
      (m.sessionDeviceSave env sd).1.seat = m.seat := by
    intro m
    unfold sessionDeviceSave
    split
    · exact ⟨rfl, rfl⟩
    · split <;> exact ⟨rfl, rfl⟩
  have hstart : (m.sessionDeviceStart env sd).1.session = m.session ∧
      (m.sessionDeviceStart env sd).1.seat = m.seat := by
    unfold sessionDeviceStart
    split
    · exact ⟨rfl, rfl⟩
    · split
      · split
        · exact ⟨rfl, rfl⟩
        · split <;> exact ⟨rfl, rfl⟩
      · split <;> exact ⟨rfl, rfl⟩
      · split <;> exact ⟨rfl, rfl⟩
      · exact ⟨rfl, rfl⟩
  unfold sessionDeviceResume
  split
  · exact ⟨rfl, rfl⟩
  · dsimp only
    split
    · exact hstart
    · split
      · exact ⟨(hsave _).1.trans hstart.1, (hsave _).2.trans hstart.2⟩
      · exact ⟨((hnotify _).1.trans (hsave _).1).trans hstart.1,
          ((hnotify _).2.trans (hsave _).2).trans hstart.2⟩

theorem does_resume (hP : P .plain) (env : Env) {s sd x : Ref} (hsd : sd ∈ m.session.devices s)
    (hs : m.session.seat s = some x) (hx : m.seat.active x = some s) :
    Does P D m (m.sessionDeviceResume env sd) := by
  have hstart : Does P D m (m.sessionDeviceStart env sd).1 := .one (.sdStart env hsd hs hx) hP
  unfold sessionDeviceResume
  split
  · exact .refl m
  · dsimp only
    split
    · exact hstart
    · split
      · exact hstart.trans (does_save hP env sd)
      · exact (hstart.trans (does_save hP env sd)).trans (does_notify hP sd .resume)

/-- The devices of the session in the foreground are resumed. -/
theorem does_resumeAll (hP : P .plain) (env : Env) {s x : Ref} (hs : m.session.seat s = some x)
    (hx : m.seat.active x = some s) : Does P D m (m.sessionDeviceResumeAll env s) := by
  have hloop : ∀ (l : List Ref) (m : Manager), (∀ sd ∈ l, sd ∈ m.session.devices s) →
      m.session.seat s = some x → m.seat.active x = some s →
      Does P D m (l.foldl (sessionDeviceResume env) m) := by
    intro l
    induction l with
    | nil => exact fun m _ _ _ => .refl m
    | cons sd l ih =>
      intro m hl hs hx
      have heq := resume_eq env m sd
      refine (does_resume hP env (hl sd (by simp)) hs hx).trans (ih _ ?_ ?_ ?_)
      · intro i hi
        rw [heq.1]
        exact hl i (by simp [hi])
      · rw [heq.1]
        exact hs
      · rw [heq.2]
        exact hx
  exact hloop _ m (fun _ hsd => hsd) hs hx

/-! ## Seats -/

theorem plain_steady : ChangeKind.Steady .plain := by simp [ChangeKind.Steady]

theorem account_steady : ChangeKind.Steady .account := by simp [ChangeKind.Steady]

theorem seatSwitch_active (m : Manager) (x : Ref) (a : Option Ref) :
    (m.seatSwitch x a).seat.active x = a := by
  have hput : (m.seatPutActive x a).seat.active x = a := update_self ..
  unfold seatSwitch
  split
  · exact hput
  · next old _ =>
    have hseat := congrArg (fun m => m.seat.active x)
      (withoutSds_pauseAll (m := m.seatPutActive x a) old)
    exact hseat.trans hput

theorem does_setActive (hP : P .plain) (env : Env) {x : Ref} {a : Option Ref}
    (ha : ∀ s, a = some s → m.session.seat s = some x) :
    Does P D m (m.seatSetActive env x a) := by
  unfold seatSetActive
  split
  · next heq =>
    split
    · exact .refl m
    · next s => exact does_resumeAll hP env (ha s rfl) heq.symm
  · have hswitch : Does P D m (m.seatSwitch x a) := .one (.switch ha) hP
    cases a with
    | none => exact hswitch
    | some s =>
      dsimp only
      split
      · refine hswitch.trans (does_resumeAll hP env (x := x) ?_ (seatSwitch_active m x (some s)))
        rw [← ha s rfl]
        exact congrFun (congrArg Objects.sessionSeat (objects_switch m x (some s))) s
      · exact hswitch

theorem does_readActiveVt (hP : P .plain) (hw : Wf D m) (env : Env) (x : Ref) :
    Does P D m (m.seatReadActiveVt env x) := by
  unfold seatReadActiveVt
  split
  · exact .refl m
  · split
    · exact .refl m
    · unfold seatActiveVtChanged
      split
      · exact .refl m
      · refine does_setActive hP env ?_
        intro s hs
        rw [← hw.seatSessions.mem_iff]
        -- whichever of the two searches found it
        rw [Option.orElse_eq_orElse, Option.orElse_eq_or, Option.or_eq_some_iff] at hs
        rcases hs with h | ⟨-, h⟩
        · exact List.mem_of_find?_eq_some h
        · exact List.mem_of_find?_eq_some h

theorem does_seatStart (hP : P .plain) (hw : Wf D m) (env : Env) (x : Ref) :
    Does P D m (m.seatStart env x) := by
  unfold seatStart
  split
  · exact .refl m
  · exact (does_readActiveVt hP hw env x).trans (.quiet hP rfl)

/-! ## Devices -/

theorem insertDevice_perm (master : Ref → Bool) (d : Ref) (l : List Ref) :
    (Manager.insertDevice master d l).Perm (d :: l) := by
  induction l with
  | nil => exact .refl _
  | cons i l ih =>
    unfold insertDevice
    split
    · exact .swap d i l
    · exact (ih.cons i).trans (.swap d i l)

/-- Before a device leaves its seat, its session devices are freed. -/
theorem detach_free (hw : Wf D m) (d : Ref) :
    (((m.device.sessionDevices d).foldl Manager.sessionDeviceFree m).device.seat = m.device.seat ∧
      ((m.device.sessionDevices d).foldl Manager.sessionDeviceFree m).device.live =
        m.device.live) ∧
    ((m.device.sessionDevices d).foldl Manager.sessionDeviceFree m).device.sessionDevices d =
      [] := by
  have hframe := withoutSds_foldl (fun _ sd => withoutSds_free sd)
    (m.device.sessionDevices d) m
  have hseat := congrArg (fun m => m.device.seat) hframe
  have hlive := congrArg (fun m => m.device.live) hframe
  exact ⟨⟨hseat, hlive⟩, hw.sessionDevices_foldl_free d⟩

theorem does_deviceDetach (hP : P .plain) (hw : Wf D m) (d : Ref) :
    Does P D m (m.deviceDetach d) := by
  unfold deviceDetach
  split
  · exact .refl m
  · next x hx =>
    obtain ⟨⟨hseat, -⟩, hnil⟩ := detach_free hw d
    have hfree : Does P D m ((m.device.sessionDevices d).foldl sessionDeviceFree m) :=
      .foldl (fun _ sd _ => does_sessionDeviceFree hP sd) hw
    have hunlink := hfree.trans
      (.one (.leaveDevice ((congrFun hseat d).trans hx) hnil) hP)
    have hlive : (((m.device.sessionDevices d).foldl sessionDeviceFree
        m).seatUnlinkDevice x d).seat.live x := by
      have hframe := withoutSds_foldl (fun _ sd => withoutSds_free sd)
        (m.device.sessionDevices d) m
      have hsame := congrArg (fun m => m.seat.live x) hframe
      exact hsame.trans (hw.deviceLive hx).2
    dsimp only
    split
    · exact hunlink
    · exact hunlink.trans (.one (.seatQueue hlive) hP)

/-- A detached device has no seat, and exists as before. -/
theorem deviceDetach_eq (hw : Wf D m) (d : Ref) :
    (m.deviceDetach d).device.seat d = none ∧
    (m.deviceDetach d).device.live = m.device.live := by
  have hqueue : ∀ (m : Manager) x, (m.seatAddToGcQueue x).device = m.device := by
    intro m x
    unfold seatAddToGcQueue
    split <;> rfl
  unfold deviceDetach
  split
  · next hd => exact ⟨hd, rfl⟩
  · next x hx =>
    obtain ⟨⟨-, hlive⟩, -⟩ := detach_free hw d
    dsimp only
    split
    · exact ⟨update_self .., hlive⟩
    · rw [hqueue]
      exact ⟨update_self .., hlive⟩

theorem does_deviceFree (hP : P .plain) (hw : Wf D m) (d : Ref) :
    Does P D m (m.deviceFree d) :=
  (does_deviceDetach hP hw d).trans (.one (.freeDevice (deviceDetach_eq hw d).1) hP)

theorem does_deviceAttach (hP : P .plain) (hdevices : P .devices) (hw : Wf D m) {d x : Ref} (hd : m.device.live d)
    (hx : m.seat.live x) : Does P D m (m.deviceAttach d x) := by
  unfold deviceAttach
  split
  · exact .refl m
  · have hdetach := does_deviceDetach hP hw d
    obtain ⟨hseat, hlive⟩ := deviceDetach_eq hw d
    have hobj := (does_deviceDetach plain_steady hw d).objects
    refine hdetach.trans (.one (.attachDevice hseat ?_ ?_ ?_) hdevices)
    · rw [hlive]
      exact hd
    · exact (congrFun (congrArg Objects.seatLive hobj) x).trans hx
    · split
      · exact .refl _
      · exact insertDevice_perm ..

/-- The device that is found or made exists. -/
theorem does_addDevice (hdevices : P .devices) (hcreate : P .create) (hw : Wf D m) (env : Env)
    (syspath : Bytes) (master : Bool) :
    Does P D m (m.addDevice env syspath master).1 ∧
    ∀ d, (m.addDevice env syspath master).2 = .ok d →
      (m.addDevice env syspath master).1.device.live d := by
  unfold addDevice
  split
  · next e he =>
    refine ⟨.one (.setMaster e _) hdevices, ?_⟩
    rintro _ ⟨⟩
    exact (hw.devices.mem_iff e).mp (List.mem_of_find?_eq_some he)
  · split
    · exact ⟨.refl m, nofun⟩
    · refine ⟨.one (.deviceNew syspath master) hcreate, ?_⟩
      rintro _ ⟨⟩
      exact update_self ..

/-- The seat that is found or made exists. -/
theorem does_addSeat (hcreate : P .create) (hw : Wf D m) (env : Env) (id : Bytes) :
    Does P D m (m.addSeat env id).1 ∧
    ∀ x, (m.addSeat env id).2 = .ok x → (m.addSeat env id).1.seat.live x := by
  unfold addSeat
  split
  · next y hy =>
    refine ⟨.refl m, ?_⟩
    rintro _ ⟨⟩
    exact (hw.seats.mem_iff y).mp (List.mem_of_find?_eq_some hy)
  · split
    · exact ⟨.refl m, nofun⟩
    · split
      · exact ⟨.refl m, nofun⟩
      · refine ⟨.one (.seatNew id) hcreate, ?_⟩
        rintro _ ⟨⟩
        exact update_self ..

theorem addSeat_device (env : Env) (m : Manager) (id : Bytes) :
    (m.addSeat env id).1.device = m.device := by
  unfold addSeat
  split
  · rfl
  · split
    · rfl
    · split <;> rfl

theorem does_processRemove (hP : P .plain) (hw : Wf D m) (syspath : Bytes) :
    Does P D m (m.processRemove syspath) := by
  unfold processRemove
  split
  · exact .refl m
  · next d _ =>
    split
    · exact does_deviceFree hP hw d
    · next x hx =>
      have hqueue : Does P D m (m.seatAddToGcQueue x) := .one (.seatQueue (hw.deviceLive hx).2) hP
      exact hqueue.trans (does_deviceFree hP (hqueue.wf hw) d)

theorem does_processAdd (hP : P .plain) (hdevices : P .devices) (hcreate : P .create) (hw : Wf D m) (env : Env)
    (e : SeatDevice) : Does P D m (m.processAdd env e).1 := by
  unfold processAdd
  split
  · exact .refl m
  · split
    · exact .refl m
    · obtain ⟨hdevice, hlive⟩ := does_addDevice hdevices hcreate hw env e.syspath e.master
      generalize hm₁ : m.addDevice env e.syspath e.master = r₁ at hdevice hlive
      obtain ⟨m₁, r₁⟩ := r₁
      cases r₁ with
      | error err => exact hdevice
      | ok d =>
        dsimp only at hdevice hlive ⊢
        have hw₁ := hdevice.wf hw
        obtain ⟨hseat, hx⟩ := does_addSeat hcreate hw₁ env e.seatName
        have hdev := addSeat_device env m₁ e.seatName
        generalize hm₂ : m₁.addSeat env e.seatName = r₂ at hseat hx hdev
        obtain ⟨m₂, r₂⟩ := r₂
        have hw₂ := hseat.wf hw₁
        have hboth := hdevice.trans hseat
        cases r₂ with
        | error err =>
          dsimp only
          split
          · exact hboth.trans (does_deviceFree hP hw₂ d)
          · exact hboth
        | ok x =>
          have hd : m₂.device.live d := by
            rw [hdev]
            exact hlive d rfl
          have hattach := does_deviceAttach hP hdevices hw₂ hd (hx x rfl)
          exact (hboth.trans hattach).trans (does_seatStart hP (hattach.wf hw₂) env x)

theorem does_processSeatDevice (hP : P .plain) (hdevices : P .devices) (hcreate : P .create) (hw : Wf D m) (env : Env)
    (e : SeatDevice) : Does P D m (m.processSeatDevice env e).1 := by
  unfold processSeatDevice
  split
  · exact does_processRemove hP hw e.syspath
  · exact does_processAdd hP hdevices hcreate hw env e

end Functions

end Elogind
