/-
  Elogind.Login.MasterDevices

  The order of the devices of a seat.  `device_attach` puts masters in front, and
  `seat_has_master_device` looks at the first device only.  A device that is
  attached already can be made a master by a later event, and then stays where it
  is in the list.
-/

import Elogind.Lib.FlagsFirst
import Elogind.Login.DecomposeTeardown

namespace Elogind

open Function Lib Manager List

/-! ## The order of the devices -/

/-- In every list of devices the masters come first. -/
def MastersFirst (m : Manager) : Prop := ∀ x, FlagsFirst m.device.master (m.seat.devices x)

/-- Masters come first, and `seat_has_master_device` finds out whether a device
    attached to the seat is a master. -/
structure MasterDevicesFound (m : Manager) : Prop where
  sorted : ∀ x, FlagsFirst m.device.master (m.seat.devices x)
  found : ∀ x, m.seatHasMasterDevice x = true ↔
    ∃ d, m.device.seat d = some x ∧ m.device.master d = true

/-- The order is all that the search relies on. -/
theorem MastersFirst.found {D : Option Ref} {m : Manager} (h : MastersFirst m) (hw : Wf D m) :
    MasterDevicesFound m where
  sorted := h
  found x := by
    unfold seatHasMasterDevice
    rw [(h x).head?_any]
    constructor
    · rintro ⟨d, hd, hmaster⟩
      exact ⟨d, (hw.seatDevices.mem_iff x d).mp hd, hmaster⟩
    · rintro ⟨d, hd, hmaster⟩
      exact ⟨d, (hw.seatDevices.mem_iff x d).mpr hd, hmaster⟩

/-! ## Changes that do not attach devices -/

/-- The lists of devices, and which devices are masters. -/
structure DeviceOrder where
  devices : Ref → List Ref
  master : Ref → Bool

def Manager.deviceOrder (m : Manager) : DeviceOrder where
  devices := m.seat.devices
  master := m.device.master

namespace Manager

variable {m m' : Manager}

theorem deviceOrder_of_withoutSds (h : m'.withoutSds = m.withoutSds) :
    m'.deviceOrder = m.deviceOrder := by
  have horder := congrArg deviceOrder h
  exact horder

theorem deviceOrder_evict (m : Manager) (x s : Ref) :
    (m.seatEvictPosition x s).deviceOrder = m.deviceOrder := by
  unfold seatEvictPosition
  dsimp only
  split
  · rfl
  · split <;> rfl

theorem deviceOrder_claim (env : Env) (m : Manager) (x s : Ref) (pos : Nat) :
    (m.seatClaimPosition env x s pos).deviceOrder = m.deviceOrder := by
  have hevict : ∀ positions, ((m.seatPutPositions x positions).seatEvictPosition x s).deviceOrder =
      m.deviceOrder := fun positions => deviceOrder_evict (m.seatPutPositions x positions) x s
  unfold seatClaimPosition
  dsimp only
  split
  · rfl
  · split
    · exact hevict _
    · exact hevict _

theorem deviceOrder_switch (m : Manager) (x : Ref) (a : Option Ref) :
    (m.seatSwitch x a).deviceOrder = m.deviceOrder := by
  have hactive : (m.seatPutActive x a).deviceOrder = m.deviceOrder := rfl
  unfold seatSwitch
  split
  · exact hactive
  · exact (deviceOrder_of_withoutSds (withoutSds_pauseAll _)).trans hactive

theorem deviceOrder_drop (m : Manager) (s : Ref) :
    (m.sessionDropController s).deviceOrder = m.deviceOrder := by
  have horder := congrArg deviceOrder (withoutControl_drop m s)
  exact horder

end Manager

theorem MastersFirst.of_order {m m' : Manager} (h : MastersFirst m)
    (ho : m'.deviceOrder = m.deviceOrder) : MastersFirst m' := by
  have hdevices : m'.seat.devices = m.seat.devices := congrArg DeviceOrder.devices ho
  have hmaster : m'.device.master = m.device.master := congrArg DeviceOrder.master ho
  intro x
  rw [hdevices, hmaster]
  exact h x

/-- The flag of a device that is attached to no seat is of no matter. -/
theorem MastersFirst.detached {D : Option Ref} {m m' : Manager} (h : MastersFirst m) (hw : Wf D m)
    {d : Ref} (hd : m.device.seat d = none) (b : Bool)
    (ho : m'.deviceOrder = { m.deviceOrder with master := update m.device.master d b }) :
    MastersFirst m' := by
  have hdevices : m'.seat.devices = m.seat.devices := congrArg DeviceOrder.devices ho
  have hmaster : m'.device.master = update m.device.master d b := congrArg DeviceOrder.master ho
  intro x
  rw [hdevices, hmaster]
  refine (h x).congr ?_
  intro e he
  have hne : e ≠ d := by
    rintro rfl
    exact hw.seatDevices.not_mem_of_none hd x he
  exact update_of_ne hne ..

theorem device_next {D : Option Ref} {m : Manager} (hw : Wf D m) :
    m.device.seat m.next = none := by
  by_contra hne
  obtain ⟨x, hx⟩ := Option.ne_none_iff_exists'.mp hne
  exact Nat.lt_irrefl m.next (hw.deviceOld (hw.deviceLive hx).1)

/-- As long as no device is attached or made a master, masters stay in front. -/
theorem Change.mastersFirst {p q : Option Ref × Manager} {k : ChangeKind} (hc : Change p k q)
    (hk : k ≠ .devices) (hw : Wf p.1 p.2) (h : MastersFirst p.2) : MastersFirst q.2 := by
  cases hc with
  | quiet hq =>
    have horder := congrArg deviceOrder hq
    exact h.of_order horder
  | deviceNew syspath master =>
    exact h.detached hw (device_next hw) master rfl
  | @leaveSeat D m s hs =>
    refine h.of_order ?_
    unfold sessionUnlinkSeat
    split
    · rfl
    · next x _ => exact deviceOrder_evict (m.seatForgetSession x s) x s
  | switch ha => exact h.of_order (deviceOrder_switch ..)
  | attachDevice _ _ _ _ | setMaster _ _ => exact absurd rfl hk
  | @leaveDevice D m d x hd hsds =>
    intro y
    by_cases hy : y = x
    · subst hy
      have hdevices : (m.seatUnlinkDevice y d).seat.devices y = (m.seat.devices y).erase d :=
        update_self ..
      rw [hdevices]
      exact (h y).sublist erase_sublist
    · have hdevices : (m.seatUnlinkDevice x d).seat.devices y = m.seat.devices y :=
        update_of_ne hy ..
      rw [hdevices]
      exact h y
  | sdStart env _ _ _ =>
    exact h.of_order (deviceOrder_of_withoutSds (withoutSds_start env _))
  | sdStop sd => exact h.of_order (deviceOrder_of_withoutSds (withoutSds_stop sd))
  | sdFree sd =>
    refine h.of_order ?_
    unfold sessionDeviceUnlink
    split <;> rfl
  | seatQueue hx =>
    refine h.of_order ?_
    unfold seatAddToGcQueue
    split <;> rfl
  | sessionQueue hs =>
    refine h.of_order ?_
    unfold sessionAddToGcQueue
    split <;> rfl
  | userQueue hu =>
    refine h.of_order ?_
    unfold userAddToGcQueue
    split <;> rfl
  | resetLeader s =>
    refine h.of_order ?_
    unfold sessionResetLeader
    split <;> rfl
  | retire s =>
    refine h.of_order ?_
    unfold sessionRetire
    split
    · rfl
    · exact deviceOrder_evict ..
  | claim env pos _ => exact h.of_order (deviceOrder_claim ..)
  | drop s => exact h.of_order (deviceOrder_drop _ s)
  | freeDevice hd => exact h.detached hw hd false rfl
  | _ => exact h.of_order rfl

/-- What the daemon does apart from attaching devices and making them masters. -/
theorem MastersFirst.does {D : Option Ref} {m m' : Manager} (h : MastersFirst m) (hw : Wf D m)
    (hd : Does (· ≠ .devices) D m m') : MastersFirst m' := by
  have hboth := Reaches.invariant (I := fun p => Wf p.1 p.2 ∧ MastersFirst p.2) hd ⟨hw, h⟩
    fun hI hc hk => ⟨hc.wf hI.1, hc.mastersFirst hk hI.1 hI.2⟩
  exact hboth.2

/-! ## Attaching a device -/

section Attach

variable {D : Option Ref} {m : Manager} {d x : Ref}

/-- A device that is not a master goes behind the masters. -/
theorem insertDevice_flagsFirst {master : Ref → Bool} {l : List Ref} (h : FlagsFirst master l)
    (hd : master d = false) : FlagsFirst master (Manager.insertDevice master d l) := by
  induction l with
  | nil => exact pairwise_singleton ..
  | cons i l ih =>
    obtain ⟨hi, hl⟩ := pairwise_cons.mp h
    -- in front of `d` there is nothing, or only `i`
    have hbehind : ∀ l' : List Ref, (∀ j ∈ l', j = d ∨ j ∈ l) →
        ∀ j ∈ l', master j = true → master i = true := by
      intro l' hl' j hj hmaster
      rcases hl' j hj with rfl | hmem
      · rw [hd] at hmaster
        cases hmaster
      · exact hi j hmem hmaster
    unfold insertDevice
    split
    · next hstop =>
      refine pairwise_cons.mpr ⟨?_, pairwise_cons.mpr ⟨?_, hl⟩⟩
      · exact hbehind (d :: l) fun j hj => mem_cons.mp hj
      · -- behind a device that is no master there is none
        intro j hj hmaster
        rw [Bool.or_eq_true, List.isEmpty_iff, Bool.not_eq_true'] at hstop
        rcases hstop with rfl | hnot
        · cases hj
        · rw [hi j hj hmaster] at hnot
          cases hnot
    · refine pairwise_cons.mpr ⟨?_, ih hl⟩
      refine hbehind _ fun j hj => ?_
      rw [(insertDevice_perm master d l).mem_iff] at hj
      exact mem_cons.mp hj

/-- Apart from the device `d`, masters come first. -/
def MastersFirstBut (d : Ref) (m : Manager) : Prop :=
  ∀ x, FlagsFirst m.device.master ((m.seat.devices x).erase d)

theorem MastersFirst.but (h : MastersFirst m) (d : Ref) : MastersFirstBut d m :=
  fun x => (h x).sublist erase_sublist

theorem MastersFirstBut.of_order {m' : Manager} (h : MastersFirstBut d m)
    (ho : m'.deviceOrder = m.deviceOrder) : MastersFirstBut d m' := by
  have hdevices : m'.seat.devices = m.seat.devices := congrArg DeviceOrder.devices ho
  have hmaster : m'.device.master = m.device.master := congrArg DeviceOrder.master ho
  intro x
  rw [hdevices, hmaster]
  exact h x

/-- Making `d` a master is of no matter to the other devices. -/
theorem MastersFirst.upgrade (h : MastersFirst m) (hw : Wf D m) (b : Bool) :
    MastersFirstBut d { m with device.master := update m.device.master d b } := by
  intro x
  refine (h.but d x).congr ?_
  intro e he
  have hne : e ≠ d := by
    rintro rfl
    exact ((hw.seatDevices.nodup x).mem_erase_iff.mp he).1 rfl
  exact update_of_ne hne ..

theorem deviceOrder_queue (m : Manager) (x : Ref) :
    (m.seatAddToGcQueue x).deviceOrder = m.deviceOrder := by
  unfold seatAddToGcQueue
  split <;> rfl

theorem deviceOrder_detach (hw : Wf D m) (d : Ref) :
    (m.deviceDetach d).deviceOrder =
      { devices := fun x => (m.seat.devices x).erase d, master := m.device.master } := by
  have hdevices : (m.deviceDetach d).seat.devices = fun x => (m.seat.devices x).erase d :=
    devices_deviceFree hw d
  have hmaster : (m.deviceDetach d).device.master = m.device.master := by
    have hframe := congrArg (fun m => m.device.master)
      (withoutSds_foldl (fun _ sd => withoutSds_free sd)
        (m.device.sessionDevices d) m)
    unfold deviceDetach
    split
    · rfl
    · dsimp only
      split
      · exact hframe
      · exact (congrArg DeviceOrder.master (deviceOrder_queue _ _)).trans hframe
  show DeviceOrder.mk (m.deviceDetach d).seat.devices (m.deviceDetach d).device.master = _
  rw [hdevices, hmaster]

/-- When `d` leaves its seat, the order is right again. -/
theorem MastersFirstBut.detach (h : MastersFirstBut d m) (hw : Wf D m) :
    MastersFirst (m.deviceDetach d) := by
  have ho := deviceOrder_detach hw d
  have hdevices := congrArg DeviceOrder.devices ho
  have hmaster := congrArg DeviceOrder.master ho
  dsimp only [deviceOrder] at hdevices hmaster
  intro x
  rw [hdevices, hmaster]
  exact h x

theorem MastersFirstBut.free (h : MastersFirstBut d m) (hw : Wf D m) :
    MastersFirst (m.deviceFree d) :=
  (h.detach hw).detached ((does_deviceDetach (P := fun _ => True) trivial hw d).wf hw)
    (deviceDetach_eq hw d).1 false rfl

/-- A device that is attached takes the place that its flag asks for. -/
theorem MastersFirst.link (h : MastersFirst m) (d x : Ref) :
    MastersFirst (m.seatLinkDevice x d
      (if m.device.master d || (m.seat.devices x).isEmpty then d :: m.seat.devices x
        else Manager.insertDevice m.device.master d (m.seat.devices x))) := by
  intro y
  by_cases hy : y = x
  · subst hy
    unfold seatLinkDevice
    dsimp only
    rw [update_self]
    split
    · next hfront =>
      rw [Bool.or_eq_true, List.isEmpty_iff] at hfront
      rcases hfront with hmaster | hempty
      · exact (h y).cons_flag hmaster
      · rw [hempty]
        exact pairwise_singleton ..
    · next hback =>
      rw [Bool.or_eq_true, not_or, Bool.not_eq_true] at hback
      exact insertDevice_flagsFirst (h y) hback.1
  · unfold seatLinkDevice
    dsimp only
    rw [update_of_ne hy]
    exact h y

/-- A device that moves to another seat may have become a master before. -/
theorem MastersFirstBut.attach (h : MastersFirstBut d m) (hw : Wf D m)
    (hstay : m.device.seat d = some x → MastersFirst m) : MastersFirst (m.deviceAttach d x) := by
  unfold deviceAttach
  split
  · next hx => exact hstay hx
  · exact (h.detach hw).link d x

end Attach

/-! ## Events -/

/-- An event that makes a device a master although it stays attached where a
    device that is none stands before it.  A device stays if the event names its
    seat, and also if the seat that is named can not be added. -/
def UpgradesInPlace (env : Env) (m : Manager) (e : SeatDevice) : Prop :=
  e.remove = false ∧ e.master = true ∧ seatNameIsValid e.seatName = true ∧
    ∃ d x i, m.getDevice e.syspath = some d ∧ m.device.seat d = some x ∧
      (m.getSeat e.seatName = some x ∨ m.getSeat e.seatName = none ∧ env.alloc = false) ∧
      [i, d].Sublist (m.seat.devices x) ∧ m.device.master i = false

section Events

variable {D : Option Ref} {m : Manager}

variable {env : Env} {syspath : Bytes} {master : Bool} {m' : Manager} {d : Ref}

/-- `manager_add_device` makes a device that is attached nowhere, or sets the flag
    of a device that is known. -/
theorem addDevice_cases (hadd : m.addDevice env syspath master = (m', .ok d)) :
    m.getDevice syspath = none ∧ m' = (m.deviceNew syspath master).1 ∧ d = m.next ∨
    m.getDevice syspath = some d ∧
      m' = { m with device.master := update m.device.master d (m.device.master d || master) } := by
  unfold addDevice at hadd
  split at hadd
  · next e he =>
    cases hadd
    exact .inr ⟨he, rfl⟩
  · next hnone =>
    split at hadd
    · cases hadd
    · cases hadd
      exact .inl ⟨hnone, rfl, rfl⟩

theorem addDevice_error {err : Errno} (hadd : m.addDevice env syspath master = (m', .error err)) :
    m' = m := by
  unfold addDevice at hadd
  split at hadd
  · cases hadd
  · split at hadd
    · cases hadd
      rfl
    · cases hadd

/-- `manager_add_seat` finds the seat, or makes one that has no devices. -/
theorem addSeat_cases {id : Bytes} {x : Ref} (hadd : m.addSeat env id = (m', .ok x)) :
    m.getSeat id = some x ∧ m' = m ∨ x = m.next ∧ m'.deviceOrder = m.deviceOrder := by
  unfold addSeat at hadd
  split at hadd
  · next y hy =>
    cases hadd
    exact .inl ⟨hy, rfl⟩
  · split at hadd
    · cases hadd
    · split at hadd
      · cases hadd
      · cases hadd
        exact .inr ⟨rfl, rfl⟩

theorem addSeat_error {id : Bytes} {err : Errno} (hadd : m.addSeat env id = (m', .error err))
    (hvalid : seatNameIsValid id = true) : m' = m ∧ m.getSeat id = none ∧ env.alloc = false := by
  unfold addSeat at hadd
  split at hadd
  · cases hadd
  · next hnone =>
    rw [hvalid] at hadd
    split at hadd
    · cases hadd
      next hnot => cases hnot
    · split at hadd
      · next halloc =>
        cases hadd
        exact ⟨rfl, hnone, by simpa using halloc⟩
      · cases hadd

/-- After `manager_add_device` only the place of the device itself may be wrong. -/
theorem MastersFirst.addDevice_but (h : MastersFirst m) (hw : Wf D m)
    (hadd : m.addDevice env syspath master = (m', .ok d)) : MastersFirstBut d m' := by
  rcases addDevice_cases hadd with ⟨-, rfl, rfl⟩ | ⟨-, rfl⟩
  · have hnew : MastersFirst (m.deviceNew syspath master).1 :=
      h.detached hw (device_next hw) master rfl
    exact hnew.but m.next
  · exact h.upgrade hw _

/-- It is right if the event upgrades no device in place. -/
theorem MastersFirst.addDevice_stays (h : MastersFirst m) (hw : Wf D m) {e : SeatDevice} {x : Ref}
    (hadd : m.addDevice env e.syspath e.master = (m', .ok d)) (hd : m'.device.seat d = some x)
    (hstay : m.getSeat e.seatName = some x ∨ m.getSeat e.seatName = none ∧ env.alloc = false)
    (hremove : e.remove = false) (hvalid : seatNameIsValid e.seatName = true)
    (hplace : ¬ UpgradesInPlace env m e) : MastersFirst m' := by
  rcases addDevice_cases hadd with ⟨-, rfl, rfl⟩ | ⟨hknown, rfl⟩
  · exact h.detached hw (device_next hw) e.master rfl
  · intro y
    refine (h y).set e.master ?_
    intro hmaster i hi
    have hy : m.device.seat d = some y := by
      rw [← hw.seatDevices.mem_iff]
      exact hi.subset (by simp)
    have hxy : x = y := Option.some.inj (hd.symm.trans hy)
    by_contra hnot
    refine hplace ⟨hremove, hmaster, hvalid, d, y, i, hknown, hy, ?_, hi, by simpa using hnot⟩
    rw [← hxy]
    exact hstay

theorem MastersFirst.processAdd (h : MastersFirst m) (hw : Wf D m) (env : Env) (e : SeatDevice)
    (hremove : e.remove = false) (hplace : ¬ UpgradesInPlace env m e) :
    MastersFirst (m.processAdd env e).1 := by
  unfold Manager.processAdd
  split
  · exact h
  · next hname =>
    have hvalid : seatNameIsValid e.seatName = true := by simpa using hname
    split
    · exact h
    · have hw₁ := (does_addDevice (P := fun _ => True) trivial trivial hw env e.syspath
        e.master).1.wf hw
      generalize hadd : m.addDevice env e.syspath e.master = r₁ at hw₁
      obtain ⟨m₁, r₁⟩ := r₁
      cases r₁ with
      | error err =>
        rw [addDevice_error hadd]
        exact h
      | ok d =>
        have hbut := h.addDevice_but hw hadd
        have hsame : m₁.getSeat e.seatName = m.getSeat e.seatName := by
          rcases addDevice_cases hadd with ⟨-, rfl, -⟩ | ⟨-, rfl⟩ <;> rfl
        dsimp only at hw₁ ⊢
        have hw₂ := (does_addSeat (P := fun _ => True) trivial hw₁ env e.seatName).1.wf hw₁
        generalize hseat : m₁.addSeat env e.seatName = r₂ at hw₂
        obtain ⟨m₂, r₂⟩ := r₂
        cases r₂ with
        | error err =>
          obtain ⟨rfl, hnone, halloc⟩ := addSeat_error hseat hvalid
          dsimp only
          split
          · exact hbut.free hw₁
          · next hsome =>
            obtain ⟨x, hx⟩ := Option.ne_none_iff_exists'.mp (by simpa using hsome)
            exact h.addDevice_stays hw hadd hx (.inr ⟨hsame.symm.trans hnone, halloc⟩) hremove
              hvalid hplace
        | ok x =>
          have hattach : MastersFirst (m₂.deviceAttach d x) := by
            rcases addSeat_cases hseat with ⟨hfound, rfl⟩ | ⟨rfl, horder⟩
            · refine hbut.attach hw₁ fun hx => ?_
              exact h.addDevice_stays hw hadd hx (.inl (hsame.symm.trans hfound)) hremove hvalid
                hplace
            · refine (hbut.of_order horder).attach hw₂ fun hx => ?_
              have hdevice := addSeat_device env m₁ e.seatName
              rw [hseat] at hdevice
              rw [hdevice] at hx
              exact absurd (hw₁.seatOld (hw₁.deviceLive hx).2) (Nat.lt_irrefl _)
          have hlive : m₂.device.live d ∧ m₂.seat.live x := by
            constructor
            · have hd := (does_addDevice (P := fun _ => True) trivial trivial hw env e.syspath
                e.master).2 d (by rw [hadd])
              have hdevice := addSeat_device env m₁ e.seatName
              rw [hseat] at hdevice
              rw [hadd] at hd
              rw [hdevice]
              exact hd
            · have hx := (does_addSeat (P := fun _ => True) trivial hw₁ env e.seatName).2 x
                (by rw [hseat])
              rw [hseat] at hx
              exact hx
          have hw₃ := (does_deviceAttach (P := fun _ => True) trivial trivial hw₂ hlive.1
            hlive.2).wf hw₂
          exact hattach.does hw₃ (does_seatStart (by simp) hw₃ env x)

/-- An event keeps the masters in front, unless it upgrades a device in place. -/
theorem MastersFirst.processSeatDevice (h : MastersFirst m) (hw : Wf D m) (env : Env)
    (e : SeatDevice) (hplace : ¬ UpgradesInPlace env m e) :
    MastersFirst (m.processSeatDevice env e).1 := by
  unfold Manager.processSeatDevice
  split
  · exact h.does hw (does_processRemove (by simp) hw e.syspath)
  · next hremove => exact h.processAdd hw env e (by simpa using hremove) hplace

end Events

/-! ## Runs -/

/-- What happens to the devices of seats: an event of udev, a run of the garbage
    collector, or anything else that neither attaches a device nor makes one a
    master. -/
inductive DeviceOp where
  | event (env : Env) (e : SeatDevice)
  | gc (env : Manager.GcEnv) (dropNotStarted : Bool)
  | other

def DeviceStep (m : Manager) : DeviceOp → Manager → Prop
  | .event env e, m' => m' = (m.processSeatDevice env e).1
  | .gc env dropNotStarted, m' => m' = m.managerGc env dropNotStarted
  | .other, m' => Does (· ≠ .devices) none m m'

/-- No device is upgraded in place. -/
def DeviceOp.Orderly (m : Manager) : DeviceOp → Prop
  | .event env e => ¬ UpgradesInPlace env m e
  | .gc _ _ => True
  | .other => True

theorem DeviceStep.mastersFirst {m m' : Manager} {op : DeviceOp} (hs : DeviceStep m op m')
    (ho : op.Orderly m) (hw : Wf none m) (h : MastersFirst m) : Wf none m' ∧ MastersFirst m' := by
  cases op with
  | event env e =>
    rw [show m' = (m.processSeatDevice env e).1 from hs]
    exact ⟨(does_processSeatDevice (P := fun _ => True) trivial trivial trivial hw env e).wf hw,
      h.processSeatDevice hw env e ho⟩
  | gc env dropNotStarted =>
    rw [show m' = m.managerGc env dropNotStarted from hs]
    have hgc : Does (· ≠ .devices) none m (m.managerGc env dropNotStarted) :=
      does_managerGc ⟨by simp, by simp, by simp, by simp⟩ hw env dropNotStarted
    exact ⟨hgc.wf hw, h.does hw hgc⟩
  | other =>
    have hother : Does (· ≠ .devices) none m m' := hs
    exact ⟨hother.wf hw, h.does hw hother⟩

/-- From the empty manager on, whatever the events, masters come first and are
    found as long as no event upgrades a device in place (`DeviceOp.Orderly`). -/
theorem masterDevicesFound_of_run {consoleActive : Bool} {ops : List DeviceOp} {m : Manager}
    (hrun : Run (fun m op m' => DeviceStep m op m' ∧ op.Orderly m) (.empty consoleActive) ops m) :
    MasterDevicesFound m := by
  have hinv : Wf none m ∧ MastersFirst m := by
    refine hrun.invariant (I := fun m => Wf none m ∧ MastersFirst m)
      ⟨wf_empty consoleActive, fun _ => .nil⟩ ?_
    intro t t' op hI hstep
    exact hstep.1.mastersFirst hstep.2 hI.1 hI.2
  exact hinv.2.found hinv.1

/-- An event about a device of the second seat. -/
def secondSeatEvent (syspath : Bytes) (remove master : Bool) : SeatDevice :=
  { syspath := syspath, remove := remove, idSeat := some (ascii "seat1"), master := master }

/-- The manager after some events. -/
def Manager.afterEvents (m : Manager) (events : List SeatDevice) : Manager :=
  events.foldl (fun m e => (m.processSeatDevice .calm e).1) m

theorem orderly_of_unknown {env : Env} {m : Manager} {e : SeatDevice}
    (h : m.getDevice e.syspath = none) : (DeviceOp.event env e).Orderly m := by
  rintro ⟨-, -, -, d, -, -, hd, -⟩
  rw [h] at hd
  cases hd

/-- A graphics card and a keyboard are plugged in. -/
theorem masterDevicesFound_of_two :
    MasterDevicesFound ((Manager.empty false).afterEvents
      [secondSeatEvent (ascii "/sys/card1") false true,
        secondSeatEvent (ascii "/sys/input7") false false]) := by
  have hcard : (DeviceOp.event .calm (secondSeatEvent (ascii "/sys/card1") false true)).Orderly
      (.empty false) := orderly_of_unknown rfl
  have hkeyboard : (DeviceOp.event .calm
      (secondSeatEvent (ascii "/sys/input7") false false)).Orderly
        ((empty false).afterEvents
          [secondSeatEvent (ascii "/sys/card1") false true]) := orderly_of_unknown (by decide)
  have hrun : Run (fun m op m' => DeviceStep m op m' ∧ op.Orderly m) (.empty false)
      [.event .calm (secondSeatEvent (ascii "/sys/card1") false true),
        .event .calm (secondSeatEvent (ascii "/sys/input7") false false)]
      ((empty false).afterEvents
        [secondSeatEvent (ascii "/sys/card1") false true,
          secondSeatEvent (ascii "/sys/input7") false false]) :=
    .cons ⟨rfl, hcard⟩ (.cons ⟨rfl, hkeyboard⟩ (.nil _))
  exact masterDevicesFound_of_run hrun

theorem run_afterEvents (m : Manager) (events : List SeatDevice) :
    Run DeviceStep m (events.map (.event .calm)) (m.afterEvents events) := by
  induction events generalizing m with
  | nil => exact .nil m
  | cons e events ih => exact .cons rfl (ih _)

/-- A mouse becomes a master behind a keyboard that is none.  When the graphics
    card goes away, the seat seems to have no master although the mouse is one. -/
theorem masterDevices_lost :
    ¬ ∀ (ops : List DeviceOp) (m : Manager),
      Run DeviceStep (.empty false) ops m → MasterDevicesFound m := by
  intro hall
  have hfound := (hall _ _ (run_afterEvents (.empty false)
    [secondSeatEvent (ascii "/sys/card1") false true,
      secondSeatEvent (ascii "/sys/input7") false false,
      secondSeatEvent (ascii "/sys/input8") false false,
      secondSeatEvent (ascii "/sys/input8") false true,
      secondSeatEvent (ascii "/sys/card1") true true])).found 1
  have hmouse := hfound.mpr ⟨3, by decide, by decide⟩
  exact absurd hmouse (by decide)

end Elogind
