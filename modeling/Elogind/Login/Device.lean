/-
  Elogind.Login.Device

  Devices of seats (logind-device.c), the events about them (logind-core.c), and
  the session devices that sessions make of them (logind-session-device.c).
-/

import Elogind.Login.Seat

namespace Elogind

open Function Errno

/-- An event of udev about a device of a seat. -/
structure SeatDevice where
  syspath : Bytes
  /-- The device is being removed, or has no seat tag. -/
  remove : Bool
  /-- `ID_SEAT`, if it is set. -/
  idSeat : Option Bytes
  /-- The device has the tag `master-of-seat`. -/
  master : Bool
  deriving DecidableEq, Repr

/-- The name of the seat of a device; the first seat is the default. -/
def SeatDevice.seatName (e : SeatDevice) : Bytes :=
  match e.idSeat with
  | none => ascii "seat0"
  | some sn => if sn.isEmpty then ascii "seat0" else sn

/-- What udev knows about a device number: the type of the device, and the
    device of the seat it belongs to. -/
structure DeviceNode where
  type : DeviceType
  device : SeatDevice
  deriving DecidableEq, Repr

/-- `seat_name_valid_char` -/
def seatNameValidChar (c : UInt8) : Bool :=
  (97 ≤ c && c ≤ 122) || (65 ≤ c && c ≤ 90) || (48 ≤ c && c ≤ 57) || c == 45 || c == 95

/-- `seat_name_is_valid` -/
def seatNameIsValid (name : Bytes) : Bool :=
  (ascii "seat").isPrefixOf name && 4 < name.length && name.all seatNameValidChar &&
    name.length ≤ 255

namespace Manager

/-- `device_detach` -/
def deviceDetach (m : Manager) (d : Ref) : Manager :=
  match m.device.seat d with
  | none => m
  | some x =>
    let m := (m.device.sessionDevices d).foldl sessionDeviceFree m
    let m := m.seatUnlinkDevice x d
    if m.seatHasMasterDevice x then m else m.seatAddToGcQueue x

/-- The memory of a device is given back. -/
def freeDevice (m : Manager) (d : Ref) : Manager :=
  { m with
    devices := m.devices.erase d
    device.live := update m.device.live d false
    device.sysfs := update m.device.sysfs d []
    device.master := update m.device.master d false }

/-- `device_free` -/
def deviceFree (m : Manager) (d : Ref) : Manager := (m.deviceDetach d).freeDevice d

/-- The place of a device that is not a master: behind the first device that is
    none, or at the end. -/
def insertDevice (master : Ref → Bool) (d : Ref) : List Ref → List Ref
  | [] => [d]
  | i :: l => if l.isEmpty || !master i then i :: d :: l else i :: insertDevice master d l

/-- `device_attach` -/
def deviceAttach (m : Manager) (d x : Ref) : Manager :=
  if m.device.seat d = some x then m
  else
    let m := m.deviceDetach d
    m.seatLinkDevice x d
      (if m.device.master d || (m.seat.devices x).isEmpty then d :: m.seat.devices x
        else insertDevice m.device.master d (m.seat.devices x))

/-- `hashmap_get` on the devices of the manager. -/
def getDevice (m : Manager) (syspath : Bytes) : Option Ref :=
  m.devices.find? fun d => m.device.sysfs d = syspath

/-- `hashmap_get` on the seats of the manager. -/
def getSeat (m : Manager) (id : Bytes) : Option Ref :=
  m.seats.find? fun x => m.seat.id x = id

/-- `device_new` -/
def deviceNew (m : Manager) (syspath : Bytes) (master : Bool) : Manager × Ref :=
  ({ m with
      next := m.next + 1
      devices := m.next :: m.devices
      device.live := update m.device.live m.next true
      device.sysfs := update m.device.sysfs m.next syspath
      device.master := update m.device.master m.next master }, m.next)

/-- `manager_add_device`; master flags are added but not removed. -/
def addDevice (env : Env) (m : Manager) (syspath : Bytes) (master : Bool) : Manager × Result Ref :=
  match m.getDevice syspath with
  | some d => ({ m with device.master := update m.device.master d (m.device.master d || master) }, .ok d)
  | none =>
    if !env.alloc then (m, .error ENOMEM)
    else
      let (m, d) := m.deviceNew syspath master
      (m, .ok d)

/-- `seat_new`, after its checks. -/
def seatNew (m : Manager) (id : Bytes) : Manager × Ref :=
  ({ m with
      next := m.next + 1
      seats := m.next :: m.seats
      seat.live := update m.seat.live m.next true
      seat.id := update m.seat.id m.next id }, m.next)

/-- `manager_add_seat` -/
def addSeat (env : Env) (m : Manager) (id : Bytes) : Manager × Result Ref :=
  match m.getSeat id with
  | some x => (m, .ok x)
  | none =>
    if !seatNameIsValid id then (m, .error EINVAL)
    else if !env.alloc then (m, .error ENOMEM)
    else
      let (m, x) := m.seatNew id
      (m, .ok x)

/-- `manager_process_seat_device`, when a device goes away. -/
def processRemove (m : Manager) (syspath : Bytes) : Manager :=
  match m.getDevice syspath with
  | none => m
  | some d =>
    match m.device.seat d with
    | none => m.deviceFree d
    | some x => (m.seatAddToGcQueue x).deviceFree d

/-- `manager_process_seat_device`, when a device is added or changed. -/
def processAdd (env : Env) (m : Manager) (e : SeatDevice) : Manager × Result Unit :=
  if !seatNameIsValid e.seatName then (m, .ok ())
  else if !e.master && (m.getSeat e.seatName).isNone then (m, .ok ())
  else
    match m.addDevice env e.syspath e.master with
    | (m, .error err) => (m, .error err)
    | (m, .ok d) =>
      match m.addSeat env e.seatName with
      | (m, .error err) => (if (m.device.seat d).isNone then m.deviceFree d else m, .error err)
      | (m, .ok x) => ((m.deviceAttach d x).seatStart env x, .ok ())

/-- `manager_process_seat_device` -/
def processSeatDevice (env : Env) (m : Manager) (e : SeatDevice) : Manager × Result Unit :=
  if e.remove then (m.processRemove e.syspath, .ok ()) else m.processAdd env e

/-- The part of `session_device_verify` for a device whose event may not have
    arrived yet. -/
def enumerateDevice (env : Env) (m : Manager) (e : SeatDevice) : Manager × Result Unit :=
  match m.getDevice e.syspath with
  | some _ => (m, .ok ())
  | none => m.processSeatDevice env e

/-- The part of `session_device_verify` that finds the device of the seat. -/
def findDevice (env : Env) (m : Manager) (s : Ref) (node : DeviceNode) :
    Result (Ref × DeviceType) :=
  match m.getDevice node.device.syspath with
  | none => .error ENODEV
  | some d =>
    if m.device.seat d ≠ m.session.seat s then .error EPERM
    else if !env.alloc then .error ENOMEM
    else .ok (d, node.type)

/-- `session_device_verify` -/
def sessionDeviceVerify (env : Env) (m : Manager) (s : Ref) (node : Result DeviceNode) :
    Manager × Result (Ref × DeviceType) :=
  match node with
  | .error e => (m, .error e)
  | .ok node =>
    if node.type = .unknown then (m, .error ENODEV)
    else
      match m.enumerateDevice env node.device with
      | (m, .error e) => (m, .error e)
      | (m, .ok ()) => (m, m.findDevice env s node)

/-- Opening a device for the first time: whether it is active, and its file
    descriptor. -/
def openFirst (env : Env) (active : Bool) : Result (Bool × Nat) :=
  match env.openNode active with
  | .ok fd => .ok (active, fd)
  | .error e =>
    if active ∧ e = EINVAL then
      match env.openNode false with
      | .ok fd => .ok (false, fd)
      | .error e => .error e
    else .error e

/-- The session device and the pointers to it from its session and its device. -/
def sessionDeviceLink (m : Manager) (s d dev : Ref) (type : DeviceType) (active : Bool)
    (fd : Option Nat) : Manager :=
  { m with
    next := m.next + 1
    sd.session := update m.sd.session m.next (some s)
    sd.device := update m.sd.device m.next (some d)
    sd.dev := update m.sd.dev m.next dev
    sd.type := update m.sd.type m.next type
    sd.fd := update m.sd.fd m.next fd
    sd.active := update m.sd.active m.next active
    session.devices := update m.session.devices s (m.next :: m.session.devices s)
    device.sessionDevices :=
      update m.device.sessionDevices d (m.next :: m.device.sessionDevices d) }

/-- `session_device_new`.  Every failure after the first two checks removes the
    device number from the devices of the session. -/
def sessionDeviceNew (env : Env) (m : Manager) (s dev : Ref) (openDevice : Bool)
    (node : Result DeviceNode) : Manager × Result Ref :=
  if (m.session.seat s).isNone then (m, .error EPERM)
  else if !env.alloc then (m, .error ENOMEM)
  else
    match m.sessionDeviceVerify env s node with
    | (m, .error e) => (m.sessionRemoveDevice s dev, .error e)
    | (m, .ok (d, type)) =>
      if (m.sessionGetDevice s dev).isSome then (m.sessionRemoveDevice s dev, .error EEXIST)
      else if !env.putDevice then (m.sessionRemoveDevice s dev, .error ENOMEM)
      else if !openDevice then (m.sessionDeviceLink s d dev type false none, .ok m.next)
      else
        match openFirst env (m.sessionIsActive s) with
        | .error e => (m.sessionRemoveDevice s dev, .error e)
        | .ok (active, fd) => (m.sessionDeviceLink s d dev type active (some fd), .ok m.next)

end Manager

end Elogind
