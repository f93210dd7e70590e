/-
  Elogind.Login.SessionDevice

  Devices that sessions have taken (logind-session-device.c): starting and
  stopping them when the session comes to the foreground or leaves it, and
  freeing them.
-/

import Elogind.Login.State

namespace Elogind

open Function

namespace Manager

/-- `session_device_notify`; only a controller is notified. -/
def sessionDeviceNotify (m : Manager) (sd : Ref) (n : Notification) : Manager :=
  match m.sd.session sd with
  | none => m
  | some s =>
    match m.session.controller s with
    | none => m
    | some c =>
      { m with
        signals := { session := s, sd := sd, notification := n, destination := c } :: m.signals }

/-- `session_device_start`; the flag says whether it succeeded. -/
def sessionDeviceStart (env : Env) (m : Manager) (sd : Ref) : Manager × Bool :=
  if m.sd.active sd then (m, true)
  else
    match m.sd.type sd with
    | .drm =>
      if (m.sd.fd sd).isNone then (m, false)
      else if !env.setMaster sd then (m, false)
      else ({ m with sd.active := update m.sd.active sd true }, true)
    | .evdev | .hidraw =>
      match env.reopen sd with
      | none => (m, false)
      | some fd =>
        ({ m with sd.fd := update m.sd.fd sd (some fd), sd.active := update m.sd.active sd true },
          true)
    | .unknown => ({ m with sd.active := update m.sd.active sd true }, true)

/-- `session_device_stop` -/
def sessionDeviceStop (m : Manager) (sd : Ref) : Manager :=
  if !m.sd.active sd then m
  else if m.sd.type sd = .drm ∧ (m.sd.fd sd).isNone then m
  else { m with sd.active := update m.sd.active sd false }

/-- `session_device_save` -/
def sessionDeviceSave (env : Env) (m : Manager) (sd : Ref) : Manager × Bool :=
  if m.sd.pushedFd sd then (m, true)
  else if !env.pushFd sd then (m, false)
  else ({ m with sd.pushedFd := update m.sd.pushedFd sd true }, true)

/-- One round of `session_device_resume_all`. -/
def sessionDeviceResume (env : Env) (m : Manager) (sd : Ref) : Manager :=
  if m.sd.active sd then m
  else
    let (m, started) := m.sessionDeviceStart env sd
    if !started then m
    else
      let (m, saved) := m.sessionDeviceSave env sd
      if !saved then m else m.sessionDeviceNotify sd .resume

/-- `session_device_resume_all` -/
def sessionDeviceResumeAll (env : Env) (m : Manager) (s : Ref) : Manager :=
  (m.session.devices s).foldl (sessionDeviceResume env) m

/-- One round of `session_device_pause_all`. -/
def sessionDevicePause (m : Manager) (sd : Ref) : Manager :=
  if !m.sd.active sd then m else (m.sessionDeviceStop sd).sessionDeviceNotify sd .pause

/-- `session_device_pause_all` -/
def sessionDevicePauseAll (m : Manager) (s : Ref) : Manager :=
  (m.session.devices s).foldl sessionDevicePause m

/-- `hashmap_remove` on the devices of a session, by device number. -/
def sessionRemoveDevice (m : Manager) (s : Ref) (dev : Nat) : Manager :=
  { m with
    session.devices :=
      update m.session.devices s ((m.session.devices s).eraseP fun sd => m.sd.dev sd = dev) }

/-- The memory of a session device is given back. -/
def freeSessionDevice (m : Manager) (sd : Ref) : Manager :=
  { m with
    sd.session := update m.sd.session sd none
    sd.device := update m.sd.device sd none
    sd.dev := update m.sd.dev sd 0
    sd.type := update m.sd.type sd .unknown
    sd.fd := update m.sd.fd sd none
    sd.active := update m.sd.active sd false
    sd.pushedFd := update m.sd.pushedFd sd false }

/-- The pointers to a session device are taken out of its device and of its
    session. -/
def sessionDeviceUnlink (m : Manager) (sd : Ref) : Manager :=
  match m.sd.session sd, m.sd.device sd with
  | some s, some d =>
    let m := { m with
      device.sessionDevices :=
        update m.device.sessionDevices d ((m.device.sessionDevices d).erase sd) }
    m.sessionRemoveDevice s (m.sd.dev sd)
  | _, _ => m

/-- `session_device_free` -/
def sessionDeviceFree (m : Manager) (sd : Ref) : Manager :=
  (((m.sessionDeviceStop sd).sessionDeviceNotify sd .release).sessionDeviceUnlink sd).freeSessionDevice
    sd

/-- `while ((sd = hashmap_first(s->devices))) session_device_free(sd)`: each
    round takes one device out of the map. -/
def sessionFreeDevices (m : Manager) (s : Ref) : Manager :=
  (m.session.devices s).foldl sessionDeviceFree m

end Manager

end Elogind
