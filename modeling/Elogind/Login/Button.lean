/-
  Elogind.Login.Button

  Buttons, lid switches and the timers of long key presses (logind-button.c).

  The timers belong to the manager, one for each of the four keys, but what they
  point to is the button that was pressed.  Buttons come and go with the udev
  events of their input devices.

  Freed memory is not used again here: a `Ref` stands for one button for good.
-/

import Elogind.Login.Action
import Elogind.Login.State

namespace Elogind

open Function List

/-! ## Data -/

/-- The keys that act differently when they are pressed long. -/
inductive LongPressKey where
  | power
  | reboot
  | suspend
  | hibernate
  deriving DecidableEq, Repr

/-- The inhibitor lock that a key respects. -/
def LongPressKey.inhibit : LongPressKey → InhibitWhat
  | power => .handlePowerKey
  | reboot => .handleRebootKey
  | suspend => .handleSuspendKey
  | hibernate => .handleHibernateKey

/-- The part of the configuration that is about buttons: `handle_power_key`,
    `handle_power_key_long_press`, `power_key_ignore_inhibited` and so on. -/
structure ButtonConfig where
  handleKey : LongPressKey → HandleAction
  handleKeyLongPress : LongPressKey → HandleAction
  keyIgnoreInhibited : LongPressKey → Bool
  handleSecureAttentionKey : HandleAction
  handleLidSwitch : HandleAction
  /-- `none` is `_HANDLE_ACTION_INVALID`. -/
  handleLidSwitchEp : Option HandleAction
  handleLidSwitchDocked : HandleAction
  lidSwitchIgnoreInhibited : Bool

/-- `manager_reset_config` -/
def ButtonConfig.reset : ButtonConfig where
  handleKey
    | .power => .poweroff
    | .reboot => .reboot
    | .suspend => .suspend
    | .hibernate => .hibernate
  handleKeyLongPress
    | .power => .ignore
    | .reboot => .poweroff
    | .suspend => .hibernate
    | .hibernate => .ignore
  keyIgnoreInhibited _ := false
  handleSecureAttentionKey := .secureAttentionKey
  handleLidSwitch := .suspend
  handleLidSwitchEp := none
  handleLidSwitchDocked := .ignore
  lidSwitchIgnoreInhibited := true

/-- A mask of `BUTTON_MODIFIER_*` bits. -/
abbrev ButtonModifierMask := Nat

/-- `Button`.  `ioEnabled` says that its `io_event_source` is there and has not been
    switched off after an error, `checkEventSource` that the lid is being rechecked. -/
structure Button where
  name : Bytes
  seat : Option Bytes := none
  ioEnabled : Bool := false
  checkEventSource : Bool := false
  buttonModifierMask : ButtonModifierMask := 0
  lidClosed : Bool := false
  docked : Bool := false
  deriving DecidableEq, Repr

/-- The manager, as far as buttons go: `m->buttons` with what is in the buttons, and
    the pending long press timers with the buttons that are their userdata. -/
structure ButtonManager where
  config : ButtonConfig
  next : Ref := 0
  buttons : List Ref := []
  button : Ref → Button
  longPress : LongPressKey → Option Ref := fun _ => none

/-- What `manager_handle_action` is called with. -/
structure ButtonAction where
  inhibitKey : InhibitWhat
  action : HandleAction
  ignoreInhibited : Bool
  isEdge : Bool
  seat : Option Bytes
  deriving DecidableEq, Repr

/-- `struct input_event` -/
structure InputEvent where
  type : Nat
  code : Nat
  value : Int
  deriving DecidableEq, Repr

/-- What `read` gives on the file descriptor of a button. -/
inductive ButtonRead where
  | error (e : Errno)
  | short
  | event (ev : InputEvent)
  deriving DecidableEq, Repr

/-- What an event handler finds: whether event sources can be added, and what is
    asked before the lid switch is handled. -/
structure ButtonEnv where
  timerAdded : Bool := true
  postAdded : Bool := true
  externalDisplays : Bool := false
  onExternalPower : Bool := false
  deriving DecidableEq, Repr

/-- An input device as udev reports it, and how it is opened: `opened` is the outcome
    of `button_open`, with the modifier keys that are held. -/
structure ButtonDevice where
  sysname : Bytes
  removing : Bool := false
  tagged : Bool := true
  idSeat : Option Bytes := none
  allocated : Bool := true
  seatAllocated : Bool := true
  opened : Result ButtonModifierMask

/-! ## Codes -/

namespace InputEvent

def evKey : Nat := 1
def evSw : Nat := 5
def swLid : Nat := 0
def swDock : Nat := 5
def keyEsc : Nat := 1

end InputEvent

open InputEvent

/-- The key with its own timer that a code stands for: `KEY_POWER` and `KEY_POWER2`,
    `KEY_RESTART`, `KEY_SLEEP`, `KEY_SUSPEND`. -/
def longPressKey (code : Nat) : Option LongPressKey :=
  if code = 116 ∨ code = 0x164 then some .power
  else if code = 0x198 then some .reboot
  else if code = 142 then some .suspend
  else if code = 205 then some .hibernate
  else none

/-- `button_get_keycode_modifier_mask`, which asserts that there is a key -/
def buttonGetKeycodeModifierMask (keycode : Nat) : Option ButtonModifierMask :=
  if keycode = 0 then none
  else if keycode = 42 then some (1 <<< 0)
  else if keycode = 54 then some (1 <<< 1)
  else if keycode = 29 then some (1 <<< 2)
  else if keycode = 97 then some (1 <<< 3)
  else if keycode = 56 then some (1 <<< 4)
  else if keycode = 100 then some (1 <<< 5)
  else some 0

/-- Shift, control and alt are all held. -/
def hasAllModifiers (mask : ButtonModifierMask) : Bool :=
  mask &&& 0b11 ≠ 0 && mask &&& 0b1100 ≠ 0 && mask &&& 0b110000 ≠ 0

/-! ## Buttons -/

namespace ButtonManager

def modifyButton (m : ButtonManager) (b : Ref) (f : Button → Button) : ButtonManager :=
  { m with button := Function.update m.button b (f (m.button b)) }

/-- `hashmap_get(m->buttons, name)` -/
def getButton (m : ButtonManager) (name : Bytes) : Option Ref :=
  m.buttons.find? fun b => (m.button b).name = name

/-- `button_new` -/
def buttonNew (m : ButtonManager) (name : Bytes) : ButtonManager × Ref :=
  ({ m with
      next := m.next + 1
      buttons := m.next :: m.buttons
      button := Function.update m.button m.next { name := name } }, m.next)

/-- `button_free`.  It drops the event sources of the button. -/
def buttonFree (m : ButtonManager) (b : Ref) : ButtonManager :=
  { m with buttons := m.buttons.filter fun c => (m.button c).name ≠ (m.button b).name }

/-- `manager_is_docked` -/
def managerIsDocked (m : ButtonManager) : Bool := m.buttons.any fun b => (m.button b).docked

/-- `button_lid_switch_handle_action` -/
def buttonLidSwitchHandleAction (m : ButtonManager) (env : ButtonEnv) (isEdge : Bool)
    (seat : Option Bytes) : ButtonAction where
  inhibitKey := .handleLidSwitch
  action :=
    if m.managerIsDocked || env.externalDisplays then m.config.handleLidSwitchDocked
    else
      match m.config.handleLidSwitchEp with
      | some a => if env.onExternalPower then a else m.config.handleLidSwitch
      | none => m.config.handleLidSwitch
  ignoreInhibited := m.config.lidSwitchIgnoreInhibited
  isEdge := isEdge
  seat := seat

/-- `button_recheck`, which asserts that the lid is closed -/
def buttonRecheck (m : ButtonManager) (env : ButtonEnv) (b : Ref) : Option (List ButtonAction) :=
  if (m.button b).lidClosed then some [m.buttonLidSwitchHandleAction env false (m.button b).seat]
  else none

/-- `button_install_check_event_source` -/
def buttonInstallCheckEventSource (m : ButtonManager) (env : ButtonEnv) (b : Ref) : ButtonManager :=
  if (m.button b).checkEventSource then m
  else m.modifyButton b fun s => { s with checkEventSource := env.postAdded }

/-- What a key does, by its own configuration. -/
def keyAction (m : ButtonManager) (key : LongPressKey) (action : HandleAction) (b : Ref) :
    ButtonAction :=
  { inhibitKey := key.inhibit
    action := action
    ignoreInhibited := m.config.keyIgnoreInhibited key
    isEdge := true
    seat := (m.button b).seat }

/-- The handlers of long presses, which drop the timer first. -/
def longPressHandler (key : LongPressKey) (m : ButtonManager) (b : Ref) :
    ButtonManager × List ButtonAction :=
  ({ m with longPress := Function.update m.longPress key none },
    [m.keyAction key (m.config.handleKeyLongPress key) b])

/-- `long_press_of_power_key_handler` -/
def longPressOfPowerKeyHandler := longPressHandler .power

/-- `long_press_of_reboot_key_handler` -/
def longPressOfRebootKeyHandler := longPressHandler .reboot

/-- `long_press_of_suspend_key_handler` -/
def longPressOfSuspendKeyHandler := longPressHandler .suspend

/-- `long_press_of_hibernate_key_handler` -/
def longPressOfHibernateKeyHandler := longPressHandler .hibernate

/-- The handler that a timer was added with. -/
def handlerOf : LongPressKey → ButtonManager → Ref → ButtonManager × List ButtonAction
  | .power => longPressOfPowerKeyHandler
  | .reboot => longPressOfRebootKeyHandler
  | .suspend => longPressOfSuspendKeyHandler
  | .hibernate => longPressOfHibernateKeyHandler

/-- `start_long_press` -/
def startLongPress (m : ButtonManager) (env : ButtonEnv) (b : Ref) (key : LongPressKey) :
    ButtonManager :=
  match m.longPress key with
  | some _ => m
  | none =>
    if env.timerAdded then { m with longPress := Function.update m.longPress key (some b) } else m

/-- `button_dispatch`, when a key is pressed or repeated -/
def keyPressed (m : ButtonManager) (env : ButtonEnv) (b : Ref) (code : Nat) :
    Option (ButtonManager × List ButtonAction) :=
  match longPressKey code with
  | some key =>
    if m.config.handleKeyLongPress key ≠ .ignore ∧
        m.config.handleKeyLongPress key ≠ m.config.handleKey key then
      some (m.startLongPress env b key, [])
    else some (m, [m.keyAction key (m.config.handleKey key) b])
  | none =>
    if code = keyEsc then
      if m.config.handleSecureAttentionKey = .ignore ∨
          hasAllModifiers (m.button b).buttonModifierMask = false then some (m, [])
      else
        some (m, [{ inhibitKey := 0, action := m.config.handleSecureAttentionKey,
                    ignoreInhibited := true, isEdge := true, seat := (m.button b).seat }])
    else
      (buttonGetKeycodeModifierMask code).map fun mask =>
        (m.modifyButton b fun s => { s with buttonModifierMask := s.buttonModifierMask ||| mask }, [])

/-- `button_dispatch`, when a key is released -/
def keyReleased (m : ButtonManager) (b : Ref) (code : Nat) :
    Option (ButtonManager × List ButtonAction) :=
  match longPressKey code with
  | some key =>
    match m.longPress key with
    | some _ =>
      some ({ m with longPress := Function.update m.longPress key none },
        [m.keyAction key (m.config.handleKey key) b])
    | none => some (m, [])
  | none =>
    if code = keyEsc then some (m, [])
    else
      (buttonGetKeycodeModifierMask code).map fun mask =>
        (m.modifyButton b fun s =>
          { s with buttonModifierMask := s.buttonModifierMask &&& (63 ^^^ mask) }, [])

/-- `button_dispatch`, when a switch is closed -/
def switchClosed (m : ButtonManager) (env : ButtonEnv) (b : Ref) (code : Nat) :
    ButtonManager × List ButtonAction :=
  if code = swLid then
    let m := m.modifyButton b fun s => { s with lidClosed := true }
    (m.buttonInstallCheckEventSource env b,
      [m.buttonLidSwitchHandleAction env true (m.button b).seat])
  else if code = swDock then (m.modifyButton b fun s => { s with docked := true }, [])
  else (m, [])

/-- `button_dispatch`, when a switch is opened -/
def switchOpened (m : ButtonManager) (b : Ref) (code : Nat) : ButtonManager :=
  if code = swLid then
    m.modifyButton b fun s => { s with lidClosed := false, checkEventSource := false }
  else if code = swDock then m.modifyButton b fun s => { s with docked := false }
  else m

/-- `button_dispatch`.  An event source is switched off when its handler fails; `none`
    if an assertion fails. -/
def buttonDispatch (m : ButtonManager) (env : ButtonEnv) (b : Ref) :
    ButtonRead → Option (ButtonManager × List ButtonAction)
  | .error e =>
    if e = .EAGAIN then some (m, [])
    else some (m.modifyButton b fun s => { s with ioEnabled := false }, [])
  | .short => some (m.modifyButton b fun s => { s with ioEnabled := false }, [])
  | .event ev =>
    if ev.type = evKey ∧ ev.value > 0 then m.keyPressed env b ev.code
    else if ev.type = evKey ∧ ev.value = 0 then m.keyReleased b ev.code
    else if ev.type = evSw ∧ ev.value > 0 then some (m.switchClosed env b ev.code)
    else if ev.type = evSw ∧ ev.value = 0 then some (m.switchOpened b ev.code, [])
    else some (m, [])

/-! ## Devices -/

/-- `manager_add_button` -/
def managerAddButton (m : ButtonManager) (name : Bytes) (allocated : Bool) :
    Option (ButtonManager × Ref) :=
  match m.getButton name with
  | some b => some (m, b)
  | none => if allocated then some (m.buttonNew name) else none

/-- `button_set_seat` -/
def buttonSetSeat (m : ButtonManager) (b : Ref) (seat : Bytes) (allocated : Bool) : ButtonManager :=
  if allocated then m.modifyButton b fun s => { s with seat := some seat } else m

/-- `manager_process_button_device` -/
def managerProcessButtonDevice (m : ButtonManager) (d : ButtonDevice) : ButtonManager :=
  if d.removing || !d.tagged then
    match m.getButton d.sysname with
    | none => m
    | some b => m.buttonFree b
  else
    match m.managerAddButton d.sysname d.allocated with
    | none => m
    | some (m, b) =>
      let seat := match d.idSeat with
        | none | some [] => ascii "seat0"
        | some s => s
      let m := m.buttonSetSeat b seat d.seatAllocated
      match d.opened with
      | .error _ => m.buttonFree b
      | .ok mask =>
        m.modifyButton b fun s => { s with ioEnabled := true, buttonModifierMask := mask }

/-- `button_check_switches`: the lid and the dock, or `none` if they cannot be read. -/
def buttonCheckSwitches (m : ButtonManager) (env : ButtonEnv) (b : Ref)
    (switches : Option (Bool × Bool)) : ButtonManager :=
  match switches with
  | none => m
  | some (lid, dock) =>
    let m := m.modifyButton b fun s => { s with lidClosed := lid, docked := dock }
    if lid then m.buttonInstallCheckEventSource env b else m

/-- `manager_startup`: the buttons are enumerated, and their switches read. -/
def startup (config : ButtonConfig) (content : Ref → Button) (devices : List ButtonDevice)
    (env : Ref → ButtonEnv) (switches : Ref → Option (Bool × Bool)) : ButtonManager :=
  let m := devices.foldl managerProcessButtonDevice { config := config, button := content }
  m.buttons.foldl (fun m b => m.buttonCheckSwitches (env b) b (switches b)) m

/-! ## Steps -/

inductive Op where
  /-- A button has something to read. -/
  | input (b : Ref) (env : ButtonEnv) (r : ButtonRead)
  /-- A key has been pressed for long enough. -/
  | timer (key : LongPressKey)
  /-- The event loop has dispatched something, and the lid is still closed. -/
  | recheck (b : Ref) (env : ButtonEnv)
  | udev (d : ButtonDevice)
  /-- The configuration is read again. -/
  | reload (config : ButtonConfig)

/-- What happens, and the actions that are asked for.  There is nothing to go on with
    if no such event can come, if an assertion fails, or if a timer points to a button
    that has been freed. -/
def step (m : ButtonManager) : Op → Option (ButtonManager × List ButtonAction)
  | .input b env r =>
    if b ∈ m.buttons ∧ (m.button b).ioEnabled then m.buttonDispatch env b r else none
  | .timer key =>
    match m.longPress key with
    | none => none
    | some b => if b ∈ m.buttons then some (handlerOf key m b) else none
  | .recheck b env =>
    if b ∈ m.buttons ∧ (m.button b).checkEventSource then
      (m.buttonRecheck env b).map fun actions => (m, actions)
    else none
  | .udev d => some (m.managerProcessButtonDevice d, [])
  | .reload config => some ({ m with config := config }, [])

/-- One step after the other. -/
def run (m : ButtonManager) : List Op → Option ButtonManager
  | [] => some m
  | op :: ops => (m.step op).bind fun s => s.1.run ops

/-- Every pending long press timer points to a button of the manager. -/
def TimersLive (m : ButtonManager) : Prop := ∀ key b, m.longPress key = some b → b ∈ m.buttons

/-- Only closed lids are rechecked. -/
def LidsClosed (m : ButtonManager) : Prop :=
  ∀ b ∈ m.buttons, (m.button b).checkEventSource = true → (m.button b).lidClosed = true

/-- The udev event takes away a button that is there: it is removed, does not have the
    tag any more, or cannot be opened again. -/
def TakesAway (d : ButtonDevice) : Prop :=
  d.removing = true ∨ d.tagged = false ∨ ∃ e, d.opened = .error e

/-- No button is taken away while a long press timer that it has started is pending. -/
def KeysReleased (m : ButtonManager) : Op → Prop
  | .udev d => TakesAway d → ∀ b, m.getButton d.sysname = some b → ∀ key, m.longPress key ≠ some b
  | _ => True

/-! ## Events of buttons -/

/-- What the event handlers of a button `b` keep: the buttons and their names, every
    pending timer but those that `b` starts, and that only closed lids are rechecked. -/
structure Handled (b : Ref) (m m' : ButtonManager) : Prop where
  buttons : m'.buttons = m.buttons
  next : m'.next = m.next
  name : ∀ c, (m'.button c).name = (m.button c).name
  timer : ∀ key c, m'.longPress key = some c → m.longPress key = some c ∨ c = b
  lids : m.LidsClosed → m'.LidsClosed

namespace Handled

variable {b : Ref} {m m' m'' : ButtonManager}

theorem refl (m : ButtonManager) : Handled b m m := ⟨rfl, rfl, fun _ => rfl, fun _ _ => .inl, id⟩

theorem trans (h : Handled b m m') (h' : Handled b m' m'') : Handled b m m'' where
  buttons := h'.buttons.trans h.buttons
  next := h'.next.trans h.next
  name c := (h'.name c).trans (h.name c)
  timer key c hc := by
    rcases h'.timer key c hc with hc | hc
    · exact h.timer key c hc
    · exact .inr hc
  lids hl := h'.lids (h.lids hl)

/-- Writing to the button. -/
theorem modifyButton {f : Button → Button} (hname : (f (m.button b)).name = (m.button b).name)
    (hlid : ((m.button b).checkEventSource = true → (m.button b).lidClosed = true) →
      (f (m.button b)).checkEventSource = true → (f (m.button b)).lidClosed = true) :
    Handled b m (m.modifyButton b f) where
  buttons := rfl
  next := rfl
  name c := by
    show (update m.button b (f (m.button b)) c).name = _
    by_cases hc : c = b
    · subst hc
      rw [update_self]
      exact hname
    · rw [update_of_ne hc]
  timer _ _ := .inl
  lids hl c hc := by
    show (update m.button b (f (m.button b)) c).checkEventSource = true → _
    by_cases hcb : c = b
    · subst hcb
      show _ → (update m.button c (f (m.button c)) c).lidClosed = true
      rw [update_self]
      exact hlid (hl c hc)
    · show _ → (update m.button b (f (m.button b)) c).lidClosed = true
      rw [update_of_ne hcb]
      exact hl c hc

/-- Only the timers have changed. -/
theorem of_longPress {f : LongPressKey → Option Ref}
    (hf : ∀ key c, f key = some c → m.longPress key = some c ∨ c = b) :
    Handled b m { m with longPress := f } :=
  ⟨rfl, rfl, fun _ => rfl, hf, id⟩

/-- A timer is dropped. -/
theorem dropTimer (m : ButtonManager) (key : LongPressKey) :
    Handled b m { m with longPress := Function.update m.longPress key none } := by
  refine of_longPress fun key' c hc => ?_
  by_cases hkey : key' = key
  · subst hkey
    rw [update_self] at hc
    cases hc
  · rw [update_of_ne hkey] at hc
    exact .inl hc

theorem startLongPress (m : ButtonManager) (env : ButtonEnv) (key : LongPressKey) :
    Handled b m (m.startLongPress env b key) := by
  unfold ButtonManager.startLongPress
  split
  · exact refl m
  split
  · refine of_longPress fun key' c hc => ?_
    by_cases hkey : key' = key
    · subst hkey
      rw [update_self] at hc
      exact .inr (Option.some.inj hc).symm
    · rw [update_of_ne hkey] at hc
      exact .inl hc
  · exact refl m

theorem keyPressed {env : ButtonEnv} {code : Nat} {actions : List ButtonAction}
    (h : m.keyPressed env b code = some (m', actions)) : Handled b m m' := by
  unfold ButtonManager.keyPressed at h
  split at h
  · split at h
    · cases h
      exact startLongPress m env _
    · cases h
      exact refl m
  split at h
  · split at h
    · cases h
      exact refl m
    · cases h
      exact refl m
  · obtain ⟨mask, -, heq⟩ := Option.map_eq_some_iff.mp h
    cases heq
    exact modifyButton rfl id

theorem keyReleased {code : Nat} {actions : List ButtonAction}
    (h : m.keyReleased b code = some (m', actions)) : Handled b m m' := by
  unfold ButtonManager.keyReleased at h
  split at h
  · split at h
    · cases h
      exact dropTimer m _
    · cases h
      exact refl m
  split at h
  · cases h
    exact refl m
  · obtain ⟨mask, -, heq⟩ := Option.map_eq_some_iff.mp h
    cases heq
    exact modifyButton rfl id

/-- The lid is closed when its rechecking starts. -/
theorem install (env : ButtonEnv) (hlid : (m.button b).lidClosed = true) :
    Handled b m (m.buttonInstallCheckEventSource env b) := by
  unfold buttonInstallCheckEventSource
  split
  · exact refl m
  · exact modifyButton rfl fun _ _ => hlid

/-- The lid is found closed. -/
theorem closeLid {f : Button → Button} (hname : (f (m.button b)).name = (m.button b).name)
    (hlid : (f (m.button b)).lidClosed = true) (env : ButtonEnv) :
    Handled b m ((m.modifyButton b f).buttonInstallCheckEventSource env b) := by
  refine (modifyButton hname fun _ _ => hlid).trans (install env ?_)
  show (update m.button b (f (m.button b)) b).lidClosed = true
  rw [update_self]
  exact hlid

theorem switchClosed (m : ButtonManager) (env : ButtonEnv) (code : Nat) :
    Handled b m (m.switchClosed env b code).1 := by
  unfold ButtonManager.switchClosed
  split
  · exact closeLid rfl rfl env
  split
  · dsimp only
    exact modifyButton rfl id
  · exact refl m

theorem switchOpened (m : ButtonManager) (code : Nat) : Handled b m (m.switchOpened b code) := by
  unfold ButtonManager.switchOpened
  split
  · exact modifyButton rfl fun _ h => nomatch h
  split
  · exact modifyButton rfl id
  · exact refl m

theorem buttonDispatch {env : ButtonEnv} {r : ButtonRead} {actions : List ButtonAction}
    (h : m.buttonDispatch env b r = some (m', actions)) : Handled b m m' := by
  cases r with
  | error e =>
    rw [ButtonManager.buttonDispatch] at h
    split at h
    · cases h
      exact refl m
    · cases h
      exact modifyButton rfl id
  | short =>
    cases h
    exact modifyButton rfl id
  | event ev =>
    rw [ButtonManager.buttonDispatch] at h
    split at h
    · exact keyPressed h
    split at h
    · exact keyReleased h
    split at h
    · have hm : (m.switchClosed env b ev.code).1 = m' := congrArg Prod.fst (Option.some.inj h)
      exact hm ▸ switchClosed m env ev.code
    split at h
    · cases h
      exact switchOpened m ev.code
    · cases h
      exact refl m

theorem timersLive (h : Handled b m m') (hb : b ∈ m.buttons) (hlive : m.TimersLive) :
    m'.TimersLive := by
  intro key c hc
  rw [h.buttons]
  rcases h.timer key c hc with hc | rfl
  · exact hlive key c hc
  · exact hb

end Handled

/-! ## Events of devices -/

/-- The table of buttons is in order: names are unique, and buttons are not allocated
    twice. -/
structure Valid (m : ButtonManager) : Prop where
  unique : ∀ b ∈ m.buttons, ∀ c ∈ m.buttons, (m.button b).name = (m.button c).name → b = c
  allocated : ∀ b ∈ m.buttons, b < m.next
  lids : m.LidsClosed

variable {m : ButtonManager}

theorem Handled.valid {b : Ref} {m' : ButtonManager} (h : Handled b m m') (hm : m.Valid) :
    m'.Valid where
  unique c hc d hd hname := by
    rw [h.buttons] at hc hd
    rw [h.name, h.name] at hname
    exact hm.unique c hc d hd hname
  allocated c hc := by
    rw [h.next]
    rw [h.buttons] at hc
    exact hm.allocated c hc
  lids := h.lids hm.lids

theorem getButton_some {name : Bytes} {b : Ref} (h : m.getButton name = some b) :
    b ∈ m.buttons ∧ (m.button b).name = name :=
  ⟨mem_of_find?_eq_some h, by simpa using find?_some h⟩

theorem getButton_none {name : Bytes} (h : m.getButton name = none) :
    ∀ b ∈ m.buttons, (m.button b).name ≠ name := by
  simpa [getButton] using h

/-- The other buttons stay. -/
theorem mem_buttonFree (hm : m.Valid) {b : Ref} (hb : b ∈ m.buttons) (c : Ref) :
    c ∈ (m.buttonFree b).buttons ↔ c ∈ m.buttons ∧ c ≠ b := by
  unfold buttonFree
  simp only [mem_filter, decide_eq_true_eq]
  constructor
  · rintro ⟨hc, hname⟩
    refine ⟨hc, ?_⟩
    rintro rfl
    exact hname rfl
  · rintro ⟨hc, hne⟩
    exact ⟨hc, fun hname => hne (hm.unique c hc b hb hname)⟩

theorem valid_buttonFree (hm : m.Valid) {b : Ref} (hb : b ∈ m.buttons) :
    (m.buttonFree b).Valid where
  unique c hc d hd hname :=
    hm.unique c ((mem_buttonFree hm hb c).mp hc).1 d ((mem_buttonFree hm hb d).mp hd).1 hname
  allocated c hc := hm.allocated c ((mem_buttonFree hm hb c).mp hc).1
  lids c hc := hm.lids c ((mem_buttonFree hm hb c).mp hc).1

/-- The timers stay as they are when a button is freed. -/
theorem timersLive_buttonFree (hm : m.Valid) (hlive : m.TimersLive) {b : Ref}
    (hb : b ∈ m.buttons) :
    (m.buttonFree b).TimersLive ↔ ∀ key, m.longPress key ≠ some b := by
  constructor
  · intro h key hkey
    exact ((mem_buttonFree hm hb b).mp (h key b hkey)).2 rfl
  · intro h key c hc
    refine (mem_buttonFree hm hb c).mpr ⟨hlive key c hc, ?_⟩
    rintro rfl
    exact h key hc

/-- A button that was found or allocated. -/
structure Added (m : ButtonManager) (name : Bytes) (m₁ : ButtonManager) (b : Ref) : Prop where
  valid : m₁.Valid
  mem : b ∈ m₁.buttons
  kept : ∀ c ∈ m.buttons, c ∈ m₁.buttons
  longPress : m₁.longPress = m.longPress
  found : m.getButton name = some b ∨ m.getButton name = none ∧ b ∉ m.buttons

theorem added_buttonNew (hm : m.Valid) {name : Bytes} (hget : m.getButton name = none) :
    Added m name (m.buttonNew name).1 m.next := by
  have hfresh : m.next ∉ m.buttons := fun hmem => Nat.lt_irrefl _ (hm.allocated _ hmem)
  have hold : ∀ c ∈ m.buttons, (m.buttonNew name).1.button c = m.button c := by
    intro c hc
    have hne : c ≠ m.next := by
      rintro rfl
      exact hfresh hc
    exact update_of_ne hne _ _
  have hnew : (m.buttonNew name).1.button m.next = { name := name } := update_self ..
  refine ⟨⟨?_, ?_, ?_⟩, mem_cons_self, fun c hc => mem_cons_of_mem _ hc, rfl,
    .inr ⟨hget, hfresh⟩⟩
  · intro c hc d hd hname
    rcases mem_cons.mp hc with rfl | hc
    · rcases mem_cons.mp hd with rfl | hd
      · rfl
      · rw [hnew, hold d hd] at hname
        exact absurd hname.symm (getButton_none hget d hd)
    · rcases mem_cons.mp hd with rfl | hd
      · rw [hnew, hold c hc] at hname
        exact absurd hname (getButton_none hget c hc)
      · rw [hold c hc, hold d hd] at hname
        exact hm.unique c hc d hd hname
  · intro c hc
    show c < m.next + 1
    rcases mem_cons.mp hc with rfl | hc
    · exact Nat.lt_succ_self _
    · exact Nat.lt_succ_of_lt (hm.allocated c hc)
  · intro c hc
    rcases mem_cons.mp hc with rfl | hc
    · rw [hnew]
      exact fun h => nomatch h
    · rw [hold c hc]
      exact hm.lids c hc

theorem added_of_managerAddButton (hm : m.Valid) {name : Bytes} {allocated : Bool}
    {m₁ : ButtonManager} {b : Ref} (h : m.managerAddButton name allocated = some (m₁, b)) :
    Added m name m₁ b := by
  unfold managerAddButton at h
  cases hget : m.getButton name with
  | some c =>
    rw [hget] at h
    cases h
    exact ⟨hm, (getButton_some hget).1, fun _ => id, rfl, .inl hget⟩
  | none =>
    rw [hget] at h
    cases allocated with
    | false => cases h
    | true =>
      cases h
      exact added_buttonNew hm hget

theorem handled_buttonSetSeat (m : ButtonManager) (b : Ref) (seat : Bytes) (allocated : Bool) :
    Handled b m (m.buttonSetSeat b seat allocated) := by
  unfold buttonSetSeat
  split
  · exact .modifyButton rfl id
  · exact .refl m

theorem longPress_buttonSetSeat (m : ButtonManager) (b : Ref) (seat : Bytes) (allocated : Bool) :
    (m.buttonSetSeat b seat allocated).longPress = m.longPress := by
  unfold buttonSetSeat
  split <;> rfl

/-- After a udev event the timers are live exactly if it has not taken away a button
    that has started one. -/
theorem valid_managerProcessButtonDevice (hm : m.Valid) (hlive : m.TimersLive) (d : ButtonDevice) :
    (m.managerProcessButtonDevice d).Valid ∧
      ((m.managerProcessButtonDevice d).TimersLive ↔ m.KeysReleased (.udev d)) := by
  unfold managerProcessButtonDevice
  split
  · next hgone =>
    -- the device is removed or has lost its tag: the button is freed
    have htakes : TakesAway d := by
      rcases Bool.or_eq_true_iff.mp hgone with h | h
      · exact .inl h
      · exact .inr (.inl (by simpa using h))
    cases hget : m.getButton d.sysname with
    | none => exact ⟨hm, fun _ _ b hb => (nomatch hget.symm.trans hb), fun _ => hlive⟩
    | some b =>
      have hb := (getButton_some hget).1
      refine ⟨valid_buttonFree hm hb, (timersLive_buttonFree hm hlive hb).trans ?_⟩
      constructor
      · intro h _ c hc key
        rw [hget] at hc
        cases hc
        exact h key
      · exact fun h => h htakes b hget
  · next hstays =>
    cases hadd : m.managerAddButton d.sysname d.allocated with
    | none =>
      refine ⟨hm, fun _ _ b hb => ?_, fun _ => hlive⟩
      rw [managerAddButton, hb] at hadd
      cases hadd
    | some s =>
      obtain ⟨m₁, b⟩ := s
      obtain ⟨hvalid, hmem, hkept, hpress, hfound⟩ := added_of_managerAddButton hm hadd
      have hlive₁ : m₁.TimersLive := by
        intro key c hc
        rw [hpress] at hc
        -- adding a button starts no timer
        exact hkept c (hlive key c hc)
      dsimp only
      generalize (match d.idSeat with | none | some [] => ascii "seat0" | some s => s) = seat
      have hseat := handled_buttonSetSeat m₁ b seat d.seatAllocated
      have hpress₂ := (longPress_buttonSetSeat m₁ b seat d.seatAllocated).trans hpress
      have hlive₂ := hseat.timersLive hmem hlive₁
      rw [← hseat.buttons] at hmem
      replace hvalid := hseat.valid hvalid
      generalize m₁.buttonSetSeat b seat d.seatAllocated = m₂ at hmem hvalid hpress₂ hlive₂ ⊢
      cases hopened : d.opened with
      | error e =>
        -- the device cannot be opened: the button is freed again, an old one like a new one
        refine ⟨valid_buttonFree hvalid hmem, (timersLive_buttonFree hvalid hlive₂ hmem).trans ?_⟩
        rw [hpress₂]
        constructor
        · intro h _ c hc key
          rcases hfound with hb | ⟨hnone, -⟩
          · rw [hb] at hc
            cases hc
            exact h key
          · rw [hnone] at hc
            cases hc
        · intro h key hkey
          rcases hfound with hb | ⟨-, hnew⟩
          · exact h (.inr (.inr ⟨e, hopened⟩)) b hb key hkey
          · exact hnew (hlive key b hkey)
      | ok mask =>
        have hopen : Handled b m₂ (m₂.modifyButton b fun s =>
            { s with ioEnabled := true, buttonModifierMask := mask }) := .modifyButton rfl id
        refine ⟨hopen.valid hvalid, fun _ htakes => ?_, fun _ => hopen.timersLive hmem hlive₂⟩
        rcases htakes with h | h | ⟨e, h⟩
        · exact absurd (by simp [h]) hstays
        · exact absurd (by simp [h]) hstays
        · rw [hopened] at h
          cases h

/-! ## Runs -/

theorem handled_handlerOf (key : LongPressKey) (m : ButtonManager) (b : Ref) :
    Handled b m (handlerOf key m b).1 := by
  cases key <;> exact .dropTimer m _

/-- After any step the timers are live exactly if no button was taken away that has
    started one. -/
theorem valid_step (hm : m.Valid) (hlive : m.TimersLive) {op : Op} {m' : ButtonManager}
    {actions : List ButtonAction} (h : m.step op = some (m', actions)) :
    m'.Valid ∧ (m'.TimersLive ↔ m.KeysReleased op) := by
  cases op with
  | input b env r =>
    rw [step] at h
    split at h
    · next hb =>
      have hhandled := Handled.buttonDispatch h
      exact ⟨hhandled.valid hm, fun _ => trivial, fun _ => hhandled.timersLive hb.1 hlive⟩
    · cases h
  | timer key =>
    rw [step] at h
    split at h
    · cases h
    · next b _ =>
      split at h
      · next hb =>
        have hm' : (handlerOf key m b).1 = m' := congrArg Prod.fst (Option.some.inj h)
        have hhandled := hm' ▸ handled_handlerOf key m b
        exact ⟨hhandled.valid hm, fun _ => trivial, fun _ => hhandled.timersLive hb hlive⟩
      · cases h
  | recheck b env =>
    rw [step] at h
    split at h
    · obtain ⟨_, -, heq⟩ := Option.map_eq_some_iff.mp h
      cases heq
      exact ⟨hm, fun _ => trivial, fun _ => hlive⟩
    · cases h
  | udev d =>
    cases h
    exact valid_managerProcessButtonDevice hm hlive d
  | reload config =>
    cases h
    exact ⟨⟨hm.unique, hm.allocated, hm.lids⟩, fun _ => trivial, fun _ => hlive⟩

/-! ## Startup -/

/-- No timer is pending and no lid is rechecked. -/
structure Quiet (m : ButtonManager) : Prop where
  longPress : ∀ key, m.longPress key = none
  check : ∀ b ∈ m.buttons, (m.button b).checkEventSource = false

theorem Quiet.modifyButton (h : m.Quiet) {b : Ref} {f : Button → Button}
    (hf : (f (m.button b)).checkEventSource = (m.button b).checkEventSource) :
    (m.modifyButton b f).Quiet where
  longPress := h.longPress
  check c hc := by
    show (update m.button b (f (m.button b)) c).checkEventSource = false
    by_cases hcb : c = b
    · subst hcb
      rw [update_self, hf]
      exact h.check c hc
    · rw [update_of_ne hcb]
      exact h.check c hc

theorem Quiet.buttonFree (h : m.Quiet) (b : Ref) : (m.buttonFree b).Quiet where
  longPress := h.longPress
  check c hc := h.check c (mem_filter.mp hc).1

theorem Quiet.buttonNew (h : m.Quiet) (name : Bytes) : (m.buttonNew name).1.Quiet where
  longPress := h.longPress
  check c hc := by
    show (update m.button m.next { name := name } c).checkEventSource = false
    by_cases hnew : c = m.next
    · rw [hnew, update_self]
    · rw [update_of_ne hnew]
      exact h.check c ((mem_cons.mp hc).resolve_left hnew)

theorem Quiet.managerProcessButtonDevice (h : m.Quiet) (d : ButtonDevice) :
    (m.managerProcessButtonDevice d).Quiet := by
  unfold ButtonManager.managerProcessButtonDevice
  split
  · split
    · exact h
    · exact h.buttonFree _
  · cases hadd : m.managerAddButton d.sysname d.allocated with
    | none => exact h
    | some s =>
      obtain ⟨m₁, b⟩ := s
      have h₁ : m₁.Quiet := by
        unfold managerAddButton at hadd
        split at hadd
        · cases hadd
          exact h
        split at hadd
        · cases hadd
          exact h.buttonNew d.sysname
        · cases hadd
      dsimp only
      generalize (match d.idSeat with | none | some [] => ascii "seat0" | some s => s) = seat
      have h₂ : (m₁.buttonSetSeat b seat d.seatAllocated).Quiet := by
        unfold buttonSetSeat
        split
        · exact h₁.modifyButton rfl
        · exact h₁
      split
      · exact h₂.buttonFree b
      · exact h₂.modifyButton rfl

theorem Quiet.timersLive (h : m.Quiet) : m.TimersLive := by
  intro key b hb
  rw [h.longPress] at hb
  cases hb

/-- Reading the switches of a button for the first time. -/
theorem handled_buttonCheckSwitches {b : Ref} {env : ButtonEnv} {switches : Option (Bool × Bool)}
    (hcheck : (m.button b).checkEventSource = true → ∃ dock, switches = some (true, dock)) :
    Handled b m (m.buttonCheckSwitches env b switches) := by
  unfold buttonCheckSwitches
  split
  · exact .refl m
  · next lid dock =>
    split
    · next hlid => exact .closeLid rfl hlid env
    · next hlid =>
      refine .modifyButton rfl fun _ hon => ?_
      obtain ⟨dock', hsome⟩ := hcheck hon
      cases hsome
      exact absurd rfl hlid

theorem button_modifyButton_of_ne {b c : Ref} {f : Button → Button} (h : c ≠ b) :
    (m.modifyButton b f).button c = m.button c := update_of_ne h _ _

theorem check_modifyButton {b c : Ref} {f : Button → Button}
    (hf : (f (m.button b)).checkEventSource = (m.button b).checkEventSource) :
    ((m.modifyButton b f).button c).checkEventSource = (m.button c).checkEventSource := by
  show (update m.button b (f (m.button b)) c).checkEventSource = _
  by_cases hcb : c = b
  · subst hcb
    rw [update_self, hf]
  · rw [update_of_ne hcb]

/-- The rechecking of a lid only starts if the lid is found closed. -/
theorem check_buttonCheckSwitches {b c : Ref} {env : ButtonEnv} {switches : Option (Bool × Bool)}
    (h : ((m.buttonCheckSwitches env b switches).button c).checkEventSource = true) :
    (m.button c).checkEventSource = true ∨ c = b ∧ ∃ dock, switches = some (true, dock) := by
  unfold buttonCheckSwitches at h
  split at h
  · exact .inl h
  · next lid dock =>
    dsimp only at h
    split at h
    · next hlid =>
      by_cases hcb : c = b
      · exact .inr ⟨hcb, dock, by rw [hlid]⟩
      · unfold buttonInstallCheckEventSource at h
        split at h
        · rw [check_modifyButton rfl] at h
          exact .inl h
        · rw [button_modifyButton_of_ne hcb, check_modifyButton rfl] at h
          exact .inl h
    · rw [check_modifyButton rfl] at h
      exact .inl h

/-- The switches of all buttons are read. -/
theorem valid_checkSwitches {env : Ref → ButtonEnv} {switches : Ref → Option (Bool × Bool)}
    (l : List Ref) (hl : ∀ b ∈ l, b ∈ m.buttons) (hm : m.Valid) (hlive : m.TimersLive)
    (hcheck : ∀ c ∈ m.buttons, (m.button c).checkEventSource = true →
      ∃ dock, switches c = some (true, dock)) :
    (l.foldl (fun m b => m.buttonCheckSwitches (env b) b (switches b)) m).Valid ∧
      (l.foldl (fun m b => m.buttonCheckSwitches (env b) b (switches b)) m).TimersLive := by
  induction l generalizing m with
  | nil => exact ⟨hm, hlive⟩
  | cons b l ih =>
    have hb := hl b mem_cons_self
    have hhandled : Handled b m (m.buttonCheckSwitches (env b) b (switches b)) :=
      handled_buttonCheckSwitches (hcheck b hb)
    refine ih ?_ (hhandled.valid hm) (hhandled.timersLive hb hlive) ?_
    · intro c hc
      rw [hhandled.buttons]
      exact hl c (mem_cons_of_mem b hc)
    · intro c hc hon
      rw [hhandled.buttons] at hc
      rcases check_buttonCheckSwitches hon with hon | ⟨rfl, hsome⟩
      · exact hcheck c hc hon
      · exact hsome

/-- The event loop starts with no timer pending. -/
theorem valid_startup (config : ButtonConfig) (content : Ref → Button) (devices : List ButtonDevice)
    (env : Ref → ButtonEnv) (switches : Ref → Option (Bool × Bool)) :
    (startup config content devices env switches).Valid ∧
      (startup config content devices env switches).TimersLive := by
  have hempty : ({ config := config, button := content } : ButtonManager).Valid ∧
      ({ config := config, button := content } : ButtonManager).Quiet :=
    ⟨⟨fun _ hb => (nomatch hb), fun _ hb => (nomatch hb), fun _ hb => (nomatch hb)⟩,
      ⟨fun _ => rfl, fun _ hb => (nomatch hb)⟩⟩
  have henum : ∀ {m : ButtonManager}, m.Valid ∧ m.Quiet →
      (devices.foldl managerProcessButtonDevice m).Valid ∧
        (devices.foldl managerProcessButtonDevice m).Quiet := by
    induction devices with
    | nil => exact id
    | cons d devices ih =>
      intro m hm
      exact ih ⟨(valid_managerProcessButtonDevice hm.1 hm.2.timersLive d).1,
        hm.2.managerProcessButtonDevice d⟩
  obtain ⟨hvalid, hquiet⟩ := henum hempty
  unfold startup
  generalize devices.foldl managerProcessButtonDevice _ = m at hvalid hquiet ⊢
  have hcheck : ∀ c ∈ m.buttons, (m.button c).checkEventSource = true →
      ∃ dock, switches c = some (true, dock) := by
    intro c hc h
    rw [hquiet.check c hc] at h
    cases h
  exact valid_checkSwitches m.buttons (fun _ => id) hvalid hquiet.timersLive hcheck

/-- The timers of long presses point to buttons of the manager, and only closed lids are
    rechecked, in every state that a run gets to. -/
def AlwaysLive (m : ButtonManager) (ops : List Op) : Prop :=
  ∀ before after m', ops = before ++ after → m.run before = some m' → m'.TimersLive ∧ m'.LidsClosed

/-- No step of a run takes away a button while a timer that it has started is pending. -/
def AlwaysReleased (m : ButtonManager) (ops : List Op) : Prop :=
  ∀ before op after m', ops = before ++ op :: after → m.run before = some m' → m'.KeysReleased op

theorem alwaysLive_iff (hm : m.Valid) (hlive : m.TimersLive) (ops : List Op) :
    m.AlwaysLive ops ↔ m.AlwaysReleased ops := by
  induction ops generalizing m with
  | nil =>
    constructor
    · intro _ before op after _ h
      simp at h
    · intro _ before after m' h hrun
      obtain ⟨rfl, rfl⟩ := append_eq_nil_iff.mp h.symm
      cases hrun
      exact ⟨hlive, hm.lids⟩
  | cons op ops ih =>
    constructor
    · intro hall before o after m' heq hrun
      cases before with
      | nil =>
        cases heq
        cases hrun
        cases hstep : m.step op with
        | none =>
          -- only udev events are restricted, and they can always come
          cases op with
          | udev d => cases hstep
          | _ => trivial
        | some s =>
          have hrun' : m.run [op] = some s.1 := by
            rw [run, hstep]
            rfl
          exact (valid_step hm hlive hstep).2.mp (hall [op] ops s.1 rfl hrun').1
      | cons o' before =>
        cases heq
        obtain ⟨s, hs, hrun⟩ := Option.bind_eq_some_iff.mp hrun
        have hlive' : s.1.TimersLive := by
          refine (hall [op] _ s.1 rfl ?_).1
          rw [run, hs]
          rfl
        refine (ih (valid_step hm hlive hs).1 hlive').mp ?_ before o after m' rfl hrun
        intro b a m'' hab hr
        refine hall (op :: b) a m'' (by rw [hab]; rfl) ?_
        rw [run, hs]
        exact hr
    · intro hall before after m' heq hrun
      cases before with
      | nil =>
        cases hrun
        exact ⟨hlive, hm.lids⟩
      | cons o before =>
        cases heq
        obtain ⟨s, hs, hrun⟩ := Option.bind_eq_some_iff.mp hrun
        obtain ⟨hvalid, hiff⟩ := valid_step hm hlive hs
        have hlive' := hiff.mpr (hall [] op _ m rfl rfl)
        refine (ih hvalid hlive').mpr ?_ before after m' rfl hrun
        intro b o a m'' hab hr
        refine hall (op :: b) o a m'' (by rw [hab]; rfl) ?_
        rw [run, hs]
        exact hr

/-- Whatever happens after startup, the timers of long presses always point to buttons
    of the manager if and only if no button is ever taken away while a timer that it has
    started is pending. -/
theorem timersLive_iff (config : ButtonConfig) (content : Ref → Button)
    (devices : List ButtonDevice) (env : Ref → ButtonEnv)
    (switches : Ref → Option (Bool × Bool)) (ops : List Op) :
    (startup config content devices env switches).AlwaysLive ops ↔
      (startup config content devices env switches).AlwaysReleased ops := by
  obtain ⟨hvalid, hlive⟩ := valid_startup config content devices env switches
  exact alwaysLive_iff hvalid hlive ops

/-- The reboot key of a keyboard is held while the keyboard is unplugged. -/
theorem timer_dangling :
    ∃ m, (startup .reset (fun _ => { name := [] })
        [{ sysname := ascii "event3", opened := .ok 0 }] (fun _ => {}) (fun _ => some (false, false))).run
          [.input 0 {} (.event { type := evKey, code := 0x198, value := 1 }),
            .udev { sysname := ascii "event3", removing := true, opened := .ok 0 }] = some m ∧
      m.longPress .reboot = some 0 ∧ m.buttons = [] :=
  ⟨_, rfl, rfl, rfl⟩

end ButtonManager

end Elogind
