/-
  Elogind.Login.Action

  The actions the daemon can carry out on the machine, and the table of what
  it has to know about each of them (logind-action.h, logind-action.c).
-/

import Elogind.Login.Inhibit

namespace Elogind

inductive HandleAction where
  | ignore
  | poweroff
  | reboot
  | halt
  | kexec
  | suspend
  | hibernate
  | hybridSleep
  | suspendThenHibernate
  /-- Chooses one of the sleep actions above. -/
  | sleep
  | secureAttentionKey
  | lock
  | factoryReset
  deriving DecidableEq, Repr

inductive SleepOperation where
  | suspend
  | hibernate
  | hybridSleep
  | suspendThenHibernate
  deriving DecidableEq, Repr

namespace HandleAction

/-- `HANDLE_ACTION_IS_SHUTDOWN` -/
def isShutdown : HandleAction → Bool
  | poweroff | reboot | halt | kexec => true
  | _ => false

/-- `HANDLE_ACTION_IS_SLEEP` -/
def isSleep : HandleAction → Bool
  | suspend | hibernate | hybridSleep | suspendThenHibernate | sleep => true
  | _ => false

/-- `handle_action_to_string` -/
def toString : HandleAction → String
  | ignore => "ignore"
  | poweroff => "poweroff"
  | reboot => "reboot"
  | halt => "halt"
  | kexec => "kexec"
  | suspend => "suspend"
  | hibernate => "hibernate"
  | hybridSleep => "hybrid-sleep"
  | suspendThenHibernate => "suspend-then-hibernate"
  | sleep => "sleep"
  | factoryReset => "factory-reset"
  | lock => "lock"
  | secureAttentionKey => "secure-attention-key"

end HandleAction

/-- A row of `handle_action_data_table`.  `none` stands for
    `_INHIBIT_WHAT_INVALID`, for `_SLEEP_OPERATION_INVALID` and for a missing
    string.  The texts that only go to the log are left out. -/
structure HandleActionData where
  handle : HandleAction
  inhibitWhat : Option InhibitWhat
  polkitAction : Option String
  polkitActionMultipleSessions : Option String
  polkitActionIgnoreInhibit : Option String
  sleepOperation : Option SleepOperation
  deriving DecidableEq, Repr

namespace HandleActionData

/-- A row for a shutdown action, with the common stem of its polkit actions. -/
def ofShutdown (handle : HandleAction) (stem : String) : HandleActionData where
  handle := handle
  inhibitWhat := some .shutdown
  polkitAction := some stem
  polkitActionMultipleSessions := some (stem ++ "-multiple-sessions")
  polkitActionIgnoreInhibit := some (stem ++ "-ignore-inhibit")
  sleepOperation := none

/-- A row for a sleep action, with the common stem of its polkit actions. -/
def ofSleep (handle : HandleAction) (stem : String) (op : SleepOperation) :
    HandleActionData where
  handle := handle
  inhibitWhat := some .sleep
  polkitAction := some stem
  polkitActionMultipleSessions := some (stem ++ "-multiple-sessions")
  polkitActionIgnoreInhibit := some (stem ++ "-ignore-inhibit")
  sleepOperation := some op

/-- A row the table does not mention: the compiler fills it with zeros, so its
    handle is `HANDLE_IGNORE` and its sleep operation `SLEEP_SUSPEND`. -/
def zero : HandleActionData where
  handle := .ignore
  inhibitWhat := some 0
  polkitAction := none
  polkitActionMultipleSessions := none
  polkitActionIgnoreInhibit := none
  sleepOperation := some .suspend

/-- The mask of the action.  The daemon reads it only where it has asserted
    that it is valid. -/
def what (a : HandleActionData) : InhibitWhat := a.inhibitWhat.getD 0

end HandleActionData

/-- `handle_action_lookup`, on valid actions. -/
def handleActionLookup : HandleAction → HandleActionData
  | .poweroff => .ofShutdown .poweroff "org.freedesktop.login1.power-off"
  | .reboot => .ofShutdown .reboot "org.freedesktop.login1.reboot"
  | .halt => .ofShutdown .halt "org.freedesktop.login1.halt"
  | .kexec => .ofShutdown .kexec "org.freedesktop.login1.reboot"
  | .suspend => .ofSleep .suspend "org.freedesktop.login1.suspend" .suspend
  | .hibernate => .ofSleep .hibernate "org.freedesktop.login1.hibernate" .hibernate
  | .hybridSleep => .ofSleep .hybridSleep "org.freedesktop.login1.hibernate" .hybridSleep
  | .suspendThenHibernate =>
      .ofSleep .suspendThenHibernate "org.freedesktop.login1.hibernate" .suspendThenHibernate
  | .factoryReset =>
      { HandleActionData.zero with
        handle := .factoryReset, inhibitWhat := none, sleepOperation := none }
  | .ignore | .sleep | .secureAttentionKey | .lock => .zero

/-- A row that can be carried out: a shutdown without a sleep operation, or a
    sleep with one. -/
def HandleActionData.Executable (a : HandleActionData) : Prop :=
  (a.inhibitWhat = some .shutdown ∧ a.sleepOperation = none) ∨
    (a.inhibitWhat = some .sleep ∧ a.sleepOperation.isSome)

instance (a : HandleActionData) : Decidable a.Executable :=
  inferInstanceAs (Decidable (_ ∨ _))

end Elogind
