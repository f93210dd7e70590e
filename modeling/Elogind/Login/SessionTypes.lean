/-
  Elogind.Login.SessionTypes

  The enumerations of a session (logind-session.h) and the names under which
  they stand in its state file (string-table.c).
-/

import Elogind.Basic.Bytes

namespace Elogind

/-- `SessionType` -/
inductive SessionType where
  | unspecified
  | tty
  | x11
  | wayland
  | mir
  | web
  deriving DecidableEq, Repr

/-- `SessionClass` -/
inductive SessionClass where
  | user
  | userEarly
  | userIncomplete
  | greeter
  | lockScreen
  | background
  | backgroundLight
  | manager
  | managerEarly
  deriving DecidableEq, Repr

/-- `SessionState` -/
inductive SessionState where
  | opening
  | online
  | active
  | closing
  deriving DecidableEq, Repr

/-- `TTYValidity`, without its invalid value. -/
inductive TTYValidity where
  | fromPam
  | fromUtmp
  | utmpInconsistent
  deriving DecidableEq, Repr

/-- A table of names, in the order of the enumeration. -/
abbrev StringTable (α : Type) := List (α × Bytes)

/-- `string_table_lookup`, behind the `…_from_string` functions. -/
def StringTable.fromString {α : Type} (table : StringTable α) (s : Bytes) : Option α :=
  (table.find? fun e => e.2 = s).map Prod.fst

/-- The `…_to_string` functions; every value has a name. -/
def StringTable.toText {α : Type} [DecidableEq α] (table : StringTable α) (a : α) : Bytes :=
  ((table.find? fun e => e.1 = a).map Prod.snd).getD []

def sessionTypeTable : StringTable SessionType :=
  [(.unspecified, ascii "unspecified"), (.tty, ascii "tty"), (.x11, ascii "x11"),
    (.wayland, ascii "wayland"), (.mir, ascii "mir"), (.web, ascii "web")]

def sessionClassTable : StringTable SessionClass :=
  [(.user, ascii "user"), (.userEarly, ascii "user-early"),
    (.userIncomplete, ascii "user-incomplete"), (.greeter, ascii "greeter"),
    (.lockScreen, ascii "lock-screen"), (.background, ascii "background"),
    (.backgroundLight, ascii "background-light"), (.manager, ascii "manager"),
    (.managerEarly, ascii "manager-early")]

def sessionStateTable : StringTable SessionState :=
  [(.opening, ascii "opening"), (.online, ascii "online"), (.active, ascii "active"),
    (.closing, ascii "closing")]

def ttyValidityTable : StringTable TTYValidity :=
  [(.fromPam, ascii "from-pam"), (.fromUtmp, ascii "from-utmp"),
    (.utmpInconsistent, ascii "utmp-inconsistent")]

namespace SessionType

/-- `SESSION_TYPE_IS_GRAPHICAL` -/
def isGraphical (t : SessionType) : Bool := t = .x11 || t = .wayland || t = .mir

theorem fromString_toText (t : SessionType) :
    sessionTypeTable.fromString (sessionTypeTable.toText t) = some t := by
  cases t <;> decide

end SessionType

namespace SessionClass

/-- `SESSION_CLASS_PIN_USER` -/
def pinsUser (c : SessionClass) : Bool := !(c = .manager || c = .managerEarly)

/-- `SESSION_CLASS_CAN_IDLE` -/
def canIdle (c : SessionClass) : Bool := c = .user || c = .userEarly || c = .greeter

/-- `SESSION_CLASS_CAN_DISPLAY` -/
def canDisplay (c : SessionClass) : Bool := c = .user || c = .userEarly || c = .greeter

theorem fromString_toText (c : SessionClass) :
    sessionClassTable.fromString (sessionClassTable.toText c) = some c := by
  cases c <;> decide

end SessionClass

end Elogind
