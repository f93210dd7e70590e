/-
  Elogind.Login.SessionRoundTrip

  A session that is saved and loaded again.  `sessionLoad_sessionSave` computes
  what comes back of every persisted field when the texts that are written
  without escaping stay on their lines; from it follows when the fields come
  back as they were.
-/

import Elogind.Login.SessionText

namespace Elogind

open Byte LoadedSession

/-- What the daemon makes sure of for a session whose file it writes. -/
structure SessionRecord.Saved (s : SessionRecord) : Prop where
  user : ∃ uid name, s.user = some (uid, name) ∧ uidIsValid uid = true
  started : s.started = true
  timestamp : s.timestampIsSet = true
  realtime_lt : s.realtime < 2 ^ 64
  monotonic_lt : s.monotonic < 2 ^ 64
  vtnr_lt : s.vtnr < 2 ^ 32
  position_lt : s.position < 2 ^ 32
  leader : ∀ pid, s.leader = some pid → 0 < pid ∧ pid < 2 ^ 31
  /-- `seat_attach_session` -/
  seat : ∀ seat, s.seat = some seat → (seat.hasVts = true ↔ s.vtnr ≠ 0)
  position : s.seat = none → s.position = 0
  /-- Names the daemon and the bus make up. -/
  seatId : ∀ seat, s.seat = some seat → PlainText seat.id
  fifoPath : ∀ path, s.fifoPath = some path → PlainText path
  controller : ∀ c, s.controller = some c → PlainText c

/-- Nothing the session depends on has changed since it was saved. -/
structure LoadEnv.Answers (env : LoadEnv) (s : SessionRecord) : Prop where
  user : ∀ uid name, s.user = some (uid, name) → env.userKnown uid = true
  seat : ∀ seat, s.seat = some seat → env.seatHasVts seat.id = some seat.hasVts
  grow : env.growAttach = true ∧ env.growClaim = true
  fifo : ∀ path, s.fifoPath = some path → env.mkfifo path = true
  controller : ∀ c, s.controller = some c → env.nameHasOwner c = true ∧ env.setController c = true
  leader : ∀ pid, s.leader = some pid → env.pidrefSetPid pid = .ok () ∧
    env.watchPidfd = .ok () ∧ env.putLeader = .ok ()
  audit : s.auditId = (s.leader.bind env.auditSessionFromPid).getD auditSessionInvalid

/-- Loading the file that is written for the session gives its persisted fields
    back. -/
def RoundTrips (env : LoadEnv) (s : SessionRecord) : Prop :=
  ∃ text, sessionSave s = .ok (some text) ∧ (sessionLoad env text).1.toPersisted = s.toPersisted

/-- The texts that are written without escaping stay on their lines. -/
def SessionRecord.RawStays (s : SessionRecord) : Prop := ∀ w ∈ s.rawTexts, LineText w

/-- What is read back of an escaped field. -/
def readBackEscaped (v : Option Bytes) : Option Bytes := v.bind fun v => readBack (cescape v)

/-- What comes back of the persisted fields. -/
def SessionRecord.restored (s : SessionRecord) : Persisted :=
  { s.toPersisted with
    scope := s.scope.bind readBack
    tty := s.tty.bind readBack
    display := s.display.bind readBack
    remoteHost := readBackEscaped s.remoteHost
    remoteUser := readBackEscaped s.remoteUser
    service := readBackEscaped s.service
    desktop := readBackEscaped s.desktop
    vtnr := if s.seat.isSome then s.vtnr else 0
    position := if s.seat.any SeatRef.hasVts then s.vtnr else s.position
    leader := if s.leaderFdSaved then none else s.leader
    auditId := if s.leaderFdSaved then auditSessionInvalid else s.auditId }

namespace Persisted

/-- The fields each part of the load takes over from the saved session. -/
def withStrings (p : Persisted) (s : SessionRecord) : Persisted :=
  { p with
    scope := s.scope.bind readBack
    fifoPath := s.fifoPath
    tty := s.tty.bind readBack
    display := s.display.bind readBack
    remoteHost := readBackEscaped s.remoteHost
    remoteUser := readBackEscaped s.remoteUser
    service := readBackEscaped s.service
    desktop := readBackEscaped s.desktop }

def withSeat (p : Persisted) (s : SessionRecord) : Persisted :=
  { p with
    vtnr := if s.seat.isSome then s.vtnr else 0
    position := if s.seat.any SeatRef.hasVts then s.vtnr else s.position }

def withTypes (p : Persisted) (s : SessionRecord) : Persisted :=
  { p with type := s.type, originalType := s.originalType, sessionClass := s.sessionClass }

def withTimes (p : Persisted) (s : SessionRecord) : Persisted :=
  { p with realtime := s.realtime, monotonic := s.monotonic }

def withController (p : Persisted) (s : SessionRecord) : Persisted :=
  { p with controller := s.controller }

def withLeader (p : Persisted) (s : SessionRecord) : Persisted :=
  { p with
    leader := if s.leaderFdSaved then none else s.leader
    auditId := if s.leaderFdSaved then auditSessionInvalid else s.auditId }

end Persisted

/-! ## The values of the lines -/

section Values

variable {s : SessionRecord}

theorem value_decimal (k : Bytes) (n : Nat) :
    (⟨k, some (decimal n)⟩ : FileEntry).value = some (decimal n) :=
  (plainText_decimal n).readBack_eq

theorem readBack_oneZero (b : Bool) : readBack (oneZero b) = some (oneZero b) := by
  cases b <;> decide

theorem readBack_sessionType (t : SessionType) :
    readBack (sessionTypeTable.toText t) = some (sessionTypeTable.toText t) := by
  cases t <;> decide

theorem readBack_sessionClass (c : SessionClass) :
    readBack (sessionClassTable.toText c) = some (sessionClassTable.toText c) := by
  cases c <;> decide

/-- A plain text comes back. -/
theorem lookup_plain {i : Nat} {k : Bytes} {v : Option Bytes} (h : s.entries[i]? = some ⟨k, v⟩)
    (hplain : ∀ w, v = some w → PlainText w) : lookup k s.assignments = v := by
  have hlookup := lookup_entry s h
  rw [hlookup]
  cases hv : v with
  | none => rfl
  | some w => exact (hplain w hv).readBack_eq

theorem lookup_escaped {i : Nat} {k : Bytes} {v : Option Bytes}
    (h : s.entries[i]? = some ⟨k, v.map cescape⟩) :
    lookup k s.assignments = readBackEscaped v := by
  have hlookup := lookup_entry s h
  rw [hlookup]
  cases v <;> rfl

theorem lookup_decimal {i : Nat} {k : Bytes} {v : Option Nat}
    (h : s.entries[i]? = some ⟨k, v.map decimal⟩) :
    lookup k s.assignments = v.map decimal := by
  have hlookup := lookup_entry s h
  rw [hlookup]
  cases v with
  | none => rfl
  | some n => exact value_decimal k n

end Values

/-! ## The parts of the load -/

section Load

variable {s : SessionRecord} {env : LoadEnv}

theorem loadUser_assignments {uid : Nat} {name : Bytes} (huser : s.user = some (uid, name))
    (hvalid : uidIsValid uid = true) (henv : env.Answers s) :
    LoadedSession.loadUser env s.assignments = .ok uid := by
  have hline : s.entries[0]? = some ⟨ascii "UID", (s.user.map Prod.fst).map decimal⟩ := by
    rw [Option.map_map]
    rfl
  have hlookup := lookup_decimal hline
  rw [huser] at hlookup
  simp [loadUser, hlookup, parseUid_decimal hvalid, henv.user uid name huser]

/-- The VT, the seat and the position of a new session. -/
theorem loadSeat_assignments (hs : s.Saved) (henv : env.Answers s) (t : LoadedSession)
    (htv : t.vtnr = 0) (htp : t.position = 0) (hts : t.seat = none) :
    (t.loadSeat env s.assignments).1.toPersisted = t.toPersisted.withSeat s := by
  obtain ⟨hgrow, hgrow'⟩ := henv.grow
  have hseat : lookup (ascii "SEAT") s.assignments = s.seat.map SeatRef.id := by
    refine lookup_plain (i := 12) rfl fun w hw => ?_
    obtain ⟨seat, hseat, rfl⟩ := Option.map_eq_some_iff.mp hw
    exact hs.seatId seat hseat
  have hvtnr : lookup (ascii "VTNR") s.assignments =
      (if s.seat.any SeatRef.hasVts then some s.vtnr else none).map decimal := by
    refine lookup_decimal (i := 20) ?_
    simp only [apply_ite (Option.map decimal), Option.map_some, Option.map_none]
    rfl
  have hposition : lookup (ascii "POSITION") s.assignments =
      (if s.vtnr = 0 then some s.position else none).map decimal := by
    refine lookup_decimal (i := 21) ?_
    simp only [apply_ite (Option.map decimal), Option.map_some, Option.map_none]
    rfl
  cases hcase : s.seat with
  | none =>
      simp [loadSeat, Persisted.withSeat, hseat, hvtnr, hts, htp, hcase,
        hs.position hcase]
  | some seat =>
      have hvts := hs.seat seat hcase
      have hknown := henv.seat seat hcase
      cases hv : seat.hasVts with
      | true =>
          -- with VTs the position is the number of the VT
          have hne : s.vtnr ≠ 0 := hvts.mp hv
          simp [loadSeat, attachSeat, claimPosition,
            Persisted.withSeat, hvtnr, hseat, hposition, hknown, safeAtou_decimal hs.vtnr_lt, hcase,
            hv, hne, htp, hgrow]
      | false =>
          have hzero : s.vtnr = 0 := by
            refine Decidable.byContradiction fun hne => ?_
            simp [hv] at hvts
            exact hne hvts
          simp [loadSeat, attachSeat, claimPosition,
            Persisted.withSeat, hvtnr, hseat, hposition, hknown, safeAtou_decimal hs.position_lt,
            hcase, hv, htv, htp, hgrow, hgrow', hzero]

/-- The type, the original type and the class. -/
theorem loadTypes_assignments (t : LoadedSession) :
    (t.loadTypes s.assignments).toPersisted = t.toPersisted.withTypes s := by
  have htype : lookup (ascii "TYPE") s.assignments = some (sessionTypeTable.toText s.type) :=
    (lookup_entry s (i := 7) rfl).trans (readBack_sessionType s.type)
  have horig : lookup (ascii "ORIGINAL_TYPE") s.assignments =
      some (sessionTypeTable.toText s.originalType) :=
    (lookup_entry s (i := 8) rfl).trans (readBack_sessionType s.originalType)
  have hclass : lookup (ascii "CLASS") s.assignments =
      some (sessionClassTable.toText s.sessionClass) :=
    (lookup_entry s (i := 9) rfl).trans (readBack_sessionClass s.sessionClass)
  simp only [loadTypes, htype, horig, hclass, Option.bind_some,
    SessionType.fromString_toText, SessionClass.fromString_toText, Option.getD_some]
  rfl

theorem loadFifo_kept (henv : env.Answers s) (t : LoadedSession) (ht : t.fifoPath = s.fifoPath) :
    t.loadFifo env = t := by
  unfold loadFifo
  cases hp : t.fifoPath with
  | none => rfl
  | some path => simp only [henv.fifo path (ht ▸ hp), if_true]

theorem loadUsec_assignments {i : Nat} {k : Bytes} {n : Nat}
    (h : s.entries[i]? = some ⟨k, if s.timestampIsSet then some (decimal n) else none⟩)
    (hset : s.timestampIsSet = true) (hn : n < 2 ^ 64) (old : Nat) :
    LoadedSession.loadUsec s.assignments k old = n := by
  rw [hset] at h
  have hlookup := (lookup_entry s h).trans (value_decimal k n)
  simp [loadUsec, hlookup, safeAtou64_decimal hn]

theorem loadTimes_assignments (hs : s.Saved) (t : LoadedSession) :
    (t.loadTimes s.assignments).toPersisted = t.toPersisted.withTimes s := by
  rw [loadTimes, loadUsec_assignments (i := 24) rfl hs.timestamp hs.realtime_lt,
    loadUsec_assignments (i := 25) rfl hs.timestamp hs.monotonic_lt]
  rfl

theorem loadController_assignments (hs : s.Saved) (henv : env.Answers s) (t : LoadedSession)
    (ht : t.controller = none) :
    (t.loadController env s.assignments).toPersisted = t.toPersisted.withController s := by
  have hlookup : lookup (ascii "CONTROLLER") s.assignments = s.controller :=
    lookup_plain (i := 26) rfl hs.controller
  rw [loadController, hlookup]
  cases hc : s.controller with
  | none =>
      rw [Persisted.withController, hc]
      simp only [← ht]
  | some c => simp [Persisted.withController, henv.controller c hc, hc]

/-- The leader of a new session, and the audit session that goes with it. -/
theorem loadLeader_assignments (hs : s.Saved) (henv : env.Answers s) (r : Result Unit)
    (t : LoadedSession) (htl : t.leader = none) (hta : t.auditId = auditSessionInvalid) :
    (t.loadLeader env s.assignments r).1.toPersisted = t.toPersisted.withLeader s := by
  have hleader : lookup (ascii "LEADER") s.assignments = s.leader.map decimal :=
    lookup_decimal (i := 22) rfl
  have hsaved : lookup (ascii "LEADER_FD_SAVED") s.assignments = some (oneZero s.leaderFdSaved) :=
    (lookup_entry s (i := 6) rfl).trans (readBack_oneZero s.leaderFdSaved)
  have haudit := henv.audit
  cases hl : s.leader with
  | none =>
      rw [hl, Option.map_none] at hleader
      rw [hl] at haudit
      have hinvalid : s.auditId = auditSessionInvalid := haudit
      rw [loadLeader, hleader, Persisted.withLeader, hl, hinvalid]
      simp only [ite_self, ← htl, ← hta]
  | some pid =>
      obtain ⟨hpos, hlt⟩ := hs.leader pid hl
      obtain ⟨hset, hwatch, hput⟩ := henv.leader pid hl
      rw [hl] at hleader haudit
      cases hfd : s.leaderFdSaved with
      | true =>
          -- the leader is left to the service manager
          simp [loadLeader, Persisted.withLeader, hleader, hsaved, hfd,
            parsePid_decimal hpos hlt, parseBoolean_oneZero, ← htl, ← hta]
      | false =>
          simp [loadLeader, setLeader, Persisted.withLeader, hleader,
            hsaved, hfd, hl, parsePid_decimal hpos hlt, parseBoolean_oneZero, hset, hwatch, hput,
            hta, haudit]

/-- The strings, in a new session. -/
theorem loadStrings_assignments (hs : s.Saved) :
    (LoadedSession.loadStrings s.assignments).toPersisted =
      LoadedSession.fresh.toPersisted.withStrings s := by
  have hscope : lookup (ascii "SCOPE") s.assignments = s.scope.bind readBack :=
    lookup_entry s (i := 10) rfl
  have hfifo : lookup (ascii "FIFO") s.assignments = s.fifoPath :=
    lookup_plain (i := 11) rfl hs.fifoPath
  have htty : lookup (ascii "TTY") s.assignments = s.tty.bind readBack :=
    lookup_entry s (i := 13) rfl
  have hdisplay : lookup (ascii "DISPLAY") s.assignments = s.display.bind readBack :=
    lookup_entry s (i := 15) rfl
  have hhost : lookup (ascii "REMOTE_HOST") s.assignments = readBackEscaped s.remoteHost :=
    lookup_escaped (i := 16) rfl
  have huser : lookup (ascii "REMOTE_USER") s.assignments = readBackEscaped s.remoteUser :=
    lookup_escaped (i := 17) rfl
  have hservice : lookup (ascii "SERVICE") s.assignments = readBackEscaped s.service :=
    lookup_escaped (i := 18) rfl
  have hdesktop : lookup (ascii "DESKTOP") s.assignments = readBackEscaped s.desktop :=
    lookup_escaped (i := 19) rfl
  simp only [loadStrings, hscope, hfifo, htty, hdisplay, hhost, huser, hservice,
    hdesktop]
  rfl

end Load

/-! ## The round trip -/

/-- What comes back of a session whose unescaped texts stay on their lines. -/
theorem sessionLoad_sessionSave {s : SessionRecord} {env : LoadEnv} (hs : s.Saved)
    (henv : env.Answers s) (hraw : s.RawStays) :
    ∃ text, sessionSave s = .ok (some text) ∧
      (sessionLoad env text).1.toPersisted = s.restored := by
  obtain ⟨uid, name, huser, hvalid⟩ := hs.user
  have hparse := parseEnvFile_sessionSave hraw
  refine ⟨comment ++ s.entries.flatMap FileEntry.line,
    by simp [sessionSave, huser, hs.started], ?_⟩
  have h₁ := loadStrings_assignments hs
  simp only [sessionLoad, hparse, loadUser_assignments huser hvalid henv]
  -- the session after each part of the load
  generalize ht₁ : ({ loadStrings s.assignments with
    uid := _, remote := _ } : LoadedSession) = t₁
  have h₂ := loadSeat_assignments hs henv t₁ (by rw [← ht₁]; rfl) (by rw [← ht₁]; rfl)
    (by rw [← ht₁]; rfl)
  have h₁' : t₁.toPersisted = _ := (by rw [← ht₁] : t₁.toPersisted = _).trans h₁
  generalize loadSeat env s.assignments t₁ = p₂ at h₂ ⊢
  obtain ⟨t₂, r⟩ := p₂
  have h₂' : t₂.toPersisted = _ := h₂
  have h₃ := loadTypes_assignments (s := s) t₂
  rw [h₂', h₁'] at h₃
  generalize loadTypes s.assignments t₂ = t₃ at h₃ ⊢
  rw [loadFifo_kept henv t₃ (by rw [h₃]; rfl)]
  have h₄ := loadTimes_assignments hs t₃
  generalize loadTimes s.assignments t₃ = t₄ at h₄ ⊢
  rw [h₃] at h₄
  have h₅ := loadController_assignments hs henv t₄ (by rw [h₄]; rfl)
  generalize loadController env s.assignments t₄ = t₅ at h₅ ⊢
  rw [h₄] at h₅
  rw [loadLeader_assignments hs henv r t₅ (by rw [h₅]; rfl) (by rw [h₅]; rfl), h₅]
  rfl

/-- The fields of the session survive: what is not escaped is plain and what is
    escaped is printable, a session without a seat has no VT, on a seat with VTs
    the position is the VT, and the leader was not handed to the service
    manager. -/
structure SessionRecord.Survives (s : SessionRecord) : Prop where
  scope : ∀ v, s.scope = some v → PlainText v
  tty : ∀ v, s.tty = some v → PlainText v
  display : ∀ v, s.display = some v → PlainText v
  remoteHost : ∀ v, s.remoteHost = some v → PrintableText v
  remoteUser : ∀ v, s.remoteUser = some v → PrintableText v
  service : ∀ v, s.service = some v → PrintableText v
  desktop : ∀ v, s.desktop = some v → PrintableText v
  vtnr : s.seat = none → s.vtnr = 0
  position : ∀ seat, s.seat = some seat → seat.hasVts = true → s.position = s.vtnr
  leader : s.leader ≠ none → s.leaderFdSaved = false

theorem readBackEscaped_eq_iff (v : Option Bytes) :
    readBackEscaped v = v ↔ ∀ w, v = some w → PrintableText w := by
  cases v with
  | none => simp [readBackEscaped]
  | some w =>
      have hiff := readBack_cescape_iff w
      simp only [readBackEscaped, Option.bind_some, Option.some.injEq, forall_eq']
      exact hiff

theorem bind_readBack_eq_iff {v : Option Bytes} (h : ∀ w, v = some w → LineText w) :
    v.bind readBack = v ↔ ∀ w, v = some w → PlainText w := by
  cases v with
  | none => simp
  | some w =>
      simp only [Option.bind_some, Option.some.injEq, forall_eq']
      exact readBack_eq_self_iff (h w rfl).stays

/-- The restored fields are the saved ones exactly in these cases. -/
theorem restored_eq_iff {s : SessionRecord} {env : LoadEnv} (henv : env.Answers s)
    (hraw : s.RawStays) : s.restored = s.toPersisted ↔ s.Survives := by
  have hscope := bind_readBack_eq_iff (v := s.scope) fun w hw =>
    hraw w (by simp [SessionRecord.rawTexts, hw])
  have htty := bind_readBack_eq_iff (v := s.tty) fun w hw =>
    hraw w (by simp [SessionRecord.rawTexts, hw])
  have hdisplay := bind_readBack_eq_iff (v := s.display) fun w hw =>
    hraw w (by simp [SessionRecord.rawTexts, hw])
  have hvtnr : (if s.seat.isSome then s.vtnr else 0) = s.vtnr ↔ (s.seat = none → s.vtnr = 0) := by
    cases s.seat <;> simp [eq_comm]
  have hposition : (if s.seat.any SeatRef.hasVts then s.vtnr else s.position) = s.position ↔
      ∀ seat, s.seat = some seat → seat.hasVts = true → s.position = s.vtnr := by
    cases s.seat with
    | none => simp
    | some seat =>
        rw [@eq_comm _ s.position]
        cases h : seat.hasVts <;> simp [h]
  have hleader : (if s.leaderFdSaved then none else s.leader) = s.leader ↔
      (s.leader ≠ none → s.leaderFdSaved = false) := by
    cases s.leader <;> cases s.leaderFdSaved <;> simp
  have haudit : (if s.leaderFdSaved then none else s.leader) = s.leader →
      (if s.leaderFdSaved then auditSessionInvalid else s.auditId) = s.auditId := by
    intro h
    cases hfd : s.leaderFdSaved with
    | false => simp
    | true =>
        -- without a leader there is no audit session
        have hnone : s.leader = none := by simpa [hfd] using h.symm
        simp [henv.audit, hnone]
  constructor
  · intro h
    exact ⟨hscope.mp (congrArg Persisted.scope h), htty.mp (congrArg Persisted.tty h),
      hdisplay.mp (congrArg Persisted.display h),
      (readBackEscaped_eq_iff _).mp (congrArg Persisted.remoteHost h),
      (readBackEscaped_eq_iff _).mp (congrArg Persisted.remoteUser h),
      (readBackEscaped_eq_iff _).mp (congrArg Persisted.service h),
      (readBackEscaped_eq_iff _).mp (congrArg Persisted.desktop h),
      hvtnr.mp (congrArg Persisted.vtnr h), hposition.mp (congrArg Persisted.position h),
      hleader.mp (congrArg Persisted.leader h)⟩
  · intro h
    have hl := hleader.mpr h.leader
    simp only [SessionRecord.restored, hscope.mpr h.scope, htty.mpr h.tty,
      hdisplay.mpr h.display, (readBackEscaped_eq_iff _).mpr h.remoteHost,
      (readBackEscaped_eq_iff _).mpr h.remoteUser, (readBackEscaped_eq_iff _).mpr h.service,
      (readBackEscaped_eq_iff _).mpr h.desktop, hvtnr.mpr h.vtnr, hposition.mpr h.position, hl,
      haudit hl]

theorem roundTrips_iff_restored {s : SessionRecord} {env : LoadEnv} (hs : s.Saved)
    (henv : env.Answers s) (hraw : s.RawStays) :
    RoundTrips env s ↔ s.restored = s.toPersisted := by
  obtain ⟨text, hsave, hload⟩ := sessionLoad_sessionSave hs henv hraw
  constructor
  · rintro ⟨text', hsave', hload'⟩
    rw [hsave, Except.ok.injEq, Option.some.injEq] at hsave'
    rw [← hload, hsave', hload']
  · intro h
    exact ⟨text, hsave, hload.trans h⟩

/-- A session whose unescaped texts stay on their lines (`hraw`) is given back
    exactly when it `Survives`. -/
theorem roundTrips_iff_survives (s : SessionRecord) (env : LoadEnv) (hs : s.Saved)
    (henv : env.Answers s) (hraw : s.RawStays) : RoundTrips env s ↔ s.Survives :=
  (roundTrips_iff_restored hs henv hraw).trans (restored_eq_iff henv hraw)

/-- A system on which nothing has changed. -/
def sampleEnv : LoadEnv where
  userKnown _ := true
  seatHasVts _ := some true
  freePosition := 1
  growAttach := true
  growClaim := true
  npos := 0
  mkfifo _ := true
  newFifoPath := none
  nameHasOwner _ := true
  setController _ := true
  pidrefSetPid _ := .ok ()
  watchPidfd := .ok ()
  putLeader := .ok ()
  auditSessionFromPid _ := none
  pushLeaderFd := false

theorem sampleSession_rawPlain (desktop : Bytes) :
    ∀ w ∈ (sampleSession desktop).rawTexts, PlainText w ∧ utf8IsValid w = true := by
  have hwords : ((sampleSession desktop).rawTexts.all fun w =>
      !w.isEmpty && w.all fun c => isWordChar c && decide (c < 0x80)) = true := by
    show ((sampleSession []).rawTexts.all _) = true
    decide
  intro w hw
  have h := List.all_eq_true.mp hwords w hw
  simp only [Bool.and_eq_true, Bool.not_eq_true', List.isEmpty_eq_false_iff, List.all_eq_true,
    decide_eq_true_eq] at h
  exact ⟨.of_word h.1 fun c hc => (h.2 c hc).1, utf8IsValid_of_ascii fun c hc => (h.2 c hc).2⟩

theorem sampleSession_rawStays (desktop : Bytes) : (sampleSession desktop).RawStays :=
  fun w hw => ⟨(sampleSession_rawPlain desktop w hw).1.staysOnLine,
    (sampleSession_rawPlain desktop w hw).2⟩

theorem sampleSession_saved (desktop : Bytes) : (sampleSession desktop).Saved where
  user := ⟨1000, ascii "alice", rfl, by decide⟩
  started := rfl
  timestamp := rfl
  realtime_lt := by show 1000 < 2 ^ 64; decide
  monotonic_lt := by show 2000 < 2 ^ 64; decide
  vtnr_lt := by show 2 < 2 ^ 32; decide
  position_lt := by show 2 < 2 ^ 32; decide
  leader := by
    rintro pid ⟨rfl⟩
    decide
  seat := by
    rintro seat ⟨rfl⟩
    simp [sampleSession]
  position := nofun
  seatId := by
    rintro seat ⟨rfl⟩
    exact (sampleSession_rawPlain desktop _ (by simp [SessionRecord.rawTexts, sampleSession])).1
  fifoPath := by
    rintro path ⟨rfl⟩
    exact (sampleSession_rawPlain desktop _ (by simp [SessionRecord.rawTexts, sampleSession])).1
  controller := by
    rintro c ⟨rfl⟩
    exact (sampleSession_rawPlain desktop _ (by simp [SessionRecord.rawTexts, sampleSession])).1

theorem sampleEnv_answers (desktop : Bytes) : sampleEnv.Answers (sampleSession desktop) where
  user _ _ _ := rfl
  seat := by
    rintro seat ⟨rfl⟩
    rfl
  grow := ⟨rfl, rfl⟩
  fifo _ _ := rfl
  controller _ _ := ⟨rfl, rfl⟩
  leader _ _ := ⟨rfl, rfl, rfl⟩
  audit := rfl

theorem printableText_of_word {v : Bytes} (hne : v ≠ [])
    (h : v.all (fun c => isPrintable c && c != space) = true) : PrintableText v := by
  simp only [List.all_eq_true, Bool.and_eq_true, bne_iff_ne] at h
  exact ⟨hne, fun c hc => (h c hc).1, fun hs => (h space (List.mem_of_mem_head? hs)).2 rfl,
    fun hs => (h space (List.mem_of_mem_getLast? hs)).2 rfl⟩

theorem sampleSession_survives : (sampleSession (ascii "GNOME")).Survives where
  scope := nofun
  tty := by
    rintro v ⟨rfl⟩
    exact (sampleSession_rawPlain [] _ (by simp [SessionRecord.rawTexts, sampleSession])).1
  display := nofun
  remoteHost := nofun
  remoteUser := nofun
  service := by
    rintro v ⟨rfl⟩
    exact printableText_of_word (by decide) (by decide)
  desktop := by
    rintro v ⟨rfl⟩
    exact printableText_of_word (by decide) (by decide)
  vtnr := nofun
  position := by
    rintro seat ⟨rfl⟩ _
    rfl
  leader _ := rfl

theorem roundTrips_sampleSession : RoundTrips sampleEnv (sampleSession (ascii "GNOME")) :=
  (roundTrips_iff_survives _ _ (sampleSession_saved _) (sampleEnv_answers _)
    (sampleSession_rawStays _)).mpr sampleSession_survives

/-- `string_is_safe`, which `create_session` asks of the name of a desktop. -/
def stringIsSafe (p : Bytes) : Bool :=
  p.all fun c =>
    !(0 < c && c < space) && c != doubleQuote && c != singleQuote && c != backslash && c != 127

/-- The name of a desktop with a letter that is not ASCII is accepted, and comes
    back as the digits of its escapes. -/
theorem not_roundTrips_of_accent :
    stringIsSafe [0xc3, 0xa9] = true ∧ utf8IsValid [0xc3, 0xa9] = true ∧
      (sampleSession [0xc3, 0xa9]).Saved ∧ sampleEnv.Answers (sampleSession [0xc3, 0xa9]) ∧
      ¬ RoundTrips sampleEnv (sampleSession [0xc3, 0xa9]) := by
  refine ⟨by decide, by decide, sampleSession_saved _, sampleEnv_answers _, ?_⟩
  rw [roundTrips_iff_restored (sampleSession_saved _) (sampleEnv_answers _)
    (sampleSession_rawStays _)]
  intro h
  have hdesktop : readBack (cescape [0xc3, 0xa9]) = some [0xc3, 0xa9] :=
    congrArg Persisted.desktop h
  exact absurd hdesktop (by decide)

end Elogind
