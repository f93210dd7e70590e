/-
  Elogind.Login.Graph

  Well-formedness of the manager's objects: pointers in both directions agree,
  single pointers stay within them, queues and flags agree, and what is pointed
  to exists.

  One lemma for each elementary change of the memory says under which condition
  it keeps the objects well-formed.  Since a change names the members it
  assigns, all parts of `Wf` about other members carry over as they are.
-/

import Elogind.Lib.BackRefs
import Elogind.Login.Teardown

namespace Elogind

open Function Lib List

/-- The objects are well-formed.  A seat that is being freed has left the queue
    but keeps its flag; `dying` is that seat, if there is one. -/
structure Wf (dying : Option Ref) (m : Manager) : Prop where
  seatSessions : BackRefs m.session.seat m.seat.sessions
  userSessions : BackRefs m.session.user m.user.sessions
  seatDevices : BackRefs m.device.seat m.seat.devices
  sessionSds : BackRefs m.sd.session m.session.devices
  deviceSds : BackRefs m.sd.device m.device.sessionDevices
  active : Points m.seat.active m.session.seat
  pending : Points m.seat.pendingSwitch m.session.seat
  display : Points m.user.display m.session.user
  /-- A session device joins a session and a device of one seat. -/
  sdJoins : ∀ {sd s}, m.sd.session sd = some s →
    ∃ d x, m.sd.device sd = some d ∧ m.session.seat s = some x ∧ m.device.seat d = some x
  sdSession : ∀ {sd d}, m.sd.device sd = some d → ∃ s, m.sd.session sd = some s
  /-- A session has one session device for each device number. -/
  sdKey : ∀ {a b s}, m.sd.session a = some s → m.sd.session b = some s →
    m.sd.dev a = m.sd.dev b → a = b
  sdType : ∀ {sd s}, m.sd.session sd = some s → m.sd.type sd ≠ .unknown
  seatQueue : Queued (dying.toList ++ m.seatGcQueue) m.seat.inGcQueue
  sessionQueue : Queued m.sessionGcQueue m.session.inGcQueue
  userQueue : Queued m.userGcQueue m.user.inGcQueue
  seats : Queued m.seats m.seat.live
  sessions : Queued m.sessions m.session.live
  users : Queued m.users m.user.live
  devices : Queued m.devices m.device.live
  seatedLive : Ends m.session.seat m.session.live m.seat.live
  ownedLive : Ends m.session.user m.session.live m.user.live
  deviceLive : Ends m.device.seat m.device.live m.seat.live
  seatQueueLive : Within m.seat.inGcQueue m.seat.live
  sessionQueueLive : Within m.session.inGcQueue m.session.live
  userQueueLive : Within m.user.inGcQueue m.user.live
  leader : ∀ {pid s}, m.sessionsByLeader pid = some s →
    m.session.live s ∧ (m.session.leader s).map PidRef.pid = some pid
  /-- References are handed out in order. -/
  seatOld : ∀ {x}, m.seat.live x → x < m.next
  sessionOld : ∀ {s}, m.session.live s → s < m.next
  userOld : ∀ {u}, m.user.live u → u < m.next
  deviceOld : ∀ {d}, m.device.live d → d < m.next
  sdOld : ∀ {sd s}, m.sd.session sd = some s → sd < m.next

/-- The manager without the members that neither well-formedness nor any of what
    else is said about the objects depends on. -/
def Manager.core (m : Manager) : Manager :=
  { m with
    user.started := fun _ => false
    user.stopping := fun _ => false
    user.timer := fun _ => false
    seat.started := fun _ => false
    session.fifo := fun _ => false
    session.vtfd := fun _ => false
    session.wasActive := fun _ => false
    session.deserializedPid := fun _ => none
    sd.pushedFd := fun _ => false
    sessionCounter := 0
    signals := [] }

/-- The manager with only what well-formedness depends on. -/
def Manager.links (m : Manager) : Manager :=
  { m.core with
    seat.positions := fun _ => []
    session.type := fun _ => .unspecified
    session.originalType := fun _ => .unspecified
    session.vtnr := fun _ => 0
    session.position := fun _ => 0
    session.controller := fun _ => none
    session.track := fun _ => none
    session.stopping := fun _ => false
    session.timer := fun _ => false
    session.started := fun _ => false
    session.sessionClass := fun _ => .user
    user.gcMode := fun _ => .byAny
    user.lastSession := fun _ => none
    device.master := fun _ => false
    sd.fd := fun _ => none
    sd.active := fun _ => false }

theorem Manager.links_of_core {m m' : Manager} (h : m'.core = m.core) : m'.links = m.links := by
  unfold links
  rw [h]

theorem wf_empty (consoleActive : Bool) : Wf none (.empty consoleActive) where
  seatSessions := .empty
  userSessions := .empty
  seatDevices := .empty
  sessionSds := .empty
  deviceSds := .empty
  active := .empty
  pending := .empty
  display := .empty
  sdJoins h := nomatch h
  sdSession h := nomatch h
  sdKey h := nomatch h
  sdType h := nomatch h
  seatQueue := .empty
  sessionQueue := .empty
  userQueue := .empty
  seats := .empty
  sessions := .empty
  users := .empty
  devices := .empty
  seatedLive := .empty
  ownedLive := .empty
  deviceLive := .empty
  seatQueueLive _ h := nomatch h
  sessionQueueLive _ h := nomatch h
  userQueueLive _ h := nomatch h
  leader h := nomatch h
  seatOld h := nomatch h
  sessionOld h := nomatch h
  userOld h := nomatch h
  deviceOld h := nomatch h
  sdOld h := nomatch h

namespace Wf

variable {dying : Option Ref} {m m' : Manager}

theorem same (h : Wf dying m) (hs : m'.links = m.links) : Wf dying m' := by
  have hlinks : Wf dying m'.links := by
    rw [hs]
    exact { h with }
  exact { hlinks with }

/-! ## New objects -/

variable {live : Ref → Bool} {x s u d sd : Ref} {rest : List Ref}

/-- What is true of no reference from `m.next` on is not true of `m.next`. -/
theorem next_not_live (h : ∀ {x}, live x → x < m.next) : live m.next = false := by
  by_contra hlive
  exact Nat.lt_irrefl m.next (h (by simpa using hlive))

theorem lt_next_of_update (h : ∀ {x}, live x → x < m.next) {y : Ref}
    (hy : update live m.next true y = true) : y < m.next + 1 := by
  by_cases heq : y = m.next
  · rw [heq]
    exact Nat.lt_succ_self m.next
  · rw [update_of_ne heq] at hy
    exact Nat.lt_succ_of_lt (h hy)

theorem live_bear {r : Ref} (h : live x = true) : update live r true x = true := by
  by_cases heq : x = r
  · rw [heq, update_self]
  · rwa [update_of_ne heq]

theorem seatNew (h : Wf dying m) (id : Bytes) : Wf dying (m.seatNew id).1 :=
  { h with
    seats := h.seats.push (next_not_live h.seatOld)
    seatedLive := h.seatedLive.bearParent m.next
    deviceLive := h.deviceLive.bearParent m.next
    seatQueueLive := h.seatQueueLive.bear m.next
    seatOld := fun hx => lt_next_of_update h.seatOld hx
    sessionOld := fun hs => Nat.lt_succ_of_lt (h.sessionOld hs)
    userOld := fun hu => Nat.lt_succ_of_lt (h.userOld hu)
    deviceOld := fun hd => Nat.lt_succ_of_lt (h.deviceOld hd)
    sdOld := fun hsd => Nat.lt_succ_of_lt (h.sdOld hsd) }

theorem sessionNew (h : Wf dying m) (id : Bytes) : Wf dying (m.sessionNew id).1 :=
  { h with
    sessions := h.sessions.push (next_not_live h.sessionOld)
    seatedLive := h.seatedLive.bearChild m.next
    ownedLive := h.ownedLive.bearChild m.next
    sessionQueueLive := h.sessionQueueLive.bear m.next
    leader := fun hl => ⟨live_bear (h.leader hl).1, (h.leader hl).2⟩
    seatOld := fun hx => Nat.lt_succ_of_lt (h.seatOld hx)
    sessionOld := fun hs => lt_next_of_update h.sessionOld hs
    userOld := fun hu => Nat.lt_succ_of_lt (h.userOld hu)
    deviceOld := fun hd => Nat.lt_succ_of_lt (h.deviceOld hd)
    sdOld := fun hsd => Nat.lt_succ_of_lt (h.sdOld hsd) }

theorem userNew (h : Wf dying m) (uid : Nat) : Wf dying (m.userNew uid).1 :=
  { h with
    users := h.users.push (next_not_live h.userOld)
    ownedLive := h.ownedLive.bearParent m.next
    userQueueLive := h.userQueueLive.bear m.next
    seatOld := fun hx => Nat.lt_succ_of_lt (h.seatOld hx)
    sessionOld := fun hs => Nat.lt_succ_of_lt (h.sessionOld hs)
    userOld := fun hu => lt_next_of_update h.userOld hu
    deviceOld := fun hd => Nat.lt_succ_of_lt (h.deviceOld hd)
    sdOld := fun hsd => Nat.lt_succ_of_lt (h.sdOld hsd) }

theorem deviceNew (h : Wf dying m) (syspath : Bytes) (master : Bool) :
    Wf dying (m.deviceNew syspath master).1 :=
  { h with
    devices := h.devices.push (next_not_live h.deviceOld)
    deviceLive := h.deviceLive.bearChild m.next
    seatOld := fun hx => Nat.lt_succ_of_lt (h.seatOld hx)
    sessionOld := fun hs => Nat.lt_succ_of_lt (h.sessionOld hs)
    userOld := fun hu => Nat.lt_succ_of_lt (h.userOld hu)
    deviceOld := fun hd => lt_next_of_update h.deviceOld hd
    sdOld := fun hsd => Nat.lt_succ_of_lt (h.sdOld hsd) }

/-! ## Sessions and their seats -/

theorem attachSeat (h : Wf dying m) (hs : m.session.seat s = none) (hlive : m.session.live s)
    (hx : m.seat.live x) : Wf dying (m.seatLinkSession x s) :=
  { h with
    seatSessions := h.seatSessions.link_cons hs
    active := h.active.link hs
    pending := h.pending.link hs
    sdJoins := fun hsd => by
      obtain ⟨d, y, hd, hy, hdy⟩ := h.sdJoins hsd
      exact ⟨d, y, hd, update_of_ne_none hs hy, hdy⟩
    seatedLive := h.seatedLive.link hlive hx }

theorem leaveSeat (h : Wf dying m) (hs : m.session.seat s = some x) (hactive : m.seat.active x ≠ some s)
    (hpending : m.seat.pendingSwitch x ≠ some s) (hdevices : m.session.devices s = []) :
    Wf dying (m.seatUnlinkSession x s) :=
  { h with
    seatSessions := h.seatSessions.unlink hs
    active := h.active.unlink hs hactive
    pending := h.pending.unlink hs hpending
    sdJoins := fun {sd t} hsd => by
      obtain ⟨d, y, hd, hy, hdy⟩ := h.sdJoins hsd
      refine ⟨d, y, hd, ?_, hdy⟩
      have hne : t ≠ s := by
        rintro rfl
        exact h.sessionSds.eq_none_of_nil hdevices sd hsd
      exact (update_of_ne hne _ _).trans hy
    seatedLive := h.seatedLive.unlink s }

theorem setActive (h : Wf dying m) {a : Option Ref} (ha : ∀ s, a = some s → m.session.seat s = some x) :
    Wf dying (m.seatPutActive x a) :=
  { h with active := h.active.set ha }

theorem setPending (h : Wf dying m) {a : Option Ref} (ha : ∀ s, a = some s → m.session.seat s = some x) :
    Wf dying (m.seatPutPending x a) :=
  { h with pending := h.pending.set ha }

/-! ## Sessions and their users -/

theorem attachUser (h : Wf dying m) (hs : m.session.user s = none) (hlive : m.session.live s)
    (hu : m.user.live u) : Wf dying (m.userLinkSession u s) :=
  { h with
    userSessions := h.userSessions.link_cons hs
    display := h.display.link hs
    ownedLive := h.ownedLive.link hlive hu }

theorem leaveUser (h : Wf dying m) (hs : m.session.user s = some u) :
    Wf dying (m.userUnlinkSession u s) :=
  { h with
    userSessions := h.userSessions.unlink hs
    display := h.display.clear.unlink hs Points.clear_ne
    ownedLive := h.ownedLive.unlink s }

theorem setDisplay (h : Wf dying m) (hs : m.session.user s = some u) :
    Wf dying (m.userPutDisplay u s) :=
  { h with display := h.display.set fun _ ht => Option.some.inj ht ▸ hs }

/-! ## Devices -/

theorem attachDevice (h : Wf dying m) {l : List Ref} (hd : m.device.seat d = none)
    (hlive : m.device.live d) (hx : m.seat.live x) (hl : l.Perm (d :: m.seat.devices x)) :
    Wf dying (m.seatLinkDevice x d l) :=
  { h with
    seatDevices := by
      refine h.seatDevices.link hd ?_ ?_
      · intro i
        rw [hl.mem_iff, mem_cons]
      · rw [hl.nodup_iff]
        exact nodup_cons.mpr ⟨h.seatDevices.not_mem_of_none hd x, h.seatDevices.nodup x⟩
    sdJoins := fun hsd => by
      obtain ⟨e, y, he, hy, hey⟩ := h.sdJoins hsd
      exact ⟨e, y, he, hy, update_of_ne_none hd hey⟩
    deviceLive := h.deviceLive.link hlive hx }

theorem leaveDevice (h : Wf dying m) (hd : m.device.seat d = some x)
    (hsds : m.device.sessionDevices d = []) : Wf dying (m.seatUnlinkDevice x d) :=
  { h with
    seatDevices := h.seatDevices.unlink hd
    sdJoins := fun {sd s} hsd => by
      obtain ⟨e, y, he, hy, hey⟩ := h.sdJoins hsd
      refine ⟨e, y, he, hy, ?_⟩
      have hne : e ≠ d := by
        rintro rfl
        exact h.deviceSds.eq_none_of_nil hsds sd he
      exact (update_of_ne hne _ _).trans hey
    deviceLive := h.deviceLive.unlink d }

/-! ## Session devices -/

theorem sd_next (h : Wf dying m) : m.sd.session m.next = none := by
  by_contra hne
  obtain ⟨s, hs⟩ := Option.ne_none_iff_exists'.mp hne
  exact Nat.lt_irrefl m.next (h.sdOld hs)

theorem sd_device_none (h : Wf dying m) (hsd : m.sd.session sd = none) : m.sd.device sd = none := by
  by_contra hne
  obtain ⟨d, hd⟩ := Option.ne_none_iff_exists'.mp hne
  obtain ⟨s, hs⟩ := h.sdSession hd
  rw [hsd] at hs
  cases hs

theorem sessionDeviceLink (h : Wf dying m) {dev : Ref} {type : DeviceType} {active : Bool}
    {fd : Option Nat} (hs : m.session.seat s = some x) (hd : m.device.seat d = some x)
    (htype : type ≠ .unknown) (hkey : ∀ sd, m.sd.session sd = some s → m.sd.dev sd ≠ dev) :
    Wf dying (m.sessionDeviceLink s d dev type active fd) :=
  { h with
    sessionSds := h.sessionSds.link_cons h.sd_next
    deviceSds := h.deviceSds.link_cons (h.sd_device_none h.sd_next)
    sdJoins := fun {sd t} hsd => by
      simp only [Manager.sessionDeviceLink] at hsd ⊢
      by_cases heq : sd = m.next
      · subst heq
        rw [update_self, Option.some.injEq] at hsd
        subst hsd
        exact ⟨d, x, by rw [update_self], hs, hd⟩
      · rw [update_of_ne heq] at hsd
        rw [update_of_ne heq]
        exact h.sdJoins hsd
    sdSession := fun {sd e} hsd => by
      simp only [Manager.sessionDeviceLink] at hsd ⊢
      by_cases heq : sd = m.next
      · subst heq
        exact ⟨s, by rw [update_self]⟩
      · rw [update_of_ne heq] at hsd
        rw [update_of_ne heq]
        exact h.sdSession hsd
    sdKey := fun {a b t} ha hb hab => by
      simp only [Manager.sessionDeviceLink] at ha hb hab
      -- two of the same session, one of which may be the new one
      by_cases hane : a = m.next <;> by_cases hbne : b = m.next
      · rw [hane, hbne]
      · rw [hane, update_self, Option.some.injEq] at ha
        rw [hane, update_self, update_of_ne hbne] at hab
        rw [update_of_ne hbne, ← ha] at hb
        exact absurd hab.symm (hkey b hb)
      · rw [hbne, update_self, Option.some.injEq] at hb
        rw [hbne, update_self, update_of_ne hane] at hab
        rw [update_of_ne hane, ← hb] at ha
        exact absurd hab (hkey a ha)
      · rw [update_of_ne hane] at ha hab
        rw [update_of_ne hbne] at hb hab
        exact h.sdKey ha hb hab
    sdType := fun {sd t} hsd => by
      simp only [Manager.sessionDeviceLink] at hsd ⊢
      by_cases heq : sd = m.next
      · rw [heq, update_self]
        exact htype
      · rw [update_of_ne heq] at hsd ⊢
        exact h.sdType hsd
    seatOld := fun hy => Nat.lt_succ_of_lt (h.seatOld hy)
    sessionOld := fun ht => Nat.lt_succ_of_lt (h.sessionOld ht)
    userOld := fun hu => Nat.lt_succ_of_lt (h.userOld hu)
    deviceOld := fun he => Nat.lt_succ_of_lt (h.deviceOld he)
    sdOld := fun {sd t} hsd => by
      simp only [Manager.sessionDeviceLink] at hsd ⊢
      by_cases heq : sd = m.next
      · rw [heq]
        exact Nat.lt_succ_self m.next
      · rw [update_of_ne heq] at hsd
        exact Nat.lt_succ_of_lt (h.sdOld hsd) }

/-- Removing a device number from the devices of a session takes out the one
    session device that has it. -/
theorem eraseP_dev (h : Wf dying m) (hsd : m.sd.session sd = some s) :
    ((m.session.devices s).eraseP fun i => m.sd.dev i = m.sd.dev sd) =
      (m.session.devices s).erase sd := by
  rw [erase_eq_eraseP]
  apply eraseP_congr
  intro i hi
  rw [h.sessionSds.mem_iff] at hi
  rw [Bool.eq_iff_iff, decide_eq_true_iff, beq_iff_eq]
  exact ⟨fun heq => (h.sdKey hi hsd heq).symm, fun heq => heq ▸ rfl⟩

/-- The members of a session device that belongs to nothing can be cleared. -/
theorem freeSessionDevice (h : Wf dying m) (hsd : m.sd.session sd = none) :
    Wf dying (m.freeSessionDevice sd) := by
  have hdev := h.sd_device_none hsd
  have hne : ∀ {i s}, m.sd.session i = some s → i ≠ sd := by
    rintro i s hi rfl
    rw [hsd] at hi
    cases hi
  have hself : update m.sd.session sd none = m.sd.session := by rw [← hsd, update_eq_self]
  have hself' : update m.sd.device sd none = m.sd.device := by rw [← hdev, update_eq_self]
  simp only [Manager.freeSessionDevice, hself, hself']
  exact { h with
    sdKey := fun {a b s} ha hb hab => by
      dsimp only at hab
      rw [update_of_ne (hne ha), update_of_ne (hne hb)] at hab
      exact h.sdKey ha hb hab
    sdType := fun {i s} hi => by
      dsimp only
      rw [update_of_ne (hne hi)]
      exact h.sdType hi }

theorem unlinkSd (h : Wf dying m) (hs : m.sd.session sd = some s) (hd : m.sd.device sd = some d) :
    Wf dying { m with
      sd.session := update m.sd.session sd none
      sd.device := update m.sd.device sd none
      session.devices := update m.session.devices s ((m.session.devices s).erase sd)
      device.sessionDevices :=
        update m.device.sessionDevices d ((m.device.sessionDevices d).erase sd) } :=
  have hold : ∀ {i t}, update m.sd.session sd none i = some t → i ≠ sd ∧ m.sd.session i = some t := by
    intro i t hi
    have hne : i ≠ sd := by
      rintro rfl
      rw [update_self] at hi
      cases hi
    rw [update_of_ne hne] at hi
    exact ⟨hne, hi⟩
  { h with
    sessionSds := h.sessionSds.unlink hs
    deviceSds := h.deviceSds.unlink hd
    sdJoins := fun {i t} hi => by
      obtain ⟨e, x, he, ht, hx⟩ := h.sdJoins (hold hi).2
      exact ⟨e, x, (update_of_ne (hold hi).1 _ _).trans he, ht, hx⟩
    sdSession := fun {i e} hi => by
      dsimp only at hi ⊢
      have hne : i ≠ sd := by
        rintro rfl
        rw [update_self] at hi
        cases hi
      rw [update_of_ne hne] at hi ⊢
      exact h.sdSession hi
    sdKey := fun ha hb hab => h.sdKey (hold ha).2 (hold hb).2 hab
    sdType := fun hi => h.sdType (hold hi).2
    sdOld := fun hi => h.sdOld (hold hi).2 }

/-- The end of `session_device_free`: the pointers to the session device are
    removed and its memory is given back. -/
theorem sdFree (h : Wf dying m) (sd : Ref) :
    Wf dying ((m.sessionDeviceUnlink sd).freeSessionDevice sd) := by
  cases hs : m.sd.session sd with
  | none =>
    have heq : m.sessionDeviceUnlink sd = m := by simp only [Manager.sessionDeviceUnlink, hs]
    rw [heq]
    exact h.freeSessionDevice hs
  | some s =>
    obtain ⟨d, x, hd, -⟩ := h.sdJoins hs
    have heq : (m.sessionDeviceUnlink sd).freeSessionDevice sd =
        Manager.freeSessionDevice { m with
          sd.session := update m.sd.session sd none
          sd.device := update m.sd.device sd none
          session.devices := update m.session.devices s ((m.session.devices s).erase sd)
          device.sessionDevices :=
            update m.device.sessionDevices d ((m.device.sessionDevices d).erase sd) } sd := by
      simp only [Manager.sessionDeviceUnlink, hs, hd, Manager.sessionRemoveDevice,
        Manager.freeSessionDevice, update_idem]
      rw [← h.eraseP_dev hs]
    rw [heq]
    exact (h.unlinkSd hs hd).freeSessionDevice (update_self ..)

/-! ## Queues -/

theorem seatAddToGcQueue (h : Wf dying m) (hx : m.seat.live x) : Wf dying (m.seatAddToGcQueue x) := by
  unfold Manager.seatAddToGcQueue
  split
  · exact h
  · next hflag =>
    exact { h with
      seatQueue := (h.seatQueue.push (by simpa using hflag)).perm perm_middle.symm
      seatQueueLive := h.seatQueueLive.push hx }

theorem sessionAddToGcQueue (h : Wf dying m) (hs : m.session.live s) :
    Wf dying (m.sessionAddToGcQueue s) := by
  unfold Manager.sessionAddToGcQueue
  split
  · exact h
  · next hflag =>
    exact { h with
      sessionQueue := h.sessionQueue.push (by simpa using hflag)
      sessionQueueLive := h.sessionQueueLive.push hs }

theorem userAddToGcQueue (h : Wf dying m) (hu : m.user.live u) : Wf dying (m.userAddToGcQueue u) := by
  unfold Manager.userAddToGcQueue
  split
  · exact h
  · next hflag =>
    exact { h with
      userQueue := h.userQueue.push (by simpa using hflag)
      userQueueLive := h.userQueueLive.push hu }

theorem sessionDequeue (h : Wf dying m) (s : Ref) : Wf dying (m.sessionDequeue s) :=
  { h with
    sessionQueue := h.sessionQueue.erase s
    sessionQueueLive := h.sessionQueueLive.pop s }

theorem userDequeue (h : Wf dying m) (u : Ref) : Wf dying (m.userDequeue u) :=
  { h with
    userQueue := h.userQueue.erase u
    userQueueLive := h.userQueueLive.pop u }

theorem seatPop (h : Wf none m) (hq : m.seatGcQueue = x :: rest) : Wf none (m.seatPop x rest) :=
  have hqueue : Queued (x :: rest) m.seat.inGcQueue := by simpa [hq] using h.seatQueue
  { h with
    seatQueue := hqueue.pop
    seatQueueLive := h.seatQueueLive.pop x }

theorem sessionPop (h : Wf dying m) (hq : m.sessionGcQueue = s :: rest) :
    Wf dying (m.sessionPop s rest) :=
  { h with
    sessionQueue := Queued.pop (c := s) (hq ▸ h.sessionQueue)
    sessionQueueLive := h.sessionQueueLive.pop s }

theorem userPop (h : Wf dying m) (hq : m.userGcQueue = u :: rest) : Wf dying (m.userPop u rest) :=
  { h with
    userQueue := Queued.pop (c := u) (hq ▸ h.userQueue)
    userQueueLive := h.userQueueLive.pop u }

/-! ## Leaders -/

theorem sessionResetLeader (h : Wf dying m) (s : Ref) : Wf dying (m.sessionResetLeader s) := by
  unfold Manager.sessionResetLeader
  split
  · exact h
  · next l hl =>
    exact { h with
      leader := fun {pid t} ht => by
        dsimp only at ht ⊢
        have hold : m.sessionsByLeader pid = some t ∧ t ≠ s := by
          split at ht
          · next hmine =>
            by_cases heq : pid = l.pid
            · rw [heq, update_self] at ht
              cases ht
            · rw [update_of_ne heq] at ht
              refine ⟨ht, ?_⟩
              rintro rfl
              have hpid := (h.leader ht).2
              rw [hl] at hpid
              exact heq (Option.some.inj hpid).symm
          · next hmine =>
            refine ⟨ht, ?_⟩
            rintro rfl
            have hpid := (h.leader ht).2
            rw [hl] at hpid
            exact hmine (Option.some.inj hpid ▸ ht)
        rw [update_of_ne hold.2]
        exact h.leader hold.1 }

theorem setLeader (h : Wf dying m) (hs : m.session.leader s = none) (p : PidRef) :
    Wf dying (m.sessionPutLeader s p) :=
  { h with
    leader := fun {pid t} ht => by
      have hne : t ≠ s := by
        rintro rfl
        have hpid := (h.leader ht).2
        rw [hs] at hpid
        cases hpid
      simp only [Manager.sessionPutLeader]
      rw [update_of_ne hne]
      exact h.leader ht }

theorem putLeader (h : Wf dying m) {p : PidRef} (hlive : m.session.live s)
    (hs : m.session.leader s = some p) : Wf dying (m.leaderPut p.pid s) :=
  { h with
    leader := fun {pid t} ht => by
      simp only [Manager.leaderPut] at ht ⊢
      by_cases heq : pid = p.pid
      · subst heq
        rw [update_self, Option.some.injEq] at ht
        subst ht
        exact ⟨hlive, by rw [hs]; rfl⟩
      · rw [update_of_ne heq] at ht
        exact h.leader ht }

/-! ## Freed objects -/

theorem lt_of_update_false {n r : Ref} (h : ∀ {x}, live x → x < n) {y : Ref}
    (hy : update live r false y = true) : y < n := by
  by_cases heq : y = r
  · rw [heq, update_self] at hy
    cases hy
  · rw [update_of_ne heq] at hy
    exact h hy

theorem freeSession (h : Wf dying m) (hseat : m.session.seat s = none) (huser : m.session.user s = none)
    (hleader : m.session.leader s = none) (hqueue : m.session.inGcQueue s = false) :
    Wf dying (m.freeSession s) :=
  { h with
    sessions := h.sessions.erase s
    seatedLive := h.seatedLive.buryChild hseat
    ownedLive := h.ownedLive.buryChild huser
    sessionQueueLive := h.sessionQueueLive.bury hqueue
    sessionOld := lt_of_update_false h.sessionOld
    leader := fun {pid t} ht => by
      have hne : t ≠ s := by
        rintro rfl
        have hpid := (h.leader ht).2
        rw [hleader] at hpid
        cases hpid
      refine ⟨?_, (h.leader ht).2⟩
      simp only [Manager.freeSession]
      rw [update_of_ne hne]
      exact (h.leader ht).1 }

theorem freeDevice (h : Wf dying m) (hd : m.device.seat d = none) : Wf dying (m.freeDevice d) :=
  { h with
    devices := h.devices.erase d
    deviceLive := h.deviceLive.buryChild hd
    deviceOld := lt_of_update_false h.deviceOld }

theorem freeUser (h : Wf dying m) (hu : m.user.sessions u = []) (hqueue : m.user.inGcQueue u = false) :
    Wf dying (m.freeUser u) :=
  { h with
    users := h.users.erase u
    ownedLive := h.ownedLive.buryParent (h.userSessions.eq_none_of_nil hu)
    userQueueLive := h.userQueueLive.bury hqueue
    userOld := lt_of_update_false h.userOld }

/-- A seat that is being freed leaves the queue and keeps its flag. -/
theorem seatUnqueue (h : Wf none m) (hx : m.seat.inGcQueue x = true) :
    Wf (some x) (m.seatUnqueue x) :=
  { h with
    seatQueue := by
      have hmem := (h.seatQueue.mem_iff x).mpr hx
      exact h.seatQueue.perm (perm_cons_erase hmem) }

/-- The memory of a seat is given back, when it has left the queue or was not
    waiting in it. -/
theorem freeSeat (h : Wf (some x) m ∨ Wf none m ∧ m.seat.inGcQueue x = false)
    (hsessions : m.seat.sessions x = []) (hdevices : m.seat.devices x = []) :
    Wf none (m.freeSeat x) := by
  have hbury : ∀ {dying}, Wf dying m → Queued m.seatGcQueue (update m.seat.inGcQueue x false) →
      Wf none (m.freeSeat x) := by
    intro dying h hqueue
    exact { h with
      seatQueue := hqueue
      seats := h.seats.erase x
      seatedLive := h.seatedLive.buryParent (h.seatSessions.eq_none_of_nil hsessions)
      deviceLive := h.deviceLive.buryParent (h.seatDevices.eq_none_of_nil hdevices)
      seatQueueLive := (h.seatQueueLive.pop x).bury (update_self ..)
      seatOld := lt_of_update_false h.seatOld }
  rcases h with h | ⟨h, hflag⟩
  · exact hbury h (Queued.pop (c := x) h.seatQueue)
  · refine hbury h ?_
    rw [← hflag, update_eq_self]
    exact h.seatQueue

/-! ## Loops over session devices -/

/-- A loop whose rounds keep the objects well-formed. -/
theorem foldl {f : Manager → Ref → Manager} (hf : ∀ {m} i, Wf dying m → Wf dying (f m i))
    (l : List Ref) (h : Wf dying m) : Wf dying (l.foldl f m) := by
  induction l generalizing m with
  | nil => exact h
  | cons i l ih => exact ih (hf i h)

theorem sessionDeviceNotify (h : Wf dying m) (sd : Ref) (n : Notification) :
    Wf dying (m.sessionDeviceNotify sd n) := by
  unfold Manager.sessionDeviceNotify
  split
  · exact h
  · split
    · exact h
    · exact h.same rfl

theorem sessionDeviceStop (h : Wf dying m) (sd : Ref) : Wf dying (m.sessionDeviceStop sd) := by
  unfold Manager.sessionDeviceStop
  split
  · exact h
  · split
    · exact h
    · exact h.same rfl

theorem sessionDevicePauseAll (h : Wf dying m) (s : Ref) :
    Wf dying (m.sessionDevicePauseAll s) := by
  refine foldl ?_ _ h
  intro m sd h
  unfold Manager.sessionDevicePause
  split
  · exact h
  · exact (h.sessionDeviceStop sd).sessionDeviceNotify sd .pause

theorem sessionDeviceFree (h : Wf dying m) (sd : Ref) : Wf dying (m.sessionDeviceFree sd) :=
  ((h.sessionDeviceStop sd).sessionDeviceNotify sd .release).sdFree sd

theorem sessionFreeDevices (h : Wf dying m) (s : Ref) : Wf dying (m.sessionFreeDevices s) :=
  foldl (fun sd h => h.sessionDeviceFree sd) _ h

/-- A freed session device is in no list any more. -/
theorem sdFree_lists (h : Wf dying m) (sd : Ref) :
    (∀ s, ((m.sessionDeviceUnlink sd).freeSessionDevice sd).session.devices s =
      (m.session.devices s).erase sd) ∧
    ∀ d, ((m.sessionDeviceUnlink sd).freeSessionDevice sd).device.sessionDevices d =
      (m.device.sessionDevices d).erase sd := by
  cases hs : m.sd.session sd with
  | none =>
    have hd := h.sd_device_none hs
    simp only [Manager.freeSessionDevice, Manager.sessionDeviceUnlink, hs]
    refine ⟨fun s => ?_, fun d => ?_⟩
    · rw [erase_of_not_mem (h.sessionSds.not_mem_of_none hs s)]
    · rw [erase_of_not_mem (h.deviceSds.not_mem_of_none hd d)]
  | some s =>
    obtain ⟨d, x, hd, -⟩ := h.sdJoins hs
    simp only [Manager.freeSessionDevice, Manager.sessionDeviceUnlink, hs, hd,
      Manager.sessionRemoveDevice, h.eraseP_dev hs]
    refine ⟨fun t => ?_, fun e => ?_⟩
    · by_cases heq : t = s
      · rw [heq, update_self]
      · have hmem : sd ∉ m.session.devices t := by
          rw [h.sessionSds.mem_iff, hs, Option.some.injEq]
          exact fun hst => heq hst.symm
        rw [update_of_ne heq, erase_of_not_mem hmem]
    · by_cases heq : e = d
      · rw [heq, update_self]
      · have hmem : sd ∉ m.device.sessionDevices e := by
          rw [h.deviceSds.mem_iff, hd, Option.some.injEq]
          exact fun hde => heq hde.symm
        rw [update_of_ne heq, erase_of_not_mem hmem]

theorem notify_stop_lists (m : Manager) (sd : Ref) (n : Notification) :
    ((m.sessionDeviceStop sd).sessionDeviceNotify sd n).session.devices = m.session.devices ∧
    ((m.sessionDeviceStop sd).sessionDeviceNotify sd n).device.sessionDevices =
      m.device.sessionDevices := by
  have hstop : (m.sessionDeviceStop sd).session.devices = m.session.devices ∧
      (m.sessionDeviceStop sd).device.sessionDevices = m.device.sessionDevices := by
    unfold Manager.sessionDeviceStop
    split
    · exact ⟨rfl, rfl⟩
    · split <;> exact ⟨rfl, rfl⟩
  rw [← hstop.1, ← hstop.2]
  unfold Manager.sessionDeviceNotify
  split
  · exact ⟨rfl, rfl⟩
  · split <;> exact ⟨rfl, rfl⟩

theorem sessionDeviceFree_lists (h : Wf dying m) (sd : Ref) :
    (∀ s, (m.sessionDeviceFree sd).session.devices s = (m.session.devices s).erase sd) ∧
    ∀ d, (m.sessionDeviceFree sd).device.sessionDevices d =
      (m.device.sessionDevices d).erase sd := by
  have hlists := notify_stop_lists m sd .release
  have hfree := sdFree_lists ((h.sessionDeviceStop sd).sessionDeviceNotify sd .release) sd
  rw [hlists.1, hlists.2] at hfree
  exact hfree

/-- Freeing all members of one of the lists empties it. -/
theorem foldl_free_nil {f : Manager → List Ref}
    (hf : ∀ {m} sd, Wf dying m → f (m.sessionDeviceFree sd) = (f m).erase sd)
    (h : Wf dying m) : f ((f m).foldl Manager.sessionDeviceFree m) = [] := by
  generalize hl : f m = l
  induction l generalizing m with
  | nil => exact hl
  | cons sd l ih =>
    apply ih (h.sessionDeviceFree sd)
    rw [hf sd h, hl, erase_cons_head]

theorem devices_sessionFreeDevices (h : Wf dying m) (s : Ref) :
    (m.sessionFreeDevices s).session.devices s = [] :=
  foldl_free_nil (f := fun m => m.session.devices s)
    (fun sd h => (h.sessionDeviceFree_lists sd).1 s) h

theorem sessionDevices_foldl_free (h : Wf dying m) (d : Ref) :
    ((m.device.sessionDevices d).foldl Manager.sessionDeviceFree m).device.sessionDevices d = [] :=
  foldl_free_nil (f := fun m => m.device.sessionDevices d)
    (fun sd h => (h.sessionDeviceFree_lists sd).2 d) h

end Wf

end Elogind
