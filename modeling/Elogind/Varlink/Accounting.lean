/-
  Elogind.Varlink.Accounting

  The counts of a server and the users at the other ends of its connections, over whole runs.  What is checked
  for a connection that is admitted is what keeps them right, so they hold as long as it is checked.
-/

import Elogind.Varlink.Server

namespace Elogind

open Lib Errno List

theorem toNat_succ_of_lt {n m : UInt32} (h : n < m) : (n + 1).toNat = n.toNat + 1 := by
  have hlt : n.toNat < m.toNat := h
  have hmax := m.toNat_lt
  rw [UInt32.toNat_add, UInt32.toNat_one, Nat.mod_eq_of_lt (by omega)]

theorem toNat_pred_of_pos {n : UInt32} (h : 0 < n.toNat) : (n - 1).toNat = n.toNat - 1 := by
  have hle : (1 : UInt32) ≤ n := h
  rw [UInt32.toNat_sub_of_le n 1 hle, UInt32.toNat_one]

namespace VarlinkServer

variable {myself : UInt32} {s : VarlinkServer} {a : NewConnection} {v : VarlinkPeer} {uid : UInt32}

/-! ## Linked connections -/

/-- The counts are right, and so is what the connections say that they are undone by. -/
structure Linked (myself : UInt32) (s : VarlinkServer) : Prop extends Accounted myself s where
  acquired : s.accountUid = true →
    ∀ v ∈ s.connections, v.ucredAcquired = true ∧ v.ucred = v.peer ∧ uidIsValid v.ucred.toNat = true
  noTable : s.accountUid = false → s.byUid = none

/-- A connection that may be linked now. -/
structure Admissible (myself : UInt32) (s : VarlinkServer) (v : VarlinkPeer) : Prop where
  max : s.nConnections < s.connectionsMax
  acquired : s.accountUid = true → v.ucredAcquired = true ∧ v.ucred = v.peer ∧ uidIsValid v.ucred.toNat = true
  perUidMax : s.accountUid = true → s.countOf v.ucred < s.connectionsPerUidMax
  access : s.rootOnly = true ∨ s.myselfOnly = true →
    s.rootOnly = true ∧ v.peer = 0 ∨ s.myselfOnly = true ∧ v.peer = myself

/-- The server with one more connection. -/
def link (s : VarlinkServer) (v : VarlinkPeer) : VarlinkServer :=
  { s with
    nConnections := s.nConnections + 1
    byUid :=
      if s.accountUid then
        some (Function.update (s.byUid.getD fun _ => 0) v.ucred (s.countOf v.ucred + 1))
      else s.byUid
    connections := v :: s.connections }

theorem countOf_eq (uid : UInt32) : s.countOf uid = (s.byUid.getD fun _ => 0) uid := by
  unfold countOf
  cases s.byUid with
  | none | some m => rfl

theorem countOf_link (h : s.accountUid = true) (uid : UInt32) :
    (s.link v).countOf uid = if uid = v.ucred then s.countOf v.ucred + 1 else s.countOf uid := by
  rw [countOf_eq (s := s) uid]
  show (if s.accountUid then _ else s.byUid).elim 0 _ = _
  rw [if_pos h, Option.elim_some, Function.update_apply]

theorem ofPeer_link (uid : UInt32) :
    (s.link v).ofPeer uid = if v.peer = uid then v :: s.ofPeer uid else s.ofPeer uid := by
  show filter _ (v :: s.connections) = _
  rw [filter_cons]
  simp only [decide_eq_true_eq]
  rfl

/-- One more connection that may be linked is counted. -/
theorem Linked.link (h : s.Linked myself) (hv : s.Admissible myself v) : (s.link v).Linked myself where
  count := by
    show (s.nConnections + 1).toNat = s.connections.length + 1
    rw [toNat_succ_of_lt hv.max, h.count]
  max := by
    have hmax : s.nConnections.toNat < s.connectionsMax.toNat := hv.max
    have hcount := h.count
    show s.connections.length + 1 ≤ s.connectionsMax.toNat
    omega
  byUid := by
    intro haccount uid
    have hflag : s.accountUid = true := haccount
    have hacquired := hv.acquired hflag
    rw [countOf_link hflag, ofPeer_link, hacquired.2.1]
    by_cases huid : uid = v.peer
    · have hlt := hv.perUidMax haccount
      rw [hacquired.2.1] at hlt
      rw [if_pos huid, if_pos huid.symm, toNat_succ_of_lt hlt, h.byUid haccount, huid]
      rfl
    · rw [if_neg huid, if_neg (Ne.symm huid), h.byUid haccount]
  perUidMax := by
    intro haccount uid
    have hacquired := hv.acquired haccount
    rw [ofPeer_link]
    split_ifs with huid
    · have hlt : (s.countOf v.ucred).toNat < s.connectionsPerUidMax.toNat := hv.perUidMax haccount
      rw [hacquired.2.1, huid, h.byUid haccount] at hlt
      exact hlt
    · exact h.perUidMax haccount uid
  access := by
    intro hflags w hw
    rcases mem_cons.mp hw with rfl | hw
    · exact hv.access hflags
    · exact h.access hflags w hw
  acquired := by
    intro haccount w hw
    rcases mem_cons.mp hw with rfl | hw
    · exact hv.acquired haccount
    · exact h.acquired haccount w hw
  noTable := by
    intro haccount
    have hflag : s.accountUid = false := haccount
    show (if s.accountUid then _ else s.byUid) = none
    rw [hflag]
    exact h.noTable hflag

/-! ## Closing -/

/-- The server without a connection. -/
def unlink (s : VarlinkServer) (v : VarlinkPeer) : VarlinkServer :=
  { s with
    nConnections := s.nConnections - 1
    byUid :=
      if s.accountUid then s.byUid.map fun m => Function.update m v.ucred (s.countOf v.ucred - 1) else s.byUid
    connections := s.connections.erase v }

theorem length_ofPeer_erase (hv : v ∈ s.connections) (uid : UInt32) :
    (s.ofPeer uid).length =
      (List.filter (fun w : VarlinkPeer => w.peer = uid) (s.connections.erase v)).length +
        if v.peer = uid then 1 else 0 := by
  have hperm := (perm_cons_erase hv).filter fun w => w.peer = uid
  have hlength := hperm.length_eq
  rw [filter_cons] at hlength
  unfold ofPeer
  rw [hlength]
  by_cases huid : v.peer = uid
  · simp only [huid, decide_true, if_true, length_cons]
  · simp only [huid, decide_false, if_false, Nat.add_zero, Bool.false_eq_true]

theorem pos_of_mem (h : s.Linked myself) (hv : v ∈ s.connections) : 0 < s.nConnections.toNat := by
  rw [h.count]
  exact length_pos_of_mem hv

theorem countOf_pos_of_mem (h : s.Linked myself) (haccount : s.accountUid = true) (hv : v ∈ s.connections) :
    0 < (s.countOf v.ucred).toNat := by
  rw [(h.acquired haccount v hv).2.1, h.byUid haccount]
  exact length_pos_of_mem (mem_filter.mpr ⟨hv, by simp⟩)

/-- There is a table where somebody is counted. -/
theorem isSome_byUid {n : UInt32} (h : 0 < (s.countOf n).toNat) : ∃ m, s.byUid = some m := by
  cases hm : s.byUid with
  | none =>
    unfold countOf at h
    rw [hm] at h
    exact absurd h (Nat.lt_irrefl 0)
  | some m => exact ⟨m, rfl⟩

/-- A linked connection is taken out of the counts, and no assertion fails. -/
theorem detachServer_eq (h : s.Linked myself) (hv : v ∈ s.connections) : s.detachServer v = some (s.unlink v) := by
  have hpos : s.nConnections > 0 := pos_of_mem h hv
  unfold detachServer unlink
  rcases Bool.eq_false_or_eq_true s.accountUid with haccount | haccount
  · obtain ⟨hacquired, -, hvalid⟩ := h.acquired haccount v hv
    have hcount := countOf_pos_of_mem h haccount hv
    obtain ⟨m, hm⟩ := isSome_byUid hcount
    have hgt : s.countOf v.ucred > 0 := hcount
    rw [hacquired, hvalid, hm]
    simp only [Option.isSome_some, Bool.and_self, if_true, if_pos hgt, Option.map_some, Option.bind_some,
      if_pos hpos, if_pos haccount]
  · have hfalse : ¬ s.accountUid = true := by
      rw [haccount]
      decide
    have hcond : (s.byUid.isSome && v.ucredAcquired && uidIsValid v.ucred.toNat) = false := by
      rw [h.noTable haccount]
      rfl
    simp only [hcond, Bool.false_eq_true, if_false, Option.bind_some, if_pos hpos, if_neg hfalse]

/-- The counts are right without it. -/
theorem Linked.unlink (h : s.Linked myself) (hv : v ∈ s.connections) : (s.unlink v).Linked myself where
  count := by
    show (s.nConnections - 1).toNat = (s.connections.erase v).length
    rw [toNat_pred_of_pos (pos_of_mem h hv), length_erase_of_mem hv, h.count]
  max := Nat.le_trans (erase_sublist).length_le h.max
  byUid := by
    intro haccount uid
    have hflag : s.accountUid = true := haccount
    obtain ⟨-, hpeer, -⟩ := h.acquired hflag v hv
    have hcount := countOf_pos_of_mem h hflag hv
    obtain ⟨m, hm⟩ := isSome_byUid hcount
    have hsplit := length_ofPeer_erase hv uid
    have huids := h.byUid hflag uid
    have hvalue : (s.unlink v).countOf uid = if uid = v.ucred then s.countOf v.ucred - 1 else s.countOf uid := by
      unfold VarlinkServer.unlink
      simp only [countOf, if_pos hflag, hm, Option.map_some, Option.elim_some, Function.update_apply]
    show _ = (filter _ (s.connections.erase v)).length
    rw [hvalue]
    by_cases huid : uid = v.ucred
    · rw [if_pos huid, toNat_pred_of_pos hcount, ← huid, huids, hsplit, if_pos (by rw [huid, hpeer]),
        Nat.add_sub_cancel]
    · rw [if_neg huid, huids, hsplit, if_neg (by rw [← hpeer]; exact Ne.symm huid), Nat.add_zero]
  perUidMax := by
    intro haccount uid
    have hflag : s.accountUid = true := haccount
    have hle := h.perUidMax hflag uid
    rw [length_ofPeer_erase hv uid] at hle
    show (filter _ (s.connections.erase v)).length ≤ s.connectionsPerUidMax.toNat
    omega
  access := fun hflags w hw => h.access hflags w (mem_of_mem_erase hw)
  acquired := fun haccount w hw => h.acquired haccount w (mem_of_mem_erase hw)
  noTable := by
    intro haccount
    have hflag : s.accountUid = false := haccount
    show (if s.accountUid then _ else s.byUid) = none
    rw [hflag]
    exact h.noTable hflag

/-! ## Validation -/

/-- Whom a server with a flag admits. -/
theorem allowed_ne_false (h : s.allowed myself uid ≠ some false) (hflags : s.rootOnly = true ∨ s.myselfOnly = true) :
    s.rootOnly = true ∧ uid = 0 ∨ s.myselfOnly = true ∧ uid = myself := by
  unfold allowed at h
  cases hroot : s.rootOnly with
  | true =>
    cases hmyself : s.myselfOnly with
    | true =>
      simp only [hroot, hmyself, if_true, Option.some.injEq, decide_eq_true_eq, ne_eq, decide_eq_false_iff_not,
        not_not] at h
      rcases h with h | h
      · exact .inl ⟨rfl, h⟩
      · exact .inr ⟨rfl, h⟩
    | false =>
      simp only [hroot, hmyself, if_true, Bool.false_eq_true, if_false, ne_eq, Option.some.injEq,
        decide_eq_false_iff_not, not_not] at h
      exact .inl ⟨rfl, h⟩
  | false =>
    cases hmyself : s.myselfOnly with
    | true =>
      simp only [hroot, hmyself, if_true, Bool.false_eq_true, if_false, ne_eq, Option.some.injEq, reduceCtorEq,
        false_or, decide_eq_false_iff_not, not_not] at h
      exact .inr ⟨rfl, h⟩
    | false =>
      rw [hroot, hmyself] at hflags
      rcases hflags with hflags | hflags
      · cases hflags
      · cases hflags

/-- A connection that was validated may be linked. -/
theorem admissible_of_validateConnection (h : s.validateConnection myself uid = true) :
    s.Admissible myself ⟨true, uid, uid⟩ := by
  unfold validateConnection at h
  split_ifs at h with hallowed hmax haccount
  · rw [Bool.and_eq_true, decide_eq_true_eq] at h
    exact ⟨UInt32.not_le.mp hmax, fun _ => ⟨rfl, rfl, h.1⟩, fun _ => h.2, allowed_ne_false hallowed⟩
  · refine ⟨UInt32.not_le.mp hmax, fun htrue => absurd htrue haccount, fun htrue => absurd htrue haccount,
      allowed_ne_false hallowed⟩

/-- Either the credentials were acquired and the connection was validated, or neither happened. -/
theorem acquireUcred_eq_ok {acquired : Bool} (h : s.acquireUcred myself a = .ok (uid, acquired)) :
    (s.rootOnly || s.accountUid) = true ∧ acquired = true ∧ uid = a.peer ∧
        s.validateConnection myself uid = true ∨
      s.rootOnly = false ∧ s.accountUid = false ∧ acquired = false := by
  unfold acquireUcred at h
  by_cases hflags : (s.rootOnly || s.accountUid) = true
  · rw [if_pos hflags] at h
    simp only at h
    split at h
    · cases h
    next u hu =>
    split_ifs at h with hvalid
    cases h
    refine .inl ⟨hflags, rfl, ?_, hvalid⟩
    unfold NewConnection.peer
    cases hoverride : a.overrideUcred with
    | some uid =>
      rw [hoverride] at hu
      cases hu
      rfl
    | none =>
      rw [hoverride] at hu
      split_ifs at hu
      cases hcred : a.getpeercred with
      | some er =>
        rw [hcred] at hu
        cases hu
      | none =>
        rw [hcred] at hu
        cases hu
        rfl
  · rw [if_neg hflags] at h
    cases h
    rw [Bool.not_eq_true, Bool.or_eq_false_iff] at hflags
    exact .inr ⟨hflags.1, hflags.2, rfl⟩

/-! ## New connections -/

/-- What is not checked for a connection, or not undone, does not matter: the server looks at the peer, or
    whoever connects may and there is space, and no user who is admitted fails to be counted. -/
def Checked (myself : UInt32) (s : VarlinkServer) : ServerStep → Prop
  | .close _ => True
  | .add a =>
    a.varlinkNew = none →
      if s.rootOnly || s.accountUid then
        s.accountUid = true → ∀ ucred, s.acquireUcred myself a = .ok ucred →
          a.hashmapEnsureAllocated = none ∧ a.hashmapReplace = none
      else s.nConnections < s.connectionsMax ∧ (s.myselfOnly = true → a.peer = myself)

/-- A connection that is counted without an error. -/
theorem countConnection_eq (hv : s.Admissible myself v)
    (htable : s.accountUid = true → a.hashmapEnsureAllocated = none ∧ a.hashmapReplace = none) :
    ∃ s', s.countConnection a v.ucred = some (s', .ok ()) ∧ { s' with connections := v :: s'.connections } = s.link v := by
  unfold countConnection link
  cases haccount : s.accountUid with
  | true =>
    obtain ⟨hallocated, hreplaced⟩ := htable haccount
    obtain ⟨-, -, hvalid⟩ := hv.acquired haccount
    rw [hallocated, hreplaced]
    simp only [if_true, if_pos hvalid]
    refine ⟨_, rfl, ?_⟩
    cases hm : s.byUid with
    | none | some m =>
      unfold countOf
      rw [hm]
      rfl
  | false =>
    exact ⟨_, rfl, rfl⟩

/-- A new connection is linked, or it leaves the server as it was. -/
theorem addConnectionPair_linked (h : s.Linked myself) (hchecked : s.Checked myself (.add a)) :
    ∃ s' r, s.addConnectionPair myself a = some (s', r) ∧ s'.Linked myself := by
  unfold addConnectionPair
  cases hucred : s.acquireUcred myself a with
  | error er => exact ⟨s, _, rfl, h⟩
  | ok ucred =>
    obtain ⟨uid, acquired⟩ := ucred
    cases hnew : a.varlinkNew with
    | some er => exact ⟨s, _, rfl, h⟩
    | none =>
      have hcheck := hchecked hnew
      have hadmissible : s.Admissible myself ⟨acquired, uid, a.peer⟩ ∧
          (s.accountUid = true → a.hashmapEnsureAllocated = none ∧ a.hashmapReplace = none) := by
        rcases acquireUcred_eq_ok hucred with ⟨hflags, rfl, rfl, hvalid⟩ | ⟨hroot, haccount, rfl⟩
        · rw [if_pos hflags] at hcheck
          exact ⟨admissible_of_validateConnection hvalid, fun haccount => hcheck haccount _ hucred⟩
        · rw [if_neg (by rw [hroot, haccount]; decide)] at hcheck
          refine ⟨⟨hcheck.1, fun htrue => ?_, fun htrue => ?_, ?_⟩, fun htrue => ?_⟩
          · exact absurd htrue (by rw [haccount]; decide)
          · exact absurd htrue (by rw [haccount]; decide)
          · rintro (htrue | hmyself)
            · exact absurd htrue (by rw [hroot]; decide)
            · exact .inr ⟨hmyself, hcheck.2 hmyself⟩
          · exact absurd htrue (by rw [haccount]; decide)
      obtain ⟨hv, htable⟩ := hadmissible
      obtain ⟨s', hcount, hlink⟩ := countConnection_eq hv htable
      have hlinked := h.link hv
      simp only [hcount, Option.bind_some, hlink]
      cases hattach : (if s'.event then a.attachEvent else none) with
      | none => exact ⟨_, _, rfl, hlinked⟩
      | some er =>
        have hmem : (⟨acquired, uid, a.peer⟩ : VarlinkPeer) ∈ (s.link ⟨acquired, uid, a.peer⟩).connections :=
          mem_cons_self
        rw [detachServer_eq hlinked hmem]
        exact ⟨_, _, rfl, hlinked.unlink hmem⟩

/-! ## Runs -/

/-- A step for which everything that matters is checked. -/
def checkedStep (myself : UInt32) (s : VarlinkServer) (a : ServerStep) (s' : VarlinkServer) : Prop :=
  s.Checked myself a ∧ s.serverStep myself a = some s'

/-- A step keeps the counts right, and no assertion fails. -/
theorem serverStep_linked (h : s.Linked myself) {step : ServerStep} (hchecked : s.Checked myself step) :
    ∃ s', s.serverStep myself step = some s' ∧ s'.Linked myself := by
  cases step with
  | add a =>
    obtain ⟨s', r, hadd, hlinked⟩ := addConnectionPair_linked h hchecked
    refine ⟨s', ?_, hlinked⟩
    show (s.addConnectionPair myself a).map Prod.fst = some s'
    rw [hadd]
    rfl
  | close v =>
    unfold serverStep
    by_cases hv : v ∈ s.connections
    · simp only [if_pos hv]
      exact ⟨_, detachServer_eq h hv, h.unlink hv⟩
    · simp only [if_neg hv]
      exact ⟨s, rfl, h⟩

theorem IsNew.linked (h : s.IsNew) : s.Linked myself where
  count := by
    rw [h.count, h.noConnection]
    rfl
  max := by
    rw [h.noConnection]
    exact Nat.zero_le _
  byUid := by
    intro _ uid
    unfold countOf ofPeer
    rw [h.noUid, h.noConnection]
    rfl
  perUidMax := by
    intro _ uid
    unfold ofPeer
    rw [h.noConnection]
    exact Nat.zero_le _
  access := by
    intro _ v hv
    rw [h.noConnection] at hv
    cases hv
  acquired := by
    intro _ v hv
    rw [h.noConnection] at hv
    cases hv
  noTable := fun _ => h.noUid

/-- In every run of a new server in which everything that matters is checked (`checkedStep`), connections are
    counted, limited and of users who may connect (`Accounted`), and no assertion fails in the next step. -/
theorem accounted_of_run {s' : VarlinkServer} {steps : List ServerStep} (hnew : s.IsNew)
    (hrun : Run (checkedStep myself) s steps s') :
    s'.Accounted myself ∧ ∀ a, s'.Checked myself a → s'.serverStep myself a ≠ none := by
  have hlinked : s'.Linked myself := by
    refine hrun.invariant hnew.linked fun ht hstep => ?_
    obtain ⟨t', heq, hlinked⟩ := serverStep_linked ht hstep.1
    rw [hstep.2] at heq
    cases heq
    exact hlinked
  refine ⟨hlinked.toAccounted, fun a ha => ?_⟩
  obtain ⟨t, ht, -⟩ := serverStep_linked hlinked ha
  rw [ht]
  exact Option.some_ne_none t

/-- A server that admits just its own user, or root, and has no connections yet. -/
def sampleServer (rootOnly myselfOnly accountUid : Bool) : VarlinkServer :=
  ⟨rootOnly, myselfOnly, accountUid, 0, none, 4096, 1024, false, []⟩

/-- A connection of this user over a socket, to which nothing happens unless its user cannot be counted. -/
def sampleConnection (uid : UInt32) (replace : Option Errno) : NewConnection :=
  ⟨true, none, uid, none, none, none, replace, none⟩

/-- Root connects twice and leaves once, and somebody else tries to connect. -/
def rootTwice : List ServerStep :=
  [.add (sampleConnection 0 none), .add (sampleConnection 0 none), .close ⟨true, 0, 0⟩,
    .add (sampleConnection 1000 none)]

/-- One connection is left at a server for root that counts its users. -/
theorem accounted_of_run_root :
    ∃ s', Run (checkedStep 1000) (sampleServer true false true) rootTwice s' ∧
      s'.connections = [⟨true, 0, 0⟩] ∧ s'.nConnections = 1 ∧ s'.countOf 0 = 1 ∧ s'.countOf 1000 = 0 ∧
      s'.Accounted 1000 := by
  let one := (sampleServer true false true).link ⟨true, 0, 0⟩
  have hchecked : ∀ (s : VarlinkServer) (uid : UInt32), (s.rootOnly || s.accountUid) = true →
      s.Checked 1000 (.add (sampleConnection uid none)) :=
    fun s uid hcounts _ => (if_pos hcounts).mpr fun _ _ _ => ⟨rfl, rfl⟩
  have hfirst : checkedStep 1000 (sampleServer true false true) (.add (sampleConnection 0 none)) one :=
    ⟨hchecked _ 0 rfl, rfl⟩
  have hsecond : checkedStep 1000 one (.add (sampleConnection 0 none)) (one.link ⟨true, 0, 0⟩) :=
    ⟨hchecked _ 0 rfl, rfl⟩
  have hrun : Run (checkedStep 1000) (sampleServer true false true) rootTwice
      (((one.link ⟨true, 0, 0⟩).detachServer ⟨true, 0, 0⟩).getD one) :=
    .cons hfirst (.cons hsecond (.cons ⟨trivial, rfl⟩ (.single ⟨hchecked _ 1000 rfl, rfl⟩)))
  exact ⟨_, hrun, rfl, by decide +kernel, by decide +kernel, by decide +kernel, (accounted_of_run ⟨rfl, rfl, rfl⟩ hrun).1⟩

/-- A server that admits just its own user, root, admits another one, and a connection that could not be counted
    for its user is counted as one that there is. -/
theorem stranger_is_admitted :
    (∃ s', (sampleServer false true false).serverStep 0 (.add (sampleConnection 1000 none)) = some s' ∧
      ¬ s'.Accounted 0) ∧
    ∃ s', (sampleServer false false true).serverStep 0 (.add (sampleConnection 1000 (some ENOMEM))) = some s' ∧
      ¬ s'.Accounted 0 := by
  refine ⟨⟨_, rfl, fun h => ?_⟩, ⟨_, rfl, fun h => ?_⟩⟩
  · have haccess := h.access (.inr rfl) ⟨false, 4294967295, 1000⟩ mem_cons_self
    rcases haccess with ⟨hroot, -⟩ | ⟨-, hpeer⟩
    · cases hroot
    · exact absurd hpeer (by decide)
  · have hcount := h.count
    exact absurd hcount (by decide)

end VarlinkServer

end Elogind
