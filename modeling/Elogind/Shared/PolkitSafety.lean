/-
  Elogind.Shared.PolkitSafety

  What holds in every run of a daemon that asks polkit.

  An action is only allowed if there is a reason for it.  The code relies on polkit
  not being asked again for a call after it has denied one of its actions; a handler
  that asks for another action when it runs again makes an assertion fail.  A query
  is freed with its last clean-up, unless a reply comes in while an earlier clean-up
  is still to come: the two clean-ups become one, and a reference is lost.
-/

import Elogind.Shared.PolkitRun

namespace Elogind

open Lib

namespace Polkit

variable {s s' : Polkit} {c : BusCall} {k : PolkitAsk} {q : Ref} {v w : AsyncPolkitQuery}
  {op : Op} {ops : List Op}

/-- Before anything has happened. -/
theorem valid_start : Valid {} where
  fresh _ _ := rfl
  registered _ _ h := nomatch h
  found _ _ h := nomatch h
  refs _ _ h := nomatch h
  addrs := by
    rintro c c' (hc | ⟨q, v, hv, -⟩)
    · cases hc
    · cases hv
  ids := by
    rintro c (hc | ⟨q, v, hv, -⟩)
    · cases hc
    · cases hv
  nodup := List.nodup_nil
  busy _ _ h := nomatch h
  asked _ _ _ h := nomatch h
  authorized _ _ _ h := nomatch h
  absent _ _ _ h := nomatch h
  justified after before c k h := by cases after <;> cases h

theorem valid_of_run (h : Run Step {} ops s) : s.Valid :=
  h.invariant valid_start fun ht hstep => (step_spec ht hstep).1

/-! ## Authorization -/

/-- Whoever is allowed to go on, there is a reason for it. -/
def Authorized (s : Polkit) : Prop :=
  ∀ after before c k, s.history = after ++ .returned c k 1 :: before → Justified before c k

/-- Nothing that can happen makes an assertion fail. -/
def Asserted (s : Polkit) : Prop := ∀ op, s.Enabled op → (s.step op).isSome

/-- No handler puts a question to polkit after polkit has denied an action of its call, or
    has answered with an error. -/
def Settled (s : Polkit) : Op → Prop
  | .dispatch c asks => ∀ q v, s.registry c.addr = some q → s.query q = some v →
      ∀ before k after, asks = before ++ k :: after → (∀ k' ∈ before, v.Passes k') → v.Asks k →
        v.denied = none ∧ v.error = none
  | _ => True

/-- Steps after which no denied call is put to polkit. -/
def SettledStep (s : Polkit) (op : Op) (s' : Polkit) : Prop := s.Step op s' ∧ s.Settled op

/-- While polkit is asked, a query holds no answer other than authorizations. -/
def Clear (s : Polkit) : Prop :=
  ∀ q v, s.query q = some v → v.slot.isSome = true →
    v.denied = none ∧ v.absent = none ∧ v.error = none

theorem absent_eq_none (h : v.checkAction k = 0) : v.absent = none := by
  unfold AsyncPolkitQuery.checkAction at h
  split at h
  · cases h
  split at h
  · exact absurd h (neg_ne_zero _).1
  split at h
  · exact absurd h (neg_ne_zero _).1
  split at h
  · split at h
    · cases h
    · exact absurd h (neg_ne_zero _).1
  · next habsent => simpa using habsent

theorem clear_step (hs : s.Valid) (hclear : s.Clear) (h : s.Step op s') (hop : s.Settled op) :
    s'.Clear := by
  intro q w hw hslot
  have hstepped := (step_spec hs h).2 q w hw
  cases op with
  | arrive addr sender => exact hclear q w hstepped hslot
  | dispatch c asks =>
    cases hstepped with
    | same hu => exact hclear q w hu hslot
    | @spoiled _ v _ hq hu => exact hclear q v hu hslot
    | first k => exact ⟨rfl, rfl, rfl⟩
    | again hasks hq hu _ hbefore hk =>
      obtain ⟨hdenied, herror⟩ := hop q _ hq hu _ _ _ hasks hbefore hk
      exact ⟨hdenied, absent_eq_none hk.action, herror⟩
  | reply q₀ env reply =>
    obtain ⟨v, pk, hv, -, hreplied⟩ := hstepped
    cases hreplied with
    | other hne hu => exact hclear q w hu hslot
    | done hprocessed =>
      rw [hprocessed.slot] at hslot
      cases hslot
    | failed hprocessed =>
      replace hslot := hprocessed.slot ▸ hslot
      cases hslot
  | idle q₀ =>
    obtain ⟨v, hv, -, hcleaned⟩ := hstepped
    cases hcleaned with
    | other hne hu => exact hclear q w hu hslot
    | kept hlt => exact hclear q v hv hslot

theorem readReply_isSome {a : PolkitAction} (haction : v.action = some a)
    (hclear : v.denied = none ∧ v.absent = none ∧ v.error = none) (reply : PolkitReply) :
    (v.readReply reply).isSome := by
  obtain ⟨hdenied, habsent, herror⟩ := hclear
  unfold AsyncPolkitQuery.readReply
  rw [hdenied, habsent, herror, if_neg (by decide), haction]
  cases reply with
  | error name code copied =>
    dsimp only
    split
    · rfl
    split
    · rfl
    split <;> rfl
  | unreadable e => rfl
  | result authorized challenge =>
    dsimp only
    split
    · rfl
    split <;> rfl

theorem asyncPolkitCallback_isSome {pk : PolkitCall} (hslot : v.slot = some pk)
    {env : PolkitReplyEnv} {reply : PolkitReply}
    (hread : (AsyncPolkitQuery.readReply { v with slot := none } reply).isSome) :
    (s.asyncPolkitCallback q v env reply).isSome := by
  have hprocess : (s.processReply q v env reply).isSome := by
    obtain ⟨⟨w, r⟩, hw⟩ := Option.isSome_iff_exists.mp hread
    unfold processReply
    rw [if_neg (by rw [hslot]; exact Bool.false_ne_true), hw]
    dsimp only
    split <;> rfl
  obtain ⟨⟨t, r⟩, ht⟩ := Option.isSome_iff_exists.mp hprocess
  unfold asyncPolkitCallback
  rw [ht]
  rfl

theorem asserted_of_clear (hs : s.Valid) (hclear : s.Clear) : s.Asserted := by
  intro op henabled
  cases op with
  | arrive addr sender => rfl
  | dispatch c asks =>
    obtain ⟨hvalid, hserving⟩ := hs.dispatch henabled
    exact handle_isSome asks hvalid hserving
  | reply q env reply =>
    obtain ⟨v, pk, hv, hslot⟩ := henabled
    obtain ⟨a, haction, -⟩ := hs.asked q v pk hv hslot
    have hread : (AsyncPolkitQuery.readReply { v with slot := none } reply).isSome :=
      readReply_isSome (v := { v with slot := none }) haction
        (hclear q v hv (by rw [hslot]; rfl)) reply
    rw [step, hv]
    dsimp only
    rw [hslot]
    exact asyncPolkitCallback_isSome hslot hread
  | idle q => rfl

/-- In every run in which polkit is not asked again after a denial, whoever is allowed to
    go on has a reason for it, and no assertion fails. -/
theorem authorized_and_asserted_of_run (h : Run SettledStep {} ops s) :
    s.Authorized ∧ s.Asserted := by
  have hinv : s.Valid ∧ s.Clear := by
    apply h.invariant
    · exact ⟨valid_start, fun _ _ h => nomatch h⟩
    · rintro t t' op ⟨ht, hclear⟩ ⟨hstep, hop⟩
      exact ⟨(step_spec ht hstep).1, clear_step ht hclear hstep hop⟩
  exact ⟨hinv.1.justified, asserted_of_clear hinv.1 hinv.2⟩

section Shutdown

/-- A call that comes in first. -/
def shutdownCall : BusCall := { id := 0, addr := 0, sender := ascii ":1.7" }

def powerOff : PolkitAsk := { action := ascii "org.freedesktop.login1.power-off" }

def powerOffMultipleSessions : PolkitAsk :=
  { action := ascii "org.freedesktop.login1.power-off-multiple-sessions" }

theorem enabled_arrive (addr : Nat) (sender : Bytes) : Enabled {} (.arrive addr sender) := by
  rintro c (hc | ⟨q, v, hv, -⟩)
  · cases hc
  · cases hv

/-- Polkit is asked, and denies the action. -/
def denialOps : List Op :=
  [.arrive 0 (ascii ":1.7"), .dispatch shutdownCall [powerOff], .reply 0 {} (.result false false)]

/-- Polkit is asked and allows the action, and the call is dispatched again. -/
def consentOps : List Op :=
  [.arrive 0 (ascii ":1.7"), .dispatch shutdownCall [powerOff], .reply 0 {} (.result true false),
    .dispatch shutdownCall [powerOff]]

/-- The call may go on, and the answer of polkit is the reason. -/
theorem authorized_and_asserted_of_consent :
    ∃ s before, Run SettledStep {} consentOps s ∧ s.history = .returned shutdownCall powerOff 1 :: before ∧
      Justified before shutdownCall powerOff ∧ s.Asserted := by
  have hrun : ∃ s before, Run SettledStep {} consentOps s ∧
      s.history = .returned shutdownCall powerOff 1 :: before := by
    refine ⟨_, _, .cons ⟨⟨enabled_arrive 0 _, rfl⟩, trivial⟩ (.cons ⟨⟨List.mem_cons_self, rfl⟩, ?_⟩
      (.cons ⟨⟨⟨_, _, rfl, rfl⟩, rfl⟩, trivial⟩ (.single ⟨⟨List.mem_cons_self, rfl⟩, ?_⟩))), rfl⟩
    · intro q v hq
      cases hq
    · intro q v hq hv _ _ _ _ _ _
      cases hq
      cases hv
      exact ⟨rfl, rfl⟩
  obtain ⟨s, before, hs, hhistory⟩ := hrun
  obtain ⟨hauthorized, hasserted⟩ := authorized_and_asserted_of_run hs
  exact ⟨s, before, hs, hhistory, hauthorized [] before _ _ hhistory, hasserted⟩

/-- Another session has come up when the call is dispatched again. -/
theorem not_asserted_after_denial :
    ¬∀ ops s, Run Step {} ops s → s.Authorized ∧ s.Asserted := by
  intro h
  have hrun : ∃ s, Run Step {}
      (denialOps ++ [.dispatch shutdownCall [powerOffMultipleSessions]]) s ∧
      s.Enabled (.reply 0 {} (.result true false)) ∧
      s.step (.reply 0 {} (.result true false)) = none := by
    refine ⟨_, .cons ⟨enabled_arrive 0 _, rfl⟩ (.cons ⟨List.mem_cons_self, rfl⟩
      (.cons ⟨⟨_, _, rfl, rfl⟩, rfl⟩ (.single ⟨List.mem_cons_self, rfl⟩))), ⟨_, _, rfl, rfl⟩, rfl⟩
  obtain ⟨s, hs, henabled, hnone⟩ := hrun
  have hsome := (h _ s hs).2 _ henabled
  rw [hnone] at hsome
  cases hsome

end Shutdown

/-! ## References -/

/-- Every query has one reference for a polkit call that is outstanding, and one for a
    clean-up that is to come. -/
def Counted (s : Polkit) : Prop :=
  ∀ q v, s.query q = some v → v.nRef = v.slot.isSome.toNat + v.deferEnabled.toNat

/-- A query is only freed by the reply or the clean-up that is the last one to use it. -/
def FreedLast (s : Polkit) : Prop :=
  ∀ op s' q v, s.Step op s' → s.query q = some v → s'.query q = none →
    (∃ env reply, op = .reply q env reply ∧ v.deferEnabled = false) ∨ op = .idle q ∧ v.slot = none

/-- When the loop is idle and no polkit call is outstanding, the registry is empty. -/
def EmptyWhenIdle (s : Polkit) : Prop :=
  (∀ q v, s.query q = some v → v.slot = none ∧ v.deferEnabled = false) → ∀ p, s.registry p = none

/-- No reply is processed successfully while an earlier clean-up of the query is still to
    come. -/
def CleanedUp (s : Polkit) : Op → Prop
  | .reply q env reply => ∀ v, s.query q = some v → v.deferEnabled = true →
      ¬(reply.Readable ∧ env.Ready)
  | _ => True

/-- Steps after which every clean-up is its own. -/
def CleanedUpStep (s : Polkit) (op : Op) (s' : Polkit) : Prop := s.Step op s' ∧ s.CleanedUp op

theorem counted_step (hs : s.Valid) (hcounted : s.Counted) (h : s.Step op s')
    (hop : s.CleanedUp op) : s'.Counted := by
  intro q w hw
  have hstepped := (step_spec hs h).2 q w hw
  cases op with
  | arrive addr sender => exact hcounted q w hstepped
  | dispatch c asks =>
    cases hstepped with
    | same hu => exact hcounted q w hu
    | @spoiled _ v _ hq hu => exact hcounted q v hu
    | first k => rfl
    | @again _ _ _ _ v hasks hq hu haction hbefore hk =>
      have href := hcounted q v hu
      rw [hs.slot_eq_none hu haction] at href
      show v.nRef + 1 = 1 + v.deferEnabled.toNat
      replace href : v.nRef = 0 + v.deferEnabled.toNat := href
      omega
  | reply q₀ env reply =>
    obtain ⟨v, pk, hv, hslot, hreplied⟩ := hstepped
    have href := hcounted q₀ v hv
    rw [hslot] at href
    replace href : v.nRef = 1 + v.deferEnabled.toNat := href
    cases hreplied with
    | other hne hu => exact hcounted q w hu
    | done hprocessed hr hreadable hready =>
      have hoff : v.deferEnabled = false := by
        cases hon : v.deferEnabled with
        | false => rfl
        | true => exact absurd ⟨hreadable, hready⟩ (hop v hv hon)
      rw [hprocessed.nRef, hprocessed.slot, hprocessed.deferred (.inr hr), href, hoff]
      rfl
    | @failed _ w hprocessed hr hlt =>
      rw [hprocessed.nRef, href] at hlt
      have hon : v.deferEnabled = true := by
        cases hon : v.deferEnabled with
        | false =>
          rw [hon] at hlt
          exact absurd hlt (by decide)
        | true => rfl
      show w.nRef - 1 = w.slot.isSome.toNat + w.deferEnabled.toNat
      rw [hprocessed.nRef, hprocessed.slot, hprocessed.deferred (.inl hon), href, hon]
      rfl
  | idle q₀ =>
    obtain ⟨v, hv, hon, hcleaned⟩ := hstepped
    cases hcleaned with
    | other hne hu => exact hcounted q w hu
    | kept hlt =>
      have href := hcounted q v hv
      rw [hon] at href
      show v.nRef - 1 = v.slot.isSome.toNat + 0
      replace href : v.nRef = v.slot.isSome.toNat + 1 := href
      omega

theorem emptyWhenIdle_of_counted (hs : s.Valid) (hcounted : s.Counted) : s.EmptyWhenIdle := by
  intro hidle p
  cases hp : s.registry p with
  | none => rfl
  | some q =>
    obtain ⟨v, hv, -⟩ := hs.found p q hp
    obtain ⟨hslot, hoff⟩ := hidle q v hv
    have hpos := (hs.refs q v hv).1
    rw [hcounted q v hv, hslot, hoff] at hpos
    exact absurd hpos (by decide)

theorem freedLast_of_valid (hs : s.Valid) : s.FreedLast := by
  rintro op s' q v ⟨henabled, hstep⟩ hv hfree
  have hrefs := (hs.refs q v hv).2
  cases op with
  | arrive addr sender =>
    cases hstep
    replace hfree : s.query q = none := hfree
    rw [hv] at hfree
    cases hfree
  | dispatch c asks =>
    -- a dispatch keeps the queries that exist
    obtain ⟨hvalid, hserving⟩ := hs.dispatch henabled
    have hkept := (handle_spec hvalid hserving hstep).2.2 q (by
      show (s.query q).isSome
      rw [hv]
      rfl)
    rw [hfree] at hkept
    cases hkept
  | reply q₀ env reply =>
    obtain ⟨v₀, pk, hv₀, hslot⟩ := henabled
    rw [step, hv₀] at hstep
    dsimp only at hstep
    rw [hslot] at hstep
    dsimp only at hstep
    unfold asyncPolkitCallback at hstep
    split at hstep
    · cases hstep
    next t r ht =>
    obtain ⟨w, hw, -, rfl⟩ := processReply_spec ht
    have hat : Function.update s.query q₀ (some w) q₀ = some w := Function.update_self ..
    have hthere : ∃ u, Function.update s.query q₀ (some w) q = some u := by
      by_cases hq : q = q₀
      · rw [hq]
        exact ⟨w, hat⟩
      · rw [Function.update_of_ne hq]
        exact ⟨v, hv⟩
    obtain ⟨u, hu⟩ := hthere
    cases hstep
    split at hfree
    · -- the reply drops a reference, the last one if no clean-up is enabled
      obtain ⟨rfl, hlast⟩ := freed_queryUnref hat hu hfree
      rw [hv] at hv₀
      cases hv₀
      refine .inl ⟨env, reply, rfl, ?_⟩
      rw [hw.nRef] at hlast
      rw [hslot] at hrefs
      cases hon : v.deferEnabled with
      | false => rfl
      | true =>
        rw [hon] at hrefs
        replace hrefs : 2 ≤ v.nRef := hrefs
        omega
    · replace hfree : Function.update s.query q₀ (some w) q = none := hfree
      rw [hu] at hfree
      cases hfree
  | idle q₀ =>
    obtain ⟨v₀, hv₀, hon⟩ := henabled
    cases hstep
    have hat := query_modify_self hv₀ fun v => { v with deferEnabled := false }
    have hthere := isSome_query_modify s q₀ q fun v => { v with deferEnabled := false }
    rw [hv] at hthere
    obtain ⟨u, hu⟩ := Option.isSome_iff_exists.mp hthere
    obtain ⟨rfl, hlast⟩ := freed_queryUnref hat hu hfree
    rw [hv] at hv₀
    cases hv₀
    refine .inr ⟨rfl, ?_⟩
    rw [hon] at hrefs
    replace hlast : v.nRef ≤ 1 := hlast
    cases hslot : v.slot with
    | none => rfl
    | some pk =>
      rw [hslot] at hrefs
      replace hrefs : 2 ≤ v.nRef := hrefs
      omega

/-- In every run in which no reply is processed while an earlier clean-up is still to
    come, references are counted, queries are freed with the last one, and the registry
    is empty when the loop is idle. -/
theorem references_of_run (h : Run CleanedUpStep {} ops s) :
    s.Counted ∧ s.FreedLast ∧ s.EmptyWhenIdle := by
  have hinv : s.Valid ∧ s.Counted := by
    apply h.invariant
    · exact ⟨valid_start, fun _ _ h => nomatch h⟩
    · rintro t t' op ⟨ht, hcounted⟩ ⟨hstep, hop⟩
      exact ⟨(step_spec ht hstep).1, counted_step ht hcounted hstep hop⟩
  exact ⟨hinv.2, freedLast_of_valid hinv.1, emptyWhenIdle_of_counted hinv.1 hinv.2⟩

theorem references_of_denial :
    ∃ s, Run CleanedUpStep {} denialOps s ∧ s.Counted ∧ s.FreedLast ∧ s.EmptyWhenIdle := by
  have hrun : ∃ s, Run CleanedUpStep {} denialOps s := by
    refine ⟨_, .cons ⟨⟨enabled_arrive 0 _, rfl⟩, trivial⟩ (.cons ⟨⟨List.mem_cons_self, rfl⟩, trivial⟩
      (.single ⟨⟨⟨_, _, rfl, rfl⟩, rfl⟩, ?_⟩))⟩
    intro v hv hon
    cases hv
    cases hon
  obtain ⟨s, hs⟩ := hrun
  exact ⟨s, hs, references_of_run hs⟩

/-- The second action of a call is authorized before the loop is idle. -/
theorem not_emptyWhenIdle :
    ¬∀ ops s, Run Step {} ops s → s.Counted ∧ s.FreedLast ∧ s.EmptyWhenIdle := by
  intro h
  have hrun : ∃ s v, Run Step {}
      [.arrive 0 (ascii ":1.7"), .dispatch shutdownCall [powerOffMultipleSessions, powerOff],
        .reply 0 {} (.result true false),
        .dispatch shutdownCall [powerOffMultipleSessions, powerOff],
        .reply 0 {} (.result true false),
        .dispatch shutdownCall [powerOffMultipleSessions, powerOff], .idle 0] s ∧
      s.registry 0 = some 0 ∧ s.next = 1 ∧
      s.query 0 = some v ∧ v.slot = none ∧ v.deferEnabled = false := by
    refine ⟨_, _, .cons ⟨enabled_arrive 0 _, rfl⟩ (.cons ⟨List.mem_cons_self, rfl⟩
      (.cons ⟨⟨_, _, rfl, rfl⟩, rfl⟩ (.cons ⟨List.mem_cons_self, rfl⟩
        (.cons ⟨⟨_, _, rfl, rfl⟩, rfl⟩ (.cons ⟨List.mem_cons_self, rfl⟩
          (.single ⟨⟨_, rfl, rfl⟩, rfl⟩)))))), rfl, rfl, rfl, rfl, rfl⟩
  obtain ⟨s, v, hs, hregistry, hnext, hv, hslot, hoff⟩ := hrun
  have hidle : ∀ q v, s.query q = some v → v.slot = none ∧ v.deferEnabled = false := by
    intro q u hu
    -- there is no other query
    have hq : q = 0 := by
      by_contra hne
      have hfresh := (valid_of_run hs).fresh q (by rw [hnext]; exact Nat.pos_of_ne_zero hne)
      rw [hu] at hfresh
      cases hfresh
    rw [hq, hv] at hu
    cases hu
    exact ⟨hslot, hoff⟩
  have hempty := (h _ s hs).2.2 hidle 0
  rw [hregistry] at hempty
  cases hempty

end Polkit

end Elogind
