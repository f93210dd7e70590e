/-
  Elogind.Shared.PolkitValid

  What holds of the queries to polkit in every state: the registry finds the query
  of a call and no other, a query has the answers that polkit has given for its
  call, and it is not dropped while it is needed.
-/

import Elogind.Shared.Polkit

namespace Elogind

open Function

namespace Polkit

variable {s s' : Polkit} {c : BusCall} {k : PolkitAsk} {q : Ref} {v : AsyncPolkitQuery} {r : Int}

/-! ## References -/

theorem modify_of_some (h : s.query q = some v) (f : AsyncPolkitQuery → AsyncPolkitQuery) :
    s.modify q f = { s with query := Function.update s.query q (some (f v)) } := by
  unfold modify
  rw [h]
  rfl

theorem query_modify_self (h : s.query q = some v) (f : AsyncPolkitQuery → AsyncPolkitQuery) :
    (s.modify q f).query q = some (f v) := by
  rw [modify_of_some h]
  exact update_self ..

theorem isSome_query_modify (s : Polkit) (q q' : Ref) (f : AsyncPolkitQuery → AsyncPolkitQuery) :
    ((s.modify q f).query q').isSome = (s.query q').isSome := by
  show (update s.query q _ q').isSome = _
  by_cases hq : q' = q
  · rw [hq, update_self, Option.isSome_map]
  · rw [update_of_ne hq]

/-- Changes to the same query add up. -/
theorem modify_modify (s : Polkit) (q : Ref) (f g : AsyncPolkitQuery → AsyncPolkitQuery) :
    (s.modify q f).modify q g = s.modify q fun v => g (f v) := by
  unfold modify
  simp only [update_self, update_idem, Option.map_map]
  rfl

theorem modify_eq_self (h : s.query q = some v) {f : AsyncPolkitQuery → AsyncPolkitQuery}
    (hf : f v = v) : s.modify q f = s := by
  rw [modify_of_some h, hf, ← h, update_eq_self]

/-- A reference is dropped while there is another one. -/
theorem queryUnref_of_lt (h : s.query q = some v) (href : 1 < v.nRef) :
    s.queryUnref q = s.modify q fun v => { v with nRef := v.nRef - 1 } := by
  rw [queryUnref, h]
  exact if_neg (by omega)

/-- The last reference is dropped. -/
theorem queryUnref_of_le (h : s.query q = some v) (href : v.nRef ≤ 1) :
    s.queryUnref q = s.queryFree q v := by
  rw [queryUnref, h]
  exact if_pos href

/-- A reference that was taken is dropped again. -/
theorem queryUnref_queryRef (h : s.query q = some v) (hpos : 0 < v.nRef) :
    (s.queryRef q).queryUnref q = s := by
  have hq := query_modify_self h fun v => { v with nRef := v.nRef + 1 }
  unfold queryRef
  rw [queryUnref_of_lt hq (Nat.lt_add_of_pos_left hpos), modify_modify]
  exact modify_eq_self h rfl

/-- The query is left with an action that polkit is not asked for. -/
theorem queryUnref_action (h : s.query q = some v) (hpos : 0 < v.nRef) (a : PolkitAction) :
    ((s.queryRef q).modify q fun v => { v with action := some a }).queryUnref q =
      s.modify q fun v => { v with action := some a } := by
  unfold queryRef
  rw [modify_modify]
  have hq := query_modify_self h fun v => { v with nRef := v.nRef + 1, action := some a }
  rw [queryUnref_of_lt hq (Nat.lt_add_of_pos_left hpos), modify_modify]
  rfl

/-! ## What a verification can do -/

/-- The reasons for which an action is allowed. -/
def Allows (s : Polkit) (c : BusCall) (k : PolkitAsk) : Prop :=
  k.IsGoodUser ∨ (k.alwaysQuery = false ∧ k.privilege = .ok true) ∨
    ∃ q v, s.registry c.addr = some q ∧ s.query q = some v ∧
      ((∃ a ∈ v.authorized, a.action = k.action ∧ a.details = k.details) ∨
        v.absent.isSome = true ∧ k.defaultAllow = true)

/-- The state with one more query. -/
def withQuery (s : Polkit) (w : AsyncPolkitQuery) (registry : Nat → Option Ref) : Polkit :=
  { s with
    next := s.next + 1
    query := Function.update s.query s.next (some w)
    registry := registry }

/-- The query with which polkit is asked for the first time. -/
def firstQuery (c : BusCall) (k : PolkitAsk) : AsyncPolkitQuery :=
  { request := c, action := some k.what, slot := some (k.polkitCall c), registered := true }

/-- What `bus_verify_polkit_async_full` does and returns. -/
inductive Verified (s : Polkit) (c : BusCall) (k : PolkitAsk) : Polkit → Int → Prop where
  /-- Nothing is changed. -/
  | kept {r : Int} {n : Ref} (hn : s.next ≤ n) (hr : r ≠ 0)
      (hone : r = 1 → s.Allows c k ∧
        ∀ q v, s.registry c.addr = some q → s.query q = some v → v.Passes k) :
      Verified s c k { s with next := n } r
  /-- It fails, and leaves an action that polkit is not asked for. -/
  | spoiled {q : Ref} {r : Int} (hq : s.registry c.addr = some q) (hr : r < 0) :
      Verified s c k (s.modify q fun v => { v with action := some k.what }) r
  /-- Polkit is asked for the first time. -/
  | first (hnone : s.registry c.addr = none) :
      Verified s c k
        (s.withQuery (firstQuery c k) (Function.update s.registry c.addr (some s.next))) 0
  /-- Polkit is asked again. -/
  | again {q : Ref} {v : AsyncPolkitQuery} (hq : s.registry c.addr = some q)
      (hv : s.query q = some v) (haction : v.action = none) (hasks : v.Asks k) :
      Verified s c k (s.modify q fun v => { v with
        nRef := v.nRef + 1, action := some k.what, slot := some (k.polkitCall c) }) 0

/-- The registry and the references are in order. -/
structure Sound (s : Polkit) : Prop where
  fresh : ∀ q, s.next ≤ q → s.query q = none
  registered : ∀ q v, s.query q = some v → v.registered = true ∧ s.registry v.request.addr = some q
  found : ∀ p q, s.registry p = some q → ∃ v, s.query q = some v ∧ v.request.addr = p
  refs : ∀ q v, s.query q = some v →
    0 < v.nRef ∧ v.slot.isSome.toNat + v.deferEnabled.toNat ≤ v.nRef

theorem neg_ne_zero (e : Errno) : e.neg ≠ 0 ∧ e.neg ≠ 1 := by
  have h := e.neg_lt_zero
  omega

theorem checkGoodUser_eq_one (h : k.checkGoodUser = 1) : k.IsGoodUser := by
  unfold PolkitAsk.checkGoodUser at h
  split at h
  · cases h
  · next uid huid =>
    split at h
    · next e _ => exact absurd h (neg_ne_zero e).2
    · exact absurd h (neg_ne_zero _).2
    · next e _ => exact absurd h (neg_ne_zero e).2
    · next euid hcreds =>
      split at h
      · next heq =>
        subst heq
        exact ⟨_, huid, hcreds⟩
      · cases h

theorem checkPrivilege_eq_one (h : k.checkPrivilege = 1) :
    k.alwaysQuery = false ∧ k.privilege = .ok true := by
  unfold PolkitAsk.checkPrivilege at h
  split at h
  · cases h
  · next halways =>
    refine ⟨by simpa using halways, ?_⟩
    split at h
    · next e _ => exact absurd h (neg_ne_zero e).2
    · next hpriv => exact hpriv
    · cases h

theorem checkCall_ne_one : k.checkCall ≠ 1 := by
  unfold PolkitAsk.checkCall
  split
  · exact (neg_ne_zero _).2
  split
  · exact (neg_ne_zero _).2
  · decide

theorem checkAction_eq_one (h : v.checkAction k = 1) :
    (∃ a ∈ v.authorized, a.action = k.action ∧ a.details = k.details) ∨
      v.absent.isSome = true ∧ k.defaultAllow = true := by
  unfold AsyncPolkitQuery.checkAction at h
  split at h
  · next hany => exact .inl (by simpa using hany)
  split at h
  · exact absurd h (neg_ne_zero _).2
  split at h
  · exact absurd h (neg_ne_zero _).2
  split at h
  · next habsent =>
    split at h
    · next hallow => exact .inr ⟨habsent, hallow⟩
    · exact absurd h (neg_ne_zero _).2
  · cases h

/-- Asking polkit for a call that already has a query. -/
theorem askPolkit_again (hs : s.Sound) (hq : s.registry c.addr = some q) (hv : s.query q = some v)
    (hgood : k.checkGoodUser = 0) (hcheck : v.checkAction k = 0) (hpriv : k.checkPrivilege = 0)
    (hcall : k.checkCall = 0) (h : (s.queryRef q).askPolkit c k q = some (s', r)) :
    Verified s c k s' r := by
  have hpos := (hs.refs q v hv).1
  have hv' : (s.queryRef q).query q = some { v with nRef := v.nRef + 1 } := query_modify_self hv _
  unfold askPolkit at h
  rw [hv'] at h
  dsimp only at h
  split at h
  · cases h
  next haction =>
  split at h
  · rw [queryUnref_queryRef hv hpos] at h
    cases h
    exact .kept (Nat.le_refl _) (neg_ne_zero _).1 fun h => absurd h (neg_ne_zero _).2
  next hallocated =>
  split at h
  · rw [queryUnref_action hv hpos] at h
    cases h
    exact .spoiled hq (Errno.neg_lt_zero _)
  next hstrings =>
  rw [register, (hs.registered q v hv).1, if_pos rfl] at h
  dsimp only at h
  split at h
  · rw [queryUnref_action hv hpos] at h
    cases h
    exact .spoiled hq (Errno.neg_lt_zero _)
  · next hasync =>
    unfold queryRef at h
    rw [modify_modify, modify_modify] at h
    cases h
    exact .again hq hv (by simpa using haction)
      ⟨hgood, hcheck, hpriv, hcall, by simpa using hallocated, by simpa using hstrings, hasync⟩

theorem query_withQuery (s : Polkit) (w : AsyncPolkitQuery) (registry : Nat → Option Ref) :
    (s.withQuery w registry).query s.next = some w := update_self ..

theorem modify_withQuery (s : Polkit) (w : AsyncPolkitQuery) (registry : Nat → Option Ref)
    (f : AsyncPolkitQuery → AsyncPolkitQuery) :
    (s.withQuery w registry).modify s.next f = s.withQuery (f w) registry := by
  rw [modify_of_some (query_withQuery s w registry)]
  unfold withQuery
  rw [update_idem]

/-- A query that was made in vain is gone again. -/
theorem queryUnref_withQuery (hs : s.Sound) {w : AsyncPolkitQuery} (hreq : w.request = c)
    (hone : w.nRef = 1) {registry : Nat → Option Ref}
    (hreg : (if w.registered then Function.update registry c.addr none else registry) = s.registry) :
    (s.withQuery w registry).queryUnref s.next = { s with next := s.next + 1 } := by
  rw [queryUnref_of_le (query_withQuery s w registry) (Nat.le_of_eq hone)]
  unfold queryFree withQuery
  rw [hreq, hreg, update_idem, ← hs.fresh s.next (Nat.le_refl _), update_eq_self]

/-- Asking polkit for a call that has no query yet. -/
theorem askPolkit_first (hs : s.Sound) (hnone : s.registry c.addr = none)
    (h : (s.queryNew c).1.askPolkit c k (s.queryNew c).2 = some (s', r)) :
    Verified s c k s' r := by
  have hkept : ∀ e : Errno, Verified s c k { s with next := s.next + 1 } e.neg := fun e =>
    .kept (Nat.le_succ _) (neg_ne_zero e).1 fun h => absurd h (neg_ne_zero e).2
  replace h : (s.withQuery { request := c } s.registry).askPolkit c k s.next = some (s', r) := h
  unfold askPolkit at h
  rw [query_withQuery] at h
  dsimp only at h
  rw [if_neg (by simp)] at h
  split at h
  · rw [queryUnref_withQuery hs rfl rfl rfl] at h
    cases h
    exact hkept _
  rw [modify_withQuery] at h
  split at h
  · rw [queryUnref_withQuery hs rfl rfl rfl] at h
    cases h
    exact hkept _
  rw [register, if_neg (by simp)] at h
  cases hput : k.put with
  | error e =>
    rw [hput] at h
    rw [queryUnref_withQuery hs rfl rfl rfl] at h
    cases h
    exact hkept _
  | ok u =>
    rw [hput, modify_withQuery] at h
    have hempty : update (update s.registry c.addr (some s.next)) c.addr none =
        s.registry := by
      rw [update_idem, ← hnone, update_eq_self]
    cases hcall : k.callAsync with
    | error e =>
      rw [hcall] at h
      replace h : some ((s.withQuery { request := c, action := some k.what, registered := true }
          (update s.registry c.addr (some s.next))).queryUnref s.next, e.neg) =
          some (s', r) := h
      let w : AsyncPolkitQuery := { request := c, action := some k.what, registered := true }
      rw [queryUnref_withQuery (w := w) hs rfl rfl hempty] at h
      cases h
      exact hkept _
    | ok u =>
      rw [hcall] at h
      replace h : some ((s.withQuery { request := c, action := some k.what, registered := true }
          (update s.registry c.addr (some s.next))).modify s.next fun v =>
            { v with slot := some (k.polkitCall c) }, 0) = some (s', r) := h
      rw [modify_withQuery] at h
      cases h
      exact .first hnone

/-- What a verification does. -/
theorem verified (hs : s.Sound) (h : s.busVerifyPolkitAsyncFull c k = some (s', r)) :
    Verified s c k s' r := by
  have hself : ∀ {r : Int}, r ≠ 0 → (r = 1 → s.Allows c k ∧
      ∀ q v, s.registry c.addr = some q → s.query q = some v → v.Passes k) →
      Verified s c k s r := fun hr hone => .kept (n := s.next) (Nat.le_refl _) hr hone
  unfold busVerifyPolkitAsyncFull at h
  split at h
  · next hgood =>
    cases h
    exact hself hgood fun h => ⟨.inl (checkGoodUser_eq_one h), fun _ _ _ _ => .inl h⟩
  next hgood =>
  replace hgood := not_not.mp hgood
  split at h
  · next q hq =>
    obtain ⟨v, hv, -⟩ := hs.found _ q hq
    have hpos := (hs.refs q v hv).1
    have hv' : (s.queryRef q).query q = some { v with nRef := v.nRef + 1 } := query_modify_self hv _
    have hcheck : AsyncPolkitQuery.checkAction { v with nRef := v.nRef + 1 } k = v.checkAction k := rfl
    -- the query of the call is this one
    have hthe : v.Passes k →
        ∀ q' v', s.registry c.addr = some q' → s.query q' = some v' → v'.Passes k := by
      intro hpasses q' v' hq' hv'
      rw [hq] at hq'
      cases hq'
      rw [hv] at hv'
      cases hv'
      exact hpasses
    dsimp only at h
    rw [hv'] at h
    dsimp only at h
    rw [hcheck, queryUnref_queryRef hv hpos] at h
    split at h
    · next hanswer =>
      cases h
      exact hself hanswer fun h => ⟨.inr (.inr ⟨q, v, hq, hv, checkAction_eq_one h⟩),
        hthe (.inr ⟨hgood, .inl h⟩)⟩
    next hanswer =>
    replace hanswer := not_not.mp hanswer
    split at h
    · next hpriv =>
      cases h
      exact hself hpriv fun h => ⟨.inr (.inl (checkPrivilege_eq_one h)),
        hthe (.inr ⟨hgood, .inr ⟨hanswer, h⟩⟩)⟩
    next hpriv =>
    split at h
    · next hcall =>
      cases h
      exact hself hcall fun h => absurd h checkCall_ne_one
    next hcall =>
    exact askPolkit_again hs hq hv hgood hanswer (not_not.mp hpriv) (not_not.mp hcall) h
  · next hnone =>
    split at h
    · next hpriv =>
      cases h
      refine hself hpriv fun h => ⟨.inr (.inl (checkPrivilege_eq_one h)), ?_⟩
      intro q v hq
      rw [hnone] at hq
      cases hq
    split at h
    · next hcall =>
      cases h
      exact hself hcall fun h => absurd h checkCall_ne_one
    split at h
    · cases h
      exact hself (neg_ne_zero _).1 fun h => absurd h (neg_ne_zero _).2
    · exact askPolkit_first hs hnone h

theorem askPolkit_isSome (hv : s.query q = some v) (haction : v.action = none) :
    (s.askPolkit c k q).isSome := by
  unfold askPolkit
  rw [hv]
  simp only [haction, Option.isSome_none, Bool.false_eq_true, if_false]
  split
  · rfl
  split
  · rfl
  split
  · rfl
  split <;> rfl

/-- No assertion fails if the query of the call has no action. -/
theorem busVerifyPolkitAsyncFull_isSome (hs : s.Sound)
    (haction : ∀ q v, s.registry c.addr = some q → s.query q = some v → v.action = none) :
    (s.busVerifyPolkitAsyncFull c k).isSome := by
  unfold busVerifyPolkitAsyncFull
  split
  · rfl
  split
  · next q hq =>
    obtain ⟨v, hv, -⟩ := hs.found _ q hq
    have hv' : (s.queryRef q).query q = some { v with nRef := v.nRef + 1 } := query_modify_self hv _
    dsimp only
    rw [hv']
    dsimp only
    split
    · rfl
    split
    · rfl
    split
    · rfl
    exact askPolkit_isSome hv' (haction q v hq hv)
  · split
    · rfl
    split
    · rfl
    split
    · rfl
    exact askPolkit_isSome (v := { request := c }) (update_self ..) rfl

/-! ## The invariant -/

/-- Polkit has answered a query that was made for the call, in the name of its sender,
    for the action. -/
def Answered (history : List PolkitEvent) (c : BusCall) (a : PolkitAction)
    (P : PolkitReply → Prop) : Prop :=
  ∃ pk reply, PolkitEvent.answered c pk reply ∈ history ∧ P reply ∧ pk.subject = c.sender ∧
    pk.action = a.action ∧ pk.details = PolkitAsk.strvPairs a.details

/-- The call may go on with what it asks for. -/
def Justified (history : List PolkitEvent) (c : BusCall) (k : PolkitAsk) : Prop :=
  k.IsGoodUser ∨ (k.alwaysQuery = false ∧ k.privilege = .ok true) ∨
    Answered history c k.what PolkitReply.Authorizes ∨
    k.defaultAllow = true ∧ ∃ a, Answered history c a PolkitReply.TellsAbsence

/-- What holds in every state. -/
structure Valid (s : Polkit) : Prop extends Sound s where
  /-- The messages of different calls are at different addresses. -/
  addrs : ∀ c c', s.Held c → s.Held c' → c.addr = c'.addr → c = c'
  ids : ∀ c, s.Held c → c.id < s.nextCall
  nodup : s.queue.Nodup
  /-- A call is not dispatched while polkit is asked. -/
  busy : ∀ q v, s.query q = some v → v.action.isSome = true → v.request ∉ s.queue
  asked : ∀ q v pk, s.query q = some v → v.slot = some pk → ∃ a, v.action = some a ∧
    pk.subject = v.request.sender ∧ pk.action = a.action ∧
    pk.details = PolkitAsk.strvPairs a.details
  authorized : ∀ q v a, s.query q = some v → a ∈ v.authorized →
    Answered s.history v.request a PolkitReply.Authorizes
  absent : ∀ q v a, s.query q = some v → v.absent = some a →
    Answered s.history v.request a PolkitReply.TellsAbsence
  justified : ∀ after before c k, s.history = after ++ .returned c k 1 :: before →
    Justified before c k

/-- No polkit call is outstanding if there is no action. -/
theorem Valid.slot_eq_none (hs : s.Valid) (hv : s.query q = some v) (haction : v.action = none) :
    v.slot = none := by
  cases hslot : v.slot with
  | none => rfl
  | some pk =>
    obtain ⟨a, ha, -⟩ := hs.asked q v pk hv hslot
    rw [haction] at ha
    cases ha

theorem Answered.cons {history : List PolkitEvent} {a : PolkitAction} {P : PolkitReply → Prop}
    (h : Answered history c a P) (e : PolkitEvent) : Answered (e :: history) c a P := by
  obtain ⟨pk, reply, hmem, hrest⟩ := h
  exact ⟨pk, reply, List.mem_cons_of_mem e hmem, hrest⟩

/-- Something has happened. -/
theorem Valid.log (hs : s.Valid) {e : PolkitEvent}
    (he : ∀ c k, e = .returned c k 1 → Justified s.history c k) :
    Valid { s with history := e :: s.history } where
  toSound := ⟨hs.fresh, hs.registered, hs.found, hs.refs⟩
  addrs := hs.addrs
  ids := hs.ids
  nodup := hs.nodup
  busy := hs.busy
  asked := hs.asked
  authorized q v a hv ha := (hs.authorized q v a hv ha).cons e
  absent q v a hv ha := (hs.absent q v a hv ha).cons e
  justified after before c k h := by
    cases after with
    | nil =>
      cases h
      exact he c k rfl
    | cons e' after => exact hs.justified after before c k (List.cons.inj h).2

/-- A query is changed. -/
theorem Valid.update (hs : s.Valid) (hv : s.query q = some v) {w : AsyncPolkitQuery}
    (hreq : w.request = v.request) (hreg : w.registered = true)
    (hrefs : 0 < w.nRef ∧ w.slot.isSome.toNat + w.deferEnabled.toNat ≤ w.nRef)
    (hbusy : w.action.isSome = true → v.request ∉ s.queue)
    (hasked : ∀ pk, w.slot = some pk → ∃ a, w.action = some a ∧ pk.subject = v.request.sender ∧
      pk.action = a.action ∧ pk.details = PolkitAsk.strvPairs a.details)
    (hauth : ∀ a ∈ w.authorized, Answered s.history v.request a PolkitReply.Authorizes)
    (habsent : ∀ a, w.absent = some a → Answered s.history v.request a PolkitReply.TellsAbsence) :
    Valid { s with query := Function.update s.query q (some w) } := by
  -- the other queries are as they were
  have hcases : ∀ q' v', Function.update s.query q (some w) q' = some v' →
      q' = q ∧ v' = w ∨ q' ≠ q ∧ s.query q' = some v' := by
    intro q' v' h
    by_cases hq : q' = q
    · subst hq
      rw [Function.update_self] at h
      exact .inl ⟨rfl, (Option.some.inj h).symm⟩
    · rw [Function.update_of_ne hq] at h
      exact .inr ⟨hq, h⟩
  have hheld : ∀ c, Held { s with query := Function.update s.query q (some w) } c → s.Held c := by
    rintro c (hc | ⟨q', v', hv', rfl⟩)
    · exact .inl hc
    · obtain ⟨-, rfl⟩ | ⟨-, hv'⟩ := hcases q' v' hv'
      · exact .inr ⟨q, v, hv, hreq.symm⟩
      · exact .inr ⟨q', v', hv', rfl⟩
  refine ⟨⟨?_, ?_, ?_, ?_⟩, ?_, ?_, hs.nodup, ?_, ?_, ?_, ?_, hs.justified⟩
  · intro q' hq'
    have hne : q' ≠ q := by
      rintro rfl
      rw [hs.fresh q' hq'] at hv
      cases hv
    exact (Function.update_of_ne hne _ _).trans (hs.fresh q' hq')
  · intro q' v' h
    obtain ⟨rfl, rfl⟩ | ⟨-, h⟩ := hcases q' v' h
    · rw [hreq]
      exact ⟨hreg, (hs.registered q' v hv).2⟩
    · exact hs.registered q' v' h
  · intro p q' hp
    obtain ⟨v', hv', haddr⟩ := hs.found p q' hp
    by_cases hq : q' = q
    · subst hq
      rw [hv] at hv'
      cases hv'
      exact ⟨w, Function.update_self .., by rw [hreq]; exact haddr⟩
    · exact ⟨v', (Function.update_of_ne hq _ _).trans hv', haddr⟩
  · intro q' v' h
    obtain ⟨rfl, rfl⟩ | ⟨-, h⟩ := hcases q' v' h
    · exact hrefs
    · exact hs.refs q' v' h
  · intro c c' hc hc'
    exact hs.addrs c c' (hheld c hc) (hheld c' hc')
  · intro c hc
    exact hs.ids c (hheld c hc)
  · intro q' v' h
    obtain ⟨rfl, rfl⟩ | ⟨-, h⟩ := hcases q' v' h
    · rw [hreq]
      exact hbusy
    · exact hs.busy q' v' h
  · intro q' v' pk h
    obtain ⟨rfl, rfl⟩ | ⟨-, h⟩ := hcases q' v' h
    · rw [hreq]
      exact hasked pk
    · exact hs.asked q' v' pk h
  · intro q' v' a h
    obtain ⟨rfl, rfl⟩ | ⟨-, h⟩ := hcases q' v' h
    · rw [hreq]
      exact hauth a
    · exact hs.authorized q' v' a h
  · intro q' v' a h
    obtain ⟨rfl, rfl⟩ | ⟨-, h⟩ := hcases q' v' h
    · rw [hreq]
      exact habsent a
    · exact hs.absent q' v' a h

/-- A query is freed. -/
theorem Valid.queryFree (hs : s.Valid) (hv : s.query q = some v) : (s.queryFree q v).Valid := by
  obtain ⟨hreg, hat⟩ := hs.registered q v hv
  have hcases : ∀ q' v', (s.queryFree q v).query q' = some v' → q' ≠ q ∧ s.query q' = some v' := by
    intro q' v' h
    replace h : Function.update s.query q none q' = some v' := h
    by_cases hq : q' = q
    · subst hq
      rw [update_self] at h
      cases h
    · rw [update_of_ne hq] at h
      exact ⟨hq, h⟩
  have hregistry : (s.queryFree q v).registry = Function.update s.registry v.request.addr none := by
    show (if v.registered then _ else _) = _
    rw [if_pos hreg]
  have hheld : ∀ c, (s.queryFree q v).Held c → s.Held c := by
    rintro c (hc | ⟨q', v', hv', rfl⟩)
    · exact .inl hc
    · exact .inr ⟨q', v', (hcases q' v' hv').2, rfl⟩
  refine ⟨⟨?_, ?_, ?_, ?_⟩, ?_, ?_, hs.nodup, ?_, ?_, ?_, ?_, hs.justified⟩
  · intro q' hq'
    show Function.update s.query q none q' = none
    by_cases hq : q' = q
    · rw [hq, update_self]
    · rw [update_of_ne hq]
      exact hs.fresh q' hq'
  · intro q' v' h
    obtain ⟨hne, h⟩ := hcases q' v' h
    obtain ⟨hreg', hat'⟩ := hs.registered q' v' h
    refine ⟨hreg', ?_⟩
    rw [hregistry, update_of_ne]
    · exact hat'
    · intro haddr
      rw [haddr, hat] at hat'
      exact hne (Option.some.inj hat').symm
  · intro p q' hp
    rw [hregistry] at hp
    by_cases haddr : p = v.request.addr
    · rw [haddr, update_self] at hp
      cases hp
    · rw [update_of_ne haddr] at hp
      obtain ⟨v', hv', hp'⟩ := hs.found p q' hp
      refine ⟨v', ?_, hp'⟩
      show Function.update s.query q none q' = some v'
      rw [update_of_ne]
      · exact hv'
      · rintro rfl
        rw [hv] at hv'
        cases hv'
        exact haddr hp'.symm
  · intro q' v' h
    exact hs.refs q' v' (hcases q' v' h).2
  · intro c c' hc hc'
    exact hs.addrs c c' (hheld c hc) (hheld c' hc')
  · intro c hc
    exact hs.ids c (hheld c hc)
  · intro q' v' h
    exact hs.busy q' v' (hcases q' v' h).2
  · intro q' v' pk h
    exact hs.asked q' v' pk (hcases q' v' h).2
  · intro q' v' a h
    exact hs.authorized q' v' a (hcases q' v' h).2
  · intro q' v' a h
    exact hs.absent q' v' a (hcases q' v' h).2

end Polkit

end Elogind
