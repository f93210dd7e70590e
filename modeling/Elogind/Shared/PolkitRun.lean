/-
  Elogind.Shared.PolkitRun

  What the steps of a daemon that asks polkit do to the queries: every step keeps
  what holds in every state, and changes a query in one of a few ways.
-/

import Elogind.Shared.PolkitValid

namespace Elogind

open Function List

namespace Polkit

variable {s s' : Polkit} {c : BusCall} {k : PolkitAsk} {q : Ref} {v w : AsyncPolkitQuery} {r : Int}

/-! ## Changes that keep the invariant -/

/-- A reference is dropped that nothing needs. -/
theorem Valid.queryUnref (hs : s.Valid) (hv : s.query q = some v)
    (hrefs : 1 < v.nRef → v.slot.isSome.toNat + v.deferEnabled.toNat ≤ v.nRef - 1) :
    (s.queryUnref q).Valid := by
  by_cases hlast : v.nRef ≤ 1
  · rw [queryUnref_of_le hv hlast]
    exact hs.queryFree hv
  · have hlt : 1 < v.nRef := by omega
    rw [queryUnref_of_lt hv hlt, modify_of_some hv]
    exact hs.update hv rfl (hs.registered q v hv).1 ⟨Nat.sub_pos_of_lt hlt, hrefs hlt⟩
      (hs.busy q v hv) (hs.asked q v · hv) (hs.authorized q v · hv) (hs.absent q v · hv)

theorem Valid.setNext (hs : s.Valid) {n : Ref} (hn : s.next ≤ n) : Valid { s with next := n } where
  toSound := ⟨fun q hq => hs.fresh q (Nat.le_trans hn hq), hs.registered, hs.found, hs.refs⟩
  addrs := hs.addrs
  ids := hs.ids
  nodup := hs.nodup
  busy := hs.busy
  asked := hs.asked
  authorized := hs.authorized
  absent := hs.absent
  justified := hs.justified

/-- A call can be queued again while there is a query for it. -/
theorem Valid.enqueue (hs : s.Valid) (hv : s.query q = some v) (haction : v.action = none)
    (hout : v.request ∉ s.queue) : Valid { s with queue := s.queue ++ [v.request] } := by
  have hheld : ∀ c, Held { s with queue := s.queue ++ [v.request] } c → s.Held c := by
    rintro c (hc | hc)
    · rcases mem_append.mp hc with hc | hc
      · exact .inl hc
      · exact .inr ⟨q, v, hv, (mem_singleton.mp hc).symm⟩
    · exact .inr hc
  refine { hs with
    addrs := fun c c' hc hc' => hs.addrs c c' (hheld c hc) (hheld c' hc')
    ids := fun c hc => hs.ids c (hheld c hc)
    nodup := ?_
    busy := ?_ }
  · exact perm_append_comm.nodup (nodup_cons.mpr ⟨hout, hs.nodup⟩)
  · intro q' v' hv' hbusy hmem
    rcases mem_append.mp hmem with hmem | hmem
    · exact hs.busy q' v' hv' hbusy hmem
    · -- there is only one query for the call
      have hsame := (hs.registered q' v' hv').2
      rw [mem_singleton.mp hmem, (hs.registered q v hv).2] at hsame
      cases hsame
      rw [hv] at hv'
      cases hv'
      rw [haction] at hbusy
      cases hbusy

/-- The call is being served: it is not queued, and its message is still there. -/
structure Serving (s : Polkit) (c : BusCall) : Prop where
  addr : ∀ c', s.Held c' → c'.addr = c.addr → c' = c
  id : c.id < s.nextCall
  out : c ∉ s.queue
  idle : ∀ q v, s.registry c.addr = some q → s.query q = some v → v.action = none

/-- Polkit is asked for the first time. -/
theorem Valid.first (hs : s.Valid) (hc : s.Serving c) (hnone : s.registry c.addr = none) :
    (s.withQuery (firstQuery c k) (Function.update s.registry c.addr (some s.next))).Valid := by
  -- the queries and the calls held are those from before and the new ones
  have hcases : ∀ q' v',
      (s.withQuery (firstQuery c k) (Function.update s.registry c.addr (some s.next))).query q' =
        some v' → (q' = s.next ∧ v' = firstQuery c k) ∨ s.query q' = some v' := by
    intro q' v' h
    replace h : Function.update s.query s.next (some (firstQuery c k)) q' = some v' := h
    by_cases hq : q' = s.next
    · subst hq
      rw [update_self] at h
      exact .inl ⟨rfl, (Option.some.inj h).symm⟩
    · rw [update_of_ne hq] at h
      exact .inr h
  have hheld : ∀ c',
      (s.withQuery (firstQuery c k) (Function.update s.registry c.addr (some s.next))).Held c' →
        c' = c ∨ s.Held c' := by
    rintro c' (hc' | ⟨q', v', hv', rfl⟩)
    · exact .inr (.inl hc')
    · obtain ⟨-, rfl⟩ | hv' := hcases q' v' hv'
      · exact .inl rfl
      · exact .inr (.inr ⟨q', v', hv', rfl⟩)
  refine ⟨⟨?_, ?_, ?_, ?_⟩, ?_, ?_, hs.nodup, ?_, ?_, ?_, ?_, hs.justified⟩
  · intro q' hq'
    have hlt : s.next < q' := hq'
    exact (update_of_ne (Nat.ne_of_gt hlt) _ _).trans (hs.fresh q' (Nat.le_of_lt hlt))
  · intro q' v' h
    obtain ⟨rfl, rfl⟩ | h := hcases q' v' h
    · exact ⟨rfl, update_self ..⟩
    · -- the place of `c` in the registry was free
      obtain ⟨hreg, hat⟩ := hs.registered q' v' h
      refine ⟨hreg, (update_of_ne ?_ _ _).trans hat⟩
      intro haddr
      rw [haddr, hnone] at hat
      cases hat
  · intro p q' hp
    replace hp : Function.update s.registry c.addr (some s.next) p = some q' := hp
    by_cases haddr : p = c.addr
    · rw [haddr, update_self] at hp
      cases hp
      exact ⟨_, update_self .., haddr.symm⟩
    · rw [update_of_ne haddr] at hp
      obtain ⟨v', hv', hp'⟩ := hs.found p q' hp
      refine ⟨v', (update_of_ne ?_ _ _).trans hv', hp'⟩
      intro hq
      rw [hq, hs.fresh s.next (Nat.le_refl _)] at hv'
      cases hv'
  · intro q' v' h
    obtain ⟨rfl, rfl⟩ | h := hcases q' v' h
    · exact ⟨Nat.one_pos, Nat.le_refl 1⟩
    · exact hs.refs q' v' h
  · intro c₁ c₂ h₁ h₂ haddr
    obtain heq₁ | hs₁ := hheld c₁ h₁
    · obtain heq₂ | hs₂ := hheld c₂ h₂
      · exact heq₁.trans heq₂.symm
      · rw [heq₁] at haddr ⊢
        exact (hc.addr c₂ hs₂ haddr.symm).symm
    · obtain heq₂ | hs₂ := hheld c₂ h₂
      · rw [heq₂] at haddr ⊢
        exact hc.addr c₁ hs₁ haddr
      · exact hs.addrs c₁ c₂ hs₁ hs₂ haddr
  · intro c' h
    rcases hheld c' h with rfl | h
    · exact hc.id
    · exact hs.ids c' h
  · intro q' v' h
    obtain ⟨rfl, rfl⟩ | h := hcases q' v' h
    · exact fun _ => hc.out
    · exact hs.busy q' v' h
  · -- the new query asks for what the call of the handler asks for
    intro q' v' pk h hslot
    obtain ⟨rfl, rfl⟩ | h := hcases q' v' h
    · cases hslot
      exact ⟨k.what, rfl, rfl, rfl, rfl⟩
    · exact hs.asked q' v' pk h hslot
  · intro q' v' a h ha
    obtain ⟨rfl, rfl⟩ | h := hcases q' v' h
    · cases ha
    · exact hs.authorized q' v' a h ha
  · intro q' v' a h ha
    obtain ⟨rfl, rfl⟩ | h := hcases q' v' h
    · cases ha
    · exact hs.absent q' v' a h ha

/-- What a verification keeps.  The call is still served if it is allowed to go on. -/
theorem Verified.valid (h : Verified s c k s' r) (hs : s.Valid) (hc : s.Serving c) :
    s'.Valid ∧ (r = 1 → s'.Serving c ∧ Justified s.history c k) ∧ s'.history = s.history := by
  cases h with
  | kept hn hr hone =>
    refine ⟨hs.setNext hn, fun h => ⟨⟨hc.addr, hc.id, hc.out, hc.idle⟩, ?_⟩, rfl⟩
    obtain hgood | hpriv | ⟨q, v, hq, hv, hanswer⟩ := (hone h).1
    · exact .inl hgood
    · exact .inr (.inl hpriv)
    -- the query that is found was made for this call
    obtain ⟨v', hv', haddr⟩ := hs.found _ q hq
    rw [hv] at hv'
    cases hv'
    have hreq : v.request = c := hc.addr _ (.inr ⟨q, v, hv, rfl⟩) haddr
    obtain ⟨a, ha, haction, hdetails⟩ | ⟨habsent, hallow⟩ := hanswer
    · have hans := hs.authorized q v a hv ha
      have hwhat : a = k.what := by
        rw [PolkitAsk.what, ← haction, ← hdetails]
      rw [hreq, hwhat] at hans
      exact .inr (.inr (.inl hans))
    · obtain ⟨a, ha⟩ := Option.isSome_iff_exists.mp habsent
      have hans := hs.absent q v a hv ha
      rw [hreq] at hans
      exact .inr (.inr (.inr ⟨hallow, a, hans⟩))
  | @spoiled q _ hq hr =>
    obtain ⟨v, hv, haddr⟩ := hs.found _ q hq
    have hreq : v.request = c := hc.addr _ (.inr ⟨q, v, hv, rfl⟩) haddr
    have haction : v.action = none := hc.idle q v hq hv
    refine ⟨?_, fun h => by omega, rfl⟩
    rw [modify_of_some hv]
    refine hs.update hv rfl (hs.registered q v hv).1 (hs.refs q v hv) ?_ ?_
      (hs.authorized q v · hv) (hs.absent q v · hv)
    · intro _
      rw [hreq]
      exact hc.out
    · intro pk hpk
      replace hpk : v.slot = some pk := hpk
      rw [hs.slot_eq_none hv haction] at hpk
      cases hpk
  | first hnone =>
    exact ⟨hs.first hc hnone, fun h => (by cases h), rfl⟩
  | @again q v hq hv haction _ =>
    obtain ⟨v', hv', haddr⟩ := hs.found _ q hq
    rw [hv] at hv'
    cases hv'
    have hreq : v.request = c := hc.addr _ (.inr ⟨q, v, hv, rfl⟩) haddr
    have hrefs := (hs.refs q v hv).2
    rw [hs.slot_eq_none hv haction] at hrefs
    refine ⟨?_, fun h => (by cases h), rfl⟩
    rw [modify_of_some hv]
    refine hs.update hv rfl (hs.registered q v hv).1 ⟨Nat.succ_pos _, ?_⟩ ?_ ?_
      (hs.authorized q v · hv) (hs.absent q v · hv)
    · show 1 + v.deferEnabled.toNat ≤ v.nRef + 1
      replace hrefs : 0 + v.deferEnabled.toNat ≤ v.nRef := hrefs
      omega
    · intro _
      rw [hreq]
      exact hc.out
    · intro pk hpk
      cases hpk
      exact ⟨k.what, rfl, by rw [hreq]; rfl, rfl, rfl⟩

/-! ## Dispatching a call -/

/-- The queries after a handler has run. -/
inductive Dispatched (s : Polkit) (c : BusCall) (asks : List PolkitAsk) :
    Ref → AsyncPolkitQuery → Prop where
  | same {q : Ref} {v : AsyncPolkitQuery} (hv : s.query q = some v) : Dispatched s c asks q v
  | spoiled {q : Ref} {v : AsyncPolkitQuery} {a : PolkitAction} (hq : s.registry c.addr = some q)
      (hv : s.query q = some v) : Dispatched s c asks q { v with action := some a }
  | first (k : PolkitAsk) (q : Ref) : Dispatched s c asks q (firstQuery c k)
  | again {before after : List PolkitAsk} {k : PolkitAsk} {q : Ref} {v : AsyncPolkitQuery}
      (hasks : asks = before ++ k :: after) (hq : s.registry c.addr = some q)
      (hv : s.query q = some v) (haction : v.action = none)
      (hbefore : ∀ k' ∈ before, v.Passes k') (hk : v.Asks k) :
      Dispatched s c asks q
        { v with nRef := v.nRef + 1, action := some k.what, slot := some (k.polkitCall c) }

theorem query_modify_cases {f : AsyncPolkitQuery → AsyncPolkitQuery} {q' : Ref}
    (hv : s.query q = some v) (h : (s.modify q f).query q' = some w) :
    (q' = q ∧ w = f v) ∨ q' ≠ q ∧ s.query q' = some w := by
  rw [modify_of_some hv] at h
  replace h : update s.query q (some (f v)) q' = some w := h
  by_cases hq : q' = q
  · subst hq
    rw [update_self] at h
    exact .inl ⟨rfl, (Option.some.inj h).symm⟩
  · rw [update_of_ne hq] at h
    exact .inr ⟨hq, h⟩

theorem Verified.dispatched (h : Verified s c k s' r) (hs : s.Sound) {asks : List PolkitAsk}
    (hv : s'.query q = some v) : Dispatched s c (k :: asks) q v := by
  cases h with
  | kept => exact .same hv
  | spoiled hq hr =>
    obtain ⟨u, hu, -⟩ := hs.found _ _ hq
    obtain ⟨rfl, rfl⟩ | ⟨-, hv⟩ := query_modify_cases hu hv
    · exact .spoiled hq hu
    · exact .same hv
  | first hnone =>
    replace hv : update s.query s.next (some (firstQuery c k)) q = some v := hv
    by_cases hq : q = s.next
    · rw [hq, update_self] at hv
      cases hv
      exact .first k q
    · rw [update_of_ne hq] at hv
      exact .same hv
  | again hq hu haction hk =>
    obtain ⟨rfl, rfl⟩ | ⟨-, hv⟩ := query_modify_cases hu hv
    · have hasks : k :: asks = [] ++ k :: asks := rfl
      exact .again hasks hq hu haction (fun _ h => nomatch h) hk
    · exact .same hv

/-- A verification frees no query that was there before. -/
theorem Verified.isSome_query (h : Verified s c k s' r) (hq : (s.query q).isSome) :
    (s'.query q).isSome := by
  cases h with
  | kept => exact hq
  | spoiled | again => rwa [isSome_query_modify]
  | first =>
    show (update s.query s.next _ q).isSome
    by_cases hnext : q = s.next
    · rw [hnext, update_self]
      rfl
    · rwa [update_of_ne hnext]

/-- A handler can always run to its end. -/
theorem handle_isSome (asks : List PolkitAsk) (hs : s.Valid) (hc : s.Serving c) :
    (s.handle c asks).isSome := by
  induction asks generalizing s with
  | nil => rfl
  | cons k asks ih =>
    have hsome := busVerifyPolkitAsyncFull_isSome (k := k) hs.toSound hc.idle
    obtain ⟨⟨t, r⟩, ht⟩ := Option.isSome_iff_exists.mp hsome
    rw [handle, ht]
    dsimp only
    obtain ⟨ht', hone, hhist⟩ := (verified hs.toSound ht).valid hs hc
    split
    · next hr =>
      obtain ⟨hserving, hjust⟩ := hone hr
      refine ih (ht'.log ?_) ⟨hserving.addr, hserving.id, hserving.out, hserving.idle⟩
      rintro _ _ ⟨⟩
      rw [hhist]
      exact hjust
    · rfl

/-- What a handler does. -/
theorem handle_spec {asks : List PolkitAsk} (hs : s.Valid) (hc : s.Serving c)
    (h : s.handle c asks = some s') :
    s'.Valid ∧ (∀ q v, s'.query q = some v → Dispatched s c asks q v) ∧
      ∀ q, (s.query q).isSome → (s'.query q).isSome := by
  induction asks generalizing s with
  | nil =>
    cases h
    exact ⟨hs, fun q v hv => .same hv, fun q hq => hq⟩
  | cons k asks ih =>
    rw [handle] at h
    split at h
    · cases h
    next t r ht =>
    have hver := verified hs.toSound ht
    obtain ⟨ht', hone, hhist⟩ := hver.valid hs hc
    have hlog : Valid { t with history := .returned c k r :: t.history } := by
      apply ht'.log
      rintro _ _ ⟨⟩
      rw [hhist]
      exact (hone rfl).2
    split at h
    · next hr =>
      subst hr
      have hserving := (hone rfl).1
      obtain ⟨hvalid, hqueries, hkept⟩ :=
        ih hlog ⟨hserving.addr, hserving.id, hserving.out, hserving.idle⟩ h
      refine ⟨hvalid, fun q v hv => ?_, fun q hq => hkept q (hver.isSome_query hq)⟩
      -- only a verification that changes nothing lets the handler go on
      cases hver with
      | kept hn hr hpass =>
        cases hqueries q v hv with
        | same hu => exact .same hu
        | spoiled hq hu => exact .spoiled hq hu
        | first k => exact .first k q
        | @again before after k' _ u hasks hq hu haction hbefore hk' =>
          have hasks' : k :: asks = (k :: before) ++ k' :: after := by rw [hasks]; rfl
          refine .again hasks' hq hu haction ?_ hk'
          intro k'' hk''
          rcases mem_cons.mp hk'' with rfl | hk''
          · exact (hpass rfl).2 q u hq hu
          · exact hbefore k'' hk''
      | spoiled _ hr => omega
    · cases h
      exact ⟨hlog, fun q v hv => hver.dispatched hs.toSound hv, fun q hq => hver.isSome_query hq⟩

/-- A call that is taken from the queue can be served. -/
theorem Valid.dispatch (hs : s.Valid) (hc : c ∈ s.queue) :
    Valid { s with queue := s.queue.erase c } ∧ Serving { s with queue := s.queue.erase c } c := by
  have hheld : ∀ c', Held { s with queue := s.queue.erase c } c' → s.Held c' := by
    rintro c' (hc' | hc')
    · exact .inl (mem_of_mem_erase hc')
    · exact .inr hc'
  have hout : c ∉ s.queue.erase c := fun h => (Nodup.mem_erase_iff hs.nodup).mp h |>.1 rfl
  constructor
  · exact { hs with
      addrs := fun c c' hc hc' => hs.addrs c c' (hheld c hc) (hheld c' hc')
      ids := fun c hc => hs.ids c (hheld c hc)
      nodup := hs.nodup.erase c
      busy := fun q v hv hbusy hmem => hs.busy q v hv hbusy (mem_of_mem_erase hmem) }
  · refine ⟨fun c' hc' haddr => hs.addrs c' c (hheld c' hc') (.inl hc) haddr,
      hs.ids c (.inl hc), hout, ?_⟩
    intro q v hq hv
    obtain ⟨v', hv', haddr⟩ := hs.found _ q hq
    replace hv : s.query q = some v := hv
    rw [hv] at hv'
    cases hv'
    have hreq : v.request = c := hs.addrs _ _ (.inr ⟨q, v, hv, rfl⟩) (.inl hc) haddr
    cases haction : v.action with
    | none => rfl
    | some a =>
      have hbusy := hs.busy q v hv (by rw [haction]; rfl)
      rw [hreq] at hbusy
      exact absurd hc hbusy

/-! ## Replies and clean-up -/

/-- A query after a reply was processed; `r` is what is returned. -/
structure Processed (v : AsyncPolkitQuery) (reply : PolkitReply) (r : Int) (w : AsyncPolkitQuery) :
    Prop where
  request : w.request = v.request
  registered : w.registered = v.registered
  nRef : w.nRef = v.nRef
  slot : w.slot = none
  action : w.action = none
  deferred : v.deferEnabled = true ∨ 0 ≤ r → w.deferEnabled = true
  authorized : ∀ a ∈ w.authorized, a ∈ v.authorized ∨ v.action = some a ∧ reply.Authorizes
  absent : ∀ a, w.absent = some a → v.absent = some a ∨ v.action = some a ∧ reply.TellsAbsence

/-- What polkit says is no authorization, and it is there. -/
theorem processed_other {reply : PolkitReply} (hslot : v.slot = none) (denied : Option PolkitAction)
    (error : Option (PolkitAction × Errno)) :
    Processed v reply (-1) { v with action := none, denied := denied, error := error } where
  request := rfl
  registered := rfl
  nRef := rfl
  slot := hslot
  action := rfl
  deferred h := h.resolve_right (by omega)
  authorized _ ha := .inl ha
  absent _ ha := .inl ha

theorem readReply_spec {reply : PolkitReply} (h : v.readReply reply = some (w, r))
    (hslot : v.slot = none) :
    Processed v reply (-1) w ∧ w.deferEnabled = v.deferEnabled ∧ (0 ≤ r → reply.Readable) := by
  unfold AsyncPolkitQuery.readReply at h
  split at h
  · cases h
  split at h
  · cases h
  next a haction =>
  cases reply with
  | error name code copied =>
    dsimp only at h
    split at h
    · next habsent =>
      cases h
      exact ⟨{ processed_other hslot v.denied v.error with
        absent := fun b hb => .inr ⟨haction.trans hb, habsent⟩ }, rfl, fun _ => .inl habsent⟩
    split at h
    · next hdenial =>
      cases h
      exact ⟨processed_other hslot _ v.error, rfl, fun _ => .inr (.inl hdenial)⟩
    split at h
    · next hcopied =>
      cases h
      exact ⟨processed_other hslot v.denied _, rfl, fun _ => .inr (.inr hcopied)⟩
    · cases h
      exact ⟨processed_other hslot v.denied _, rfl, fun hr => absurd hr (by decide)⟩
  | unreadable e =>
    cases h
    have hneg := e.neg_lt_zero
    exact ⟨processed_other hslot v.denied v.error, rfl, fun hr => by omega⟩
  | result authorized challenge =>
    refine ⟨?_, ?_, fun _ => trivial⟩
    · dsimp only at h
      split at h
      · next hauth =>
        cases h
        refine { processed_other hslot v.denied v.error with authorized := fun b hb => ?_ }
        rcases mem_cons.mp hb with rfl | hb
        · exact .inr ⟨haction, by rw [hauth]; trivial⟩
        · exact .inl hb
      split at h
      · cases h
        exact processed_other hslot v.denied _
      · cases h
        exact processed_other hslot _ v.error
    · dsimp only at h
      split at h
      · cases h
        rfl
      split at h
      · cases h
        rfl
      · cases h
        rfl

theorem deferCleanup_spec (v : AsyncPolkitQuery) (env : PolkitReplyEnv) :
    ∃ source enabled,
      (v.deferCleanup env).1 = { v with deferSource := source, deferEnabled := enabled } ∧
      (v.deferEnabled = true ∨ 0 ≤ (v.deferCleanup env).2 → enabled = true) ∧
      (0 ≤ (v.deferCleanup env).2 → env.Ready) := by
  have hneg : ∀ e : Errno, ¬0 ≤ e.neg := fun e => Int.not_le.mpr e.neg_lt_zero
  unfold AsyncPolkitQuery.deferCleanup
  split
  · next e _ => exact ⟨_, _, rfl, fun h => h.resolve_right (hneg e), fun h => absurd h (hneg e)⟩
  have hmono : ∀ e : Errno, v.deferEnabled = true ∨ 0 ≤ e.neg →
      (v.deferEnabled || !v.deferSource) = true := by
    intro e h
    rw [h.resolve_right (hneg e)]
    rfl
  split
  · next e _ => exact ⟨_, _, rfl, hmono e, fun h => absurd h (hneg e)⟩
  split
  · next e _ => exact ⟨_, _, rfl, hmono e, fun h => absurd h (hneg e)⟩
  next hset =>
  split
  · next e _ => exact ⟨_, _, rfl, fun _ => rfl, fun h => absurd h (hneg e)⟩
  · next e _ _ => exact ⟨_, _, rfl, fun _ => rfl, fun h => absurd h (hneg e)⟩
  · next hrewind henqueue => exact ⟨_, _, rfl, fun _ => rfl, fun _ => ⟨hset, hrewind, henqueue⟩⟩

theorem processReply_spec {env : PolkitReplyEnv} {reply : PolkitReply}
    (h : s.processReply q v env reply = some (s', r)) :
    ∃ w, Processed v reply r w ∧ (0 ≤ r → reply.Readable ∧ env.Ready) ∧
      s' = { s with
        query := Function.update s.query q (some w)
        queue := if r < 0 then s.queue else s.queue ++ [v.request] } := by
  unfold processReply at h
  split at h
  · cases h
  split at h
  · cases h
  next u ru hu =>
  obtain ⟨hread, hsame, hreadable⟩ := readReply_spec hu rfl
  have hat : ∀ r', r' < 0 → Processed v reply r' u := fun r' hr' =>
    { hread with deferred := fun h => hsame.trans (h.resolve_right (by omega)) }
  split at h
  · next hneg =>
    cases h
    exact ⟨u, hat _ hneg, fun h => by omega, by rw [if_pos hneg]⟩
  next hpos =>
  dsimp only at h
  cases h
  obtain ⟨source, enabled, hw, hdefer, hready⟩ := deferCleanup_spec u env
  have hbase := hat (-1) (by omega)
  refine ⟨(u.deferCleanup env).1, ?_, fun h => ⟨hreadable (by omega), hready h⟩, ?_⟩
  · rw [hw]
    exact { hbase with deferred := fun h => hdefer (h.imp_left fun h => hbase.deferred (.inl h)) }
  · rw [hw]
    simp only [hbase.request]

theorem query_queryUnref_cases {q' : Ref} (hv : s.query q = some v)
    (h : (s.queryUnref q).query q' = some w) :
    (q' = q ∧ 1 < v.nRef ∧ w = { v with nRef := v.nRef - 1 }) ∨ q' ≠ q ∧ s.query q' = some w := by
  by_cases hlast : v.nRef ≤ 1
  · rw [queryUnref_of_le hv hlast] at h
    replace h : update s.query q none q' = some w := h
    by_cases hq : q' = q
    · rw [hq, update_self] at h
      cases h
    · rw [update_of_ne hq] at h
      exact .inr ⟨hq, h⟩
  · have hlt : 1 < v.nRef := by omega
    rw [queryUnref_of_lt hv hlt] at h
    obtain ⟨hq, hw⟩ | h := query_modify_cases hv h
    · exact .inl ⟨hq, hlt, hw⟩
    · exact .inr h

/-- A query is freed with its last reference. -/
theorem freed_queryUnref {q' : Ref} {u : AsyncPolkitQuery} (hv : s.query q = some v)
    (hu : s.query q' = some u) (h : (s.queryUnref q).query q' = none) : q' = q ∧ v.nRef ≤ 1 := by
  by_cases hlast : v.nRef ≤ 1
  · refine ⟨?_, hlast⟩
    rw [queryUnref_of_le hv hlast] at h
    replace h : update s.query q none q' = none := h
    by_cases hq : q' = q
    · exact hq
    · rw [update_of_ne hq, hu] at h
      cases h
  · rw [queryUnref_of_lt hv (by omega)] at h
    have hsome := isSome_query_modify s q q' fun v => { v with nRef := v.nRef - 1 }
    rw [h, hu] at hsome
    cases hsome

/-- The queries after the polkit call of `q` is over. -/
inductive Replied (s : Polkit) (q : Ref) (v : AsyncPolkitQuery) (env : PolkitReplyEnv)
    (reply : PolkitReply) : Ref → AsyncPolkitQuery → Prop where
  | other {q' : Ref} {u : AsyncPolkitQuery} (hne : q' ≠ q) (hu : s.query q' = some u) :
      Replied s q v env reply q' u
  | done {r : Int} {w : AsyncPolkitQuery} (hw : Processed v reply r w) (hr : 0 ≤ r)
      (hreadable : reply.Readable) (hready : env.Ready) : Replied s q v env reply q w
  | failed {r : Int} {w : AsyncPolkitQuery} (hw : Processed v reply r w) (hr : r < 0)
      (hlt : 1 < w.nRef) : Replied s q v env reply q { w with nRef := w.nRef - 1 }

/-- What the processing of a reply leaves is in order, when the reply is recorded. -/
theorem Valid.processed (hs : s.Valid) (hv : s.query q = some v) {pk : PolkitCall}
    (hslot : v.slot = some pk) {reply : PolkitReply} (hw : Processed v reply r w) :
    Valid { s with
      history := .answered v.request pk reply :: s.history
      query := Function.update s.query q (some w) } := by
  have hlog : Valid { s with history := .answered v.request pk reply :: s.history } :=
    hs.log fun _ _ h => nomatch h
  obtain ⟨a, ha, hsubject, hact, hdetails⟩ := hs.asked q v pk hv hslot
  -- what has just been answered is what was asked
  have hanswered : ∀ {b : PolkitAction} {P : PolkitReply → Prop}, v.action = some b → P reply →
      Answered (.answered v.request pk reply :: s.history) v.request b P := by
    intro b P hb hP
    rw [ha] at hb
    cases hb
    exact ⟨pk, reply, mem_cons_self, hP, hsubject, hact, hdetails⟩
  have hrefs := hs.refs q v hv
  refine hlog.update hv hw.request (hw.registered.trans (hs.registered q v hv).1) ?_ ?_ ?_ ?_ ?_
  · rw [hw.nRef, hw.slot]
    have hle := Bool.toNat_le w.deferEnabled
    refine ⟨hrefs.1, ?_⟩
    show 0 + w.deferEnabled.toNat ≤ v.nRef
    omega
  · intro h
    rw [hw.action] at h
    cases h
  · intro pk' h
    rw [hw.slot] at h
    cases h
  · intro b hb
    obtain hb | ⟨hb, hauth⟩ := hw.authorized b hb
    · exact (hs.authorized q v b hv hb).cons _
    · exact hanswered hb hauth
  · intro b hb
    obtain hb | ⟨hb, habsent⟩ := hw.absent b hb
    · exact (hs.absent q v b hv hb).cons _
    · exact hanswered hb habsent

/-- What a reply does. -/
theorem reply_spec (hs : s.Valid) (hv : s.query q = some v) {pk : PolkitCall}
    (hslot : v.slot = some pk) {env : PolkitReplyEnv} {reply : PolkitReply}
    (h : { s with history := .answered v.request pk reply :: s.history }.asyncPolkitCallback q v env
      reply = some s') :
    s'.Valid ∧ ∀ q' w, s'.query q' = some w → Replied s q v env reply q' w := by
  unfold asyncPolkitCallback at h
  split at h
  · cases h
  next t r ht =>
  obtain ⟨w, hw, hready, rfl⟩ := processReply_spec ht
  have hvalid := hs.processed hv hslot hw
  have hat : update s.query q (some w) q = some w := update_self ..
  have hother : ∀ q' u, update s.query q (some w) q' = some u → q' ≠ q →
      s.query q' = some u := by
    intro q' u hu hne
    rw [update_of_ne hne] at hu
    exact hu
  cases h
  by_cases hr : r < 0
  · rw [if_pos hr, if_pos hr]
    constructor
    · apply hvalid.queryUnref hat
      intro hlt
      rw [hw.slot]
      have hle := Bool.toNat_le w.deferEnabled
      show 0 + w.deferEnabled.toNat ≤ w.nRef - 1
      omega
    · intro q' u hu
      obtain ⟨rfl, hlt, rfl⟩ | ⟨hne, hu⟩ := query_queryUnref_cases hat hu
      · exact .failed hw hr hlt
      · exact .other hne (hother q' u hu hne)
  · rw [if_neg hr, if_neg hr]
    constructor
    · have hbusy : v.request ∉ s.queue := by
        obtain ⟨a, ha, -⟩ := hs.asked q v pk hv hslot
        exact hs.busy q v hv (by rw [ha]; rfl)
      rw [← hw.request] at hbusy
      have henqueued := hvalid.enqueue hat hw.action hbusy
      rw [hw.request] at henqueued
      exact henqueued
    · intro q' u hu
      replace hu : update s.query q (some w) q' = some u := hu
      by_cases hne : q' = q
      · subst hne
        rw [hat] at hu
        cases hu
        exact .done hw (Int.not_lt.mp hr) (hready (Int.not_lt.mp hr)).1 (hready (Int.not_lt.mp hr)).2
      · exact .other hne (hother q' u hu hne)

/-- The queries after the clean-up of `q`. -/
inductive Cleaned (s : Polkit) (q : Ref) (v : AsyncPolkitQuery) : Ref → AsyncPolkitQuery → Prop where
  | other {q' : Ref} {u : AsyncPolkitQuery} (hne : q' ≠ q) (hu : s.query q' = some u) : Cleaned s q v q' u
  | kept (hlt : 1 < v.nRef) : Cleaned s q v q { v with deferEnabled := false, nRef := v.nRef - 1 }

/-- What the clean-up does. -/
theorem idle_spec (hs : s.Valid) (hv : s.query q = some v) (henabled : v.deferEnabled = true) :
    (s.asyncPolkitDefer q).Valid ∧
      ∀ q' w, (s.asyncPolkitDefer q).query q' = some w → Cleaned s q v q' w := by
  have hrefs := hs.refs q v hv
  rw [henabled] at hrefs
  replace hrefs : 0 < v.nRef ∧ v.slot.isSome.toNat + 1 ≤ v.nRef := hrefs
  have hat := query_modify_self hv fun v => { v with deferEnabled := false }
  constructor
  · refine Valid.queryUnref ?_ hat ?_
    · rw [modify_of_some hv]
      refine hs.update hv rfl (hs.registered q v hv).1 ⟨hrefs.1, ?_⟩ (hs.busy q v hv)
        (hs.asked q v · hv) (hs.authorized q v · hv) (hs.absent q v · hv)
      show v.slot.isSome.toNat + 0 ≤ v.nRef
      omega
    · intro _
      show v.slot.isSome.toNat + 0 ≤ v.nRef - 1
      omega
  · intro q' w hw
    obtain ⟨rfl, hlt, rfl⟩ | ⟨hne, hw⟩ := query_queryUnref_cases hat hw
    · exact .kept hlt
    · obtain ⟨hq, -⟩ | ⟨-, hw⟩ := query_modify_cases hv hw
      · exact absurd hq hne
      · exact .other hne hw

/-! ## Steps -/

theorem Valid.arrive (hs : s.Valid) {addr : Nat} (hfree : ∀ c, s.Held c → c.addr ≠ addr)
    (sender : Bytes) :
    Valid { s with
      queue := s.queue ++ [{ id := s.nextCall, addr := addr, sender := sender }]
      nextCall := s.nextCall + 1 } := by
  have hnew : ∀ c, s.Held c → c.id ≠ s.nextCall := fun c hc => Nat.ne_of_lt (hs.ids c hc)
  have hheld : ∀ c, Held { s with
      queue := s.queue ++ [{ id := s.nextCall, addr := addr, sender := sender }]
      nextCall := s.nextCall + 1 } c →
      s.Held c ∨ c = { id := s.nextCall, addr := addr, sender := sender } := by
    rintro c (hc | hc)
    · rcases mem_append.mp hc with hc | hc
      · exact .inl (.inl hc)
      · exact .inr (mem_singleton.mp hc)
    · exact .inl (.inr hc)
  refine { hs with addrs := ?_, ids := ?_, nodup := ?_, busy := ?_ }
  · intro c₁ c₂ h₁ h₂ haddr
    obtain hs₁ | heq₁ := hheld c₁ h₁
    · obtain hs₂ | heq₂ := hheld c₂ h₂
      · exact hs.addrs c₁ c₂ hs₁ hs₂ haddr
      · rw [heq₂] at haddr
        exact absurd haddr (hfree c₁ hs₁)
    · obtain hs₂ | heq₂ := hheld c₂ h₂
      · rw [heq₁] at haddr
        exact absurd haddr.symm (hfree c₂ hs₂)
      · exact heq₁.trans heq₂.symm
  · intro c hc
    obtain hc | rfl := hheld c hc
    · exact Nat.lt_succ_of_lt (hs.ids c hc)
    · exact Nat.lt_succ_self _
  · refine perm_append_comm.nodup (nodup_cons.mpr ⟨fun hmem => ?_, hs.nodup⟩)
    exact hnew _ (.inl hmem) rfl
  · intro q v hv hbusy hmem
    rcases mem_append.mp hmem with hmem | hmem
    · exact hs.busy q v hv hbusy hmem
    · refine hnew v.request (.inr ⟨q, v, hv, rfl⟩) ?_
      rw [mem_singleton.mp hmem]

/-- The queries after a step. -/
def Stepped (s : Polkit) : Op → Ref → AsyncPolkitQuery → Prop
  | .arrive _ _ => fun q w => s.query q = some w
  | .dispatch c asks => Dispatched s c asks
  | .reply q env reply => fun q' w => ∃ v pk, s.query q = some v ∧ v.slot = some pk ∧
      Replied s q v env reply q' w
  | .idle q => fun q' w => ∃ v, s.query q = some v ∧ v.deferEnabled = true ∧ Cleaned s q v q' w

/-- What a step does. -/
theorem step_spec (hs : s.Valid) {op : Op} (h : s.Step op s') :
    s'.Valid ∧ ∀ q w, s'.query q = some w → s.Stepped op q w := by
  obtain ⟨henabled, hstep⟩ := h
  cases op with
  | arrive addr sender =>
    cases hstep
    exact ⟨hs.arrive henabled sender, fun q w hw => hw⟩
  | dispatch c asks =>
    obtain ⟨hvalid, hserving⟩ := hs.dispatch henabled
    obtain ⟨hs', hqueries, -⟩ := handle_spec hvalid hserving hstep
    refine ⟨hs', fun q w hw => ?_⟩
    cases hqueries q w hw with
    | same hu => exact .same hu
    | spoiled hq hu => exact .spoiled hq hu
    | first k => exact .first k q
    | again hasks hq hu haction hbefore hk => exact .again hasks hq hu haction hbefore hk
  | reply q env reply =>
    obtain ⟨v, pk, hv, hslot⟩ := henabled
    rw [step, hv] at hstep
    dsimp only at hstep
    rw [hslot] at hstep
    obtain ⟨hs', hqueries⟩ := reply_spec hs hv hslot hstep
    exact ⟨hs', fun q' w hw => ⟨v, pk, hv, hslot, hqueries q' w hw⟩⟩
  | idle q =>
    obtain ⟨v, hv, hdefer⟩ := henabled
    cases hstep
    obtain ⟨hs', hqueries⟩ := idle_spec hs hv hdefer
    exact ⟨hs', fun q' w hw => ⟨v, hv, hdefer, hqueries q' w hw⟩⟩

end Polkit

end Elogind
