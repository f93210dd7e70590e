/-
  Elogind.Bus.CallsRun

  Every call on a bus connection completes at most once (sd-bus.c), in every run in which
  no message is called that was sealed with cookie 0.

  A slot is in `reply_callbacks` under its cookie as long as it has one, and in the queue
  as long as it has a timeout.  Each of the ways to complete a call takes the slot out of
  both before the callback is invoked.
-/

import Elogind.Bus.Calls

namespace Elogind

open Lib Lib.BinaryHeap List

/-- The slot is waiting for the reply to `cookie`. -/
def ReplySlot.Waits (slot : ReplySlot) (cookie : Nat) : Prop :=
  slot.connected = true ∧ slot.cookie = cookie ∧ cookie ≠ 0

/-- The slot may time out. -/
def ReplySlot.Timed (slot : ReplySlot) : Prop := slot.connected = true ∧ slot.timeoutUsec ≠ 0

namespace Bus

variable {b b' b'' : Bus} {s : Nat}

/-! ## The invariant -/

/-- The slots in `reply_callbacks` are those that wait for a reply. -/
structure MapOk (b : Bus) : Prop where
  entries : ∀ c s, (c, s) ∈ b.replyCallbacks ↔ (b.slots s).Waits c
  keys : (b.replyCallbacks.map Prod.fst).Nodup

/-- The slots in the queue are those that may time out. -/
structure QueueOk (b : Bus) : Prop where
  items : ∀ x, x ∈ b.prioqItems ↔ x.idx = some x.data ∧ (b.slots x.data).Timed
  valid : b.queue.Valid

/-- No callback was invoked twice, or after its slot was disconnected; those that were
    invoked are not waiting any more. -/
structure InvokedOk (b : Bus) : Prop where
  once : (b.invoked.map Prod.fst).Nodup
  connected : ∀ x ∈ b.invoked, x.2 = true
  done : ∀ x ∈ b.invoked, (b.slots x.1).cookie = 0 ∧ (b.slots x.1).timeoutUsec = 0

structure CallsOk (b : Bus) : Prop where
  map : MapOk b
  queue : QueueOk b
  invoked : InvokedOk b
  /-- A slot that was not allocated yet. -/
  fresh : ∀ s, b.nSlots ≤ s → (b.slots s).connected = false ∧ ∀ x ∈ b.invoked, x.1 ≠ s
  /-- No reply is lost before messages are processed. -/
  connecting : b.state.isConnecting = true → ∀ s, (b.slots s).Timed → (b.slots s).cookie ≠ 0

/-! ## The callbacks by their cookies -/

theorem MapOk.congr (hm : MapOk b) (hmap : b'.replyCallbacks = b.replyCallbacks)
    (hslots : ∀ t c, (b'.slots t).Waits c ↔ (b.slots t).Waits c) : MapOk b' := by
  refine ⟨fun c t => ?_, by rw [hmap]; exact hm.keys⟩
  rw [hmap, hslots]
  exact hm.entries c t

/-- A cookie belongs to one slot. -/
theorem MapOk.eq_of_waits (hm : MapOk b) {c s t : Nat} (hs : (b.slots s).Waits c) (ht : (b.slots t).Waits c) :
    s = t := by
  have hes := (hm.entries c s).mpr hs
  have het := (hm.entries c t).mpr ht
  exact congrArg Prod.snd (inj_on_of_nodup_map hm.keys hes het rfl)

/-- A slot stops to wait, and its entry is removed. -/
theorem MapOk.remove (hm : MapOk b) (hconn : (b.slots s).connected = true)
    (hmap : b'.replyCallbacks = b.replyCallbacks.filter fun e => e.1 ≠ (b.slots s).cookie)
    (hslots : ∀ t, t ≠ s → b'.slots t = b.slots t) (hs : ∀ c, ¬(b'.slots s).Waits c) : MapOk b' := by
  constructor
  · intro c t
    rw [hmap, mem_filter, hm.entries, decide_eq_true_iff]
    by_cases hts : t = s
    · subst hts
      refine ⟨fun ⟨hwaits, hne⟩ => absurd hwaits.2.1.symm hne, fun hwaits => absurd hwaits (hs c)⟩
    · rw [hslots t hts]
      refine ⟨fun h => h.1, fun hwaits => ⟨hwaits, fun heq => hts ?_⟩⟩
      exact hm.eq_of_waits hwaits ⟨hconn, heq.symm, hwaits.2.2⟩
  · rw [hmap]
    exact hm.keys.sublist (filter_sublist.map Prod.fst)

/-- A slot starts to wait, and its entry is put. -/
theorem MapOk.put (hm : MapOk b) {c : Nat} (hmap : b'.replyCallbacks = b.replyCallbacks ++ [(c, s)])
    (hslots : ∀ t, t ≠ s → b'.slots t = b.slots t) (hidle : ∀ c, ¬(b.slots s).Waits c)
    (hwaits : (b'.slots s).Waits c) (hnew : ∀ e ∈ b.replyCallbacks, e.1 ≠ c) : MapOk b' := by
  constructor
  · intro c' t
    rw [hmap, mem_append, hm.entries, mem_singleton]
    by_cases hts : t = s
    · subst hts
      constructor
      · rintro (hold | heq)
        · exact absurd hold (hidle c')
        · cases heq
          exact hwaits
      · intro hw
        refine .inr ?_
        rw [← hw.2.1, hwaits.2.1]
    · rw [hslots t hts]
      refine ⟨fun h => h.resolve_right fun heq => hts ?_, .inl⟩
      cases heq
      rfl
  · rw [hmap, map_append, nodup_append]
    refine ⟨hm.keys, nodup_singleton _, fun k hk k' hk' => ?_⟩
    obtain ⟨e, he, rfl⟩ := mem_map.mp hk
    cases mem_singleton.mp hk'
    exact hnew e he

/-! ## The queue -/

/-- No timeout is later than any timeout. -/
theorem timeoutCompare_le_iff (slots : Nat → ReplySlot) (x y : Nat) :
    timeoutCompare slots x y ≤ 0 ↔
      (slots y).timeoutUsec = 0 ∨ ((slots x).timeoutUsec ≠ 0 ∧ (slots x).timeoutUsec ≤ (slots y).timeoutUsec) := by
  unfold timeoutCompare
  dsimp only
  split
  · omega
  · split
    · omega
    · split
      · omega
      · split <;> omega

theorem timeoutCompare_lt_iff (slots : Nat → ReplySlot) (x y : Nat) :
    timeoutCompare slots x y < 0 ↔ ¬timeoutCompare slots y x ≤ 0 := by
  rw [timeoutCompare_le_iff]
  unfold timeoutCompare
  dsimp only
  split
  · omega
  · split
    · omega
    · split
      · omega
      · split <;> omega

theorem isTotalPreorder_timeoutCompare (slots : Nat → ReplySlot) :
    Prioq.IsTotalPreorder (timeoutCompare slots) where
  swap x y := by
    rw [timeoutCompare_lt_iff]
    omega
  trans {x y z} hxy hyz := by
    rw [timeoutCompare_le_iff] at hxy hyz ⊢
    omega

/-- What is in the queue is there once. -/
theorem QueueOk.nodup (hq : QueueOk b) : b.prioqItems.Nodup := by
  rw [nodup_iff_getElem?_ne_getElem?]
  intro i j hij hj heq
  obtain ⟨x, hx⟩ : ∃ x, b.prioqItems[j]? = some x := ⟨_, getElem?_eq_getElem hj⟩
  rw [hx] at heq
  have hidx := ((hq.items x).mp (mem_of_getElem? hx)).1
  have hi := hq.valid.cells i x x.data heq hidx
  have hj := hq.valid.cells j x x.data hx hidx
  omega

theorem QueueOk.eq_of_data (hq : QueueOk b) {x : PrioqItem Nat Nat} (hx : x ∈ b.prioqItems) (hdata : x.data = s) :
    x = { data := s, idx := some s } := by
  have hidx := ((hq.items x).mp hx).1
  obtain ⟨data, idx⟩ := x
  cases hdata
  exact congrArg _ hidx

/-- The slots that matter to the queue are the same. -/
theorem QueueOk.congr (hq : QueueOk b) (hitems : b'.prioqItems = b.prioqItems)
    (hidx : ∀ s, (b.slots s).Timed → b'.prioqIdx s = b.prioqIdx s)
    (htimed : ∀ s, (b'.slots s).Timed ↔ (b.slots s).Timed)
    (htimeout : ∀ s, (b.slots s).Timed → (b'.slots s).timeoutUsec = (b.slots s).timeoutUsec) : QueueOk b' := by
  refine ⟨fun x => by rw [hitems, htimed]; exact hq.items x, ?_⟩
  have hsame : b.queue.SamePriorities (timeoutCompare b'.slots) none := by
    intro i j x y _ _ hx hy
    have hx' := ((hq.items x).mp (mem_of_getElem? hx)).2
    have hy' := ((hq.items y).mp (mem_of_getElem? hy)).2
    show timeoutCompare b'.slots x.data y.data = timeoutCompare b.slots x.data y.data
    unfold timeoutCompare
    rw [htimeout _ hx', htimeout _ hy']
  have hcells : ∀ c, b.queue.Registered c → b'.prioqIdx c = b.queue.cells c := by
    rintro c ⟨x, hx, hxc⟩
    obtain ⟨hidx', htimed'⟩ := (hq.items x).mp hx
    rw [hidx'] at hxc
    cases hxc
    exact hidx x.data htimed'
  unfold queue
  rw [hitems]
  exact hq.valid.of_samePriorities (isTotalPreorder_timeoutCompare b'.slots) hsame hcells

/-- A slot leaves the queue. -/
theorem QueueOk.remove (hq : QueueOk b) {q : Prioq Nat Nat} (hvalid : q.Valid)
    (hcompare : q.compareFunc = timeoutCompare b.slots)
    (hperm : ({ data := s, idx := some s } :: q.items).Perm b.prioqItems)
    (hitems : b'.prioqItems = q.items) (hidx : b'.prioqIdx = q.cells)
    (hslots : ∀ t, t ≠ s → b'.slots t = b.slots t) (hs : ¬(b'.slots s).Timed) : QueueOk b' := by
  have hnodup := hperm.nodup_iff.mpr hq.nodup
  have hout : ∀ x ∈ q.items, x.data ≠ s := by
    intro x hx hdata
    have heq := hq.eq_of_data (hperm.mem_iff.mp (mem_cons_of_mem _ hx)) hdata
    rw [heq] at hx
    exact (nodup_cons.mp hnodup).1 hx
  constructor
  · intro x
    rw [hitems]
    by_cases hxs : x.data = s
    · constructor
      · exact fun hx => absurd hxs (hout x hx)
      · rintro ⟨-, htimed⟩
        rw [hxs] at htimed
        exact absurd htimed hs
    · rw [hslots _ hxs, ← hq.items x, ← hperm.mem_iff, mem_cons]
      refine ⟨.inr, fun h => h.resolve_left fun heq => hxs ?_⟩
      rw [heq]
  · have hsame : q.SamePriorities (timeoutCompare b'.slots) none := by
      intro i j x y _ _ hx hy
      have hx' := hout x (mem_of_getElem? hx)
      have hy' := hout y (mem_of_getElem? hy)
      rw [hcompare]
      unfold timeoutCompare
      rw [hslots _ hx', hslots _ hy']
    unfold queue
    rw [hitems, hidx]
    exact hvalid.of_samePriorities (isTotalPreorder_timeoutCompare b'.slots) hsame fun _ _ => rfl

/-- `prioq_remove` finds a slot that may time out. -/
theorem QueueOk.prioqRemove (hq : QueueOk b) (htimed : (b.slots s).Timed) {fuel : Nat} {q : Prioq Nat Nat} {r : Int}
    (h : b.queue.prioqRemove fuel s (some s) = some (q, r)) :
    q.Valid ∧ ({ data := s, idx := some s } :: q.items).Perm b.prioqItems := by
  obtain ⟨hvalid, hperm⟩ := (Prioq.prioqRemove_spec hq.valid s (some s)).2 fuel q r h
  refine ⟨hvalid, ?_⟩
  obtain ⟨i, hi⟩ := mem_iff_getElem?.mp ((hq.items { data := s, idx := some s }).mpr ⟨rfl, htimed⟩)
  have hcell : b.prioqIdx s = i := hq.valid.cells i _ s hi rfl
  have hlt : i < b.prioqItems.length := (List.getElem?_eq_some_iff.mp hi).1
  have hfits : b.prioqItems.length ≤ 2 ^ 31 := hq.valid.fits
  have hfind : b.queue.findItem s (some s) = some i := by
    show (if b.prioqIdx s = prioqIdxNull ∨ b.prioqIdx s ≥ b.prioqItems.length then none
      else if (b.prioqItems[b.prioqIdx s]?).map (·.data) = some s then some (b.prioqIdx s) else none) = some i
    rw [hcell, hi, if_neg (by unfold prioqIdxNull; omega)]
    exact if_pos rfl
  rw [hfind] at hperm
  replace hperm : ((b.prioqItems[i]?).toList ++ q.items).Perm b.prioqItems := hperm
  rw [hi] at hperm
  exact hperm

/-! ## Slots that are taken out -/

/-- Nothing that matters to the calls is changed. -/
structure SameCalls (b b' : Bus) : Prop where
  replyCallbacks : b'.replyCallbacks = b.replyCallbacks
  prioqItems : b'.prioqItems = b.prioqItems
  prioqIdx : b'.prioqIdx = b.prioqIdx
  connected : ∀ s, (b'.slots s).connected = (b.slots s).connected
  cookie : ∀ s, (b'.slots s).cookie = (b.slots s).cookie
  timeoutUsec : ∀ s, (b'.slots s).timeoutUsec = (b.slots s).timeoutUsec
  nSlots : b'.nSlots = b.nSlots
  invoked : b'.invoked = b.invoked
  connecting : b'.state.isConnecting = true → b.state.isConnecting = true

theorem CallsOk.same (hb : CallsOk b) (h : SameCalls b b') : CallsOk b' := by
  have hwaits : ∀ s c, (b'.slots s).Waits c ↔ (b.slots s).Waits c := by
    intro s c
    unfold ReplySlot.Waits
    rw [h.connected, h.cookie]
  have htimed : ∀ s, (b'.slots s).Timed ↔ (b.slots s).Timed := by
    intro s
    unfold ReplySlot.Timed
    rw [h.connected, h.timeoutUsec]
  refine ⟨hb.map.congr h.replyCallbacks hwaits, ?_, ⟨?_, ?_, ?_⟩, ?_, ?_⟩
  · exact hb.queue.congr h.prioqItems (fun s _ => by rw [h.prioqIdx]) htimed fun s _ => h.timeoutUsec s
  · rw [h.invoked]
    exact hb.invoked.once
  · rw [h.invoked]
    exact hb.invoked.connected
  · rw [h.invoked]
    intro x hx
    rw [h.cookie, h.timeoutUsec]
    exact hb.invoked.done x hx
  · intro s hs
    rw [h.nSlots] at hs
    rw [h.connected, h.invoked]
    exact hb.fresh s hs
  · intro hconnecting s hs
    rw [h.cookie]
    exact hb.connecting (h.connecting hconnecting) s ((htimed s).mp hs)

@[simp]
theorem slots_setSlot_self (b : Bus) (s : Nat) (slot : ReplySlot) : (b.setSlot s slot).slots s = slot :=
  Function.update_self ..

theorem slots_setSlot_of_ne (b : Bus) {s t : Nat} (slot : ReplySlot) (h : t ≠ s) :
    (b.setSlot s slot).slots t = b.slots t :=
  Function.update_of_ne h ..

/-- Only the references of a slot are counted, or it becomes floating or not. -/
theorem sameCalls_setSlot (b : Bus) (s : Nat) (floating : Bool) (nRef : Nat) :
    SameCalls b (b.setSlot s { b.slots s with floating := floating, nRef := nRef }) := by
  have hslot : ∀ t, ((b.setSlot s { b.slots s with floating := floating, nRef := nRef }).slots t).connected =
        (b.slots t).connected ∧
      ((b.setSlot s { b.slots s with floating := floating, nRef := nRef }).slots t).cookie = (b.slots t).cookie ∧
      ((b.setSlot s { b.slots s with floating := floating, nRef := nRef }).slots t).timeoutUsec =
        (b.slots t).timeoutUsec := by
    intro t
    by_cases hts : t = s
    · subst hts
      rw [slots_setSlot_self]
      exact ⟨rfl, rfl, rfl⟩
    · rw [slots_setSlot_of_ne b _ hts]
      exact ⟨rfl, rfl, rfl⟩
  exact ⟨rfl, rfl, rfl, fun t => (hslot t).1, fun t => (hslot t).2.1, fun t => (hslot t).2.2, rfl, rfl, id⟩

theorem CallsOk.dropRef (hb : CallsOk b) (s : Nat) : CallsOk (b.dropRef s) :=
  hb.same (sameCalls_setSlot b s (b.slots s).floating _)

/-- What `bus_slot_disconnect` removes from the queue. -/
theorem QueueOk.leave (hq : QueueOk b) (hconn : (b.slots s).connected = true) {b₀ b₁ : Bus}
    (hitems₀ : b₀.prioqItems = b.prioqItems) (hidx₀ : b₀.prioqIdx = b.prioqIdx) (hslots₀ : b₀.slots = b.slots) {fuel : Nat}
    (h : (if (b₀.slots s).timeoutUsec ≠ 0 then b₀.dequeue fuel s else some b₀) = some b₁)
    (hitems : b'.prioqItems = b₁.prioqItems) (hidx : b'.prioqIdx = b₁.prioqIdx)
    (hslots : ∀ t, t ≠ s → b'.slots t = b.slots t) (hs : ¬(b'.slots s).Timed) : QueueOk b' := by
  have hqueue₀ : b₀.queue = b.queue := by
    unfold queue
    rw [hitems₀, hidx₀, hslots₀]
  rw [hslots₀] at h
  split at h
  · next htimeout =>
    obtain ⟨⟨q, r⟩, hremove, rfl⟩ := Option.map_eq_some_iff.mp h
    rw [hqueue₀] at hremove
    obtain ⟨hvalid, hperm⟩ := hq.prioqRemove ⟨hconn, htimeout⟩ hremove
    exact hq.remove hvalid (Prioq.compareFunc_prioqRemove hremove) hperm hitems hidx hslots hs
  · next htimeout =>
    cases h
    have hidle : ¬(b.slots s).Timed := fun htimed => htimeout htimed.2
    refine hq.congr (hitems.trans hitems₀) (fun t _ => by rw [hidx, hidx₀]) (fun t => ?_) fun t ht => ?_
    · by_cases hts : t = s
      · subst hts
        exact iff_of_false hs hidle
      · rw [hslots t hts]
    · rw [hslots t fun hts => hidle (hts ▸ ht)]

/-- Only the queue is changed. -/
theorem eq_setQueue {b₀ b₁ : Bus} {timed : Prop} [Decidable timed] {fuel : Nat}
    (h : (if timed then b₀.dequeue fuel s else some b₀) = some b₁) : ∃ q, b₁ = b₀.setQueue q := by
  split at h
  · obtain ⟨r, -, rfl⟩ := Option.map_eq_some_iff.mp h
    exact ⟨r.1, rfl⟩
  · cases h
    exact ⟨b₀.queue, rfl⟩

/-- No entry has cookie 0. -/
theorem MapOk.filter_ne (hm : MapOk b) (s : Nat) :
    (if (b.slots s).cookie ≠ 0 then b.removeCallback (b.slots s).cookie else b) =
      b.removeCallback (b.slots s).cookie := by
  split
  · rfl
  · next hzero =>
    have hall : b.replyCallbacks.filter (fun e => e.1 ≠ (b.slots s).cookie) = b.replyCallbacks := by
      rw [filter_eq_self]
      intro e he
      have hwaits := (hm.entries e.1 e.2).mp he
      rw [decide_eq_true_iff, not_not.mp hzero]
      exact hwaits.2.2
    unfold removeCallback
    rw [hall]

/-- One connected slot is changed, and may stop to wait. -/
theorem CallsOk.update (hb : CallsOk b) (hconn : (b.slots s).connected = true) (hmap : MapOk b')
    (hqueue : QueueOk b') (hslots : ∀ t, t ≠ s → b'.slots t = b.slots t)
    (hdone : (b.slots s).cookie = 0 → (b.slots s).timeoutUsec = 0 →
      (b'.slots s).cookie = 0 ∧ (b'.slots s).timeoutUsec = 0)
    (hstate : b'.state = b.state) (hinvoked : b'.invoked = b.invoked) (hnSlots : b'.nSlots = b.nSlots)
    (hconnecting : b.state.isConnecting = true → (b'.slots s).Timed → (b'.slots s).cookie ≠ 0) : CallsOk b' := by
  refine ⟨hmap, hqueue, ⟨?_, ?_, ?_⟩, ?_, ?_⟩
  · rw [hinvoked]
    exact hb.invoked.once
  · rw [hinvoked]
    exact hb.invoked.connected
  · rw [hinvoked]
    intro x hx
    obtain ⟨hcookie', htimeout'⟩ := hb.invoked.done x hx
    by_cases hxs : x.1 = s
    · rw [hxs] at hcookie' htimeout' ⊢
      exact hdone hcookie' htimeout'
    · rw [hslots _ hxs]
      exact ⟨hcookie', htimeout'⟩
  · rw [hinvoked, hnSlots]
    intro t ht
    obtain ⟨hfresh, hnone⟩ := hb.fresh t ht
    have hts : t ≠ s := by
      rintro rfl
      rw [hconn] at hfresh
      cases hfresh
    rw [hslots t hts]
    exact ⟨hfresh, hnone⟩
  · rw [hstate]
    intro hconn' t ht
    by_cases hts : t = s
    · subst hts
      exact hconnecting hconn' ht
    · rw [hslots t hts] at ht ⊢
      exact hb.connecting hconn' t ht

/-- `bus_slot_disconnect` takes the slot out of both collections. -/
theorem CallsOk.busSlotDisconnect (hb : CallsOk b) {fuel : Nat} {unref : Bool}
    (h : b.busSlotDisconnect fuel s unref = some b') : CallsOk b' := by
  unfold Bus.busSlotDisconnect at h
  split at h
  · cases h
    exact hb
  next hconn =>
  replace hconn : (b.slots s).connected = true := by simpa using hconn
  dsimp only at h
  split at h
  · cases h
  next b₁ hb₁ =>
  obtain ⟨q, hq⟩ := eq_setQueue hb₁
  rw [hb.map.filter_ne] at hb₁ hq
  have hslots₁ : b₁.slots = b.slots := by
    rw [hq]
    rfl
  have hdone : CallsOk (b₁.setSlot s { b₁.slots s with connected := false }) := by
    have hself := slots_setSlot_self b₁ s { b₁.slots s with connected := false }
    have hslots : ∀ t, t ≠ s → (b₁.setSlot s { b₁.slots s with connected := false }).slots t = b.slots t := by
      intro t hts
      rw [slots_setSlot_of_ne _ _ hts, hslots₁]
    have hwaits : ∀ c, ¬((b₁.setSlot s { b₁.slots s with connected := false }).slots s).Waits c := by
      intro c hw
      rw [hself] at hw
      cases hw.1
    have htimed : ¬((b₁.setSlot s { b₁.slots s with connected := false }).slots s).Timed := by
      intro ht
      rw [hself] at ht
      cases ht.1
    have hmap : MapOk (b₁.setSlot s { b₁.slots s with connected := false }) :=
      hb.map.remove hconn (by rw [hq]; rfl) hslots hwaits
    have hqueue : QueueOk (b₁.setSlot s { b₁.slots s with connected := false }) := by
      refine hb.queue.leave hconn ?_ ?_ ?_ hb₁ rfl rfl hslots htimed
      · rfl
      · rfl
      · rfl
    refine hb.update hconn hmap hqueue hslots (fun hcookie htimeout => ?_) (by rw [hq]; rfl) (by rw [hq]; rfl)
      (by rw [hq]; rfl) fun _ ht => absurd ht htimed
    rw [hself, hslots₁]
    exact ⟨hcookie, htimeout⟩
  split at h
  · cases h
    exact hdone.dropRef s
  · cases h
    exact hdone

theorem CallsOk.slotUnref (hb : CallsOk b) {fuel : Nat} (h : b.slotUnref fuel s = some b') : CallsOk b' := by
  unfold Bus.slotUnref at h
  split at h
  · cases h
  dsimp only at h
  split at h
  · exact (hb.dropRef s).busSlotDisconnect h
  · cases h
    exact hb.dropRef s

/-! ## Calls that complete -/

/-- The slot does not wait for a reply any more. -/
theorem CallsOk.unregister (hb : CallsOk b) (hconn : (b.slots s).connected = true)
    (hstate : b.state.isConnecting = true → (b.slots s).timeoutUsec = 0) :
    CallsOk ((b.removeCallback (b.slots s).cookie).setSlot s { b.slots s with cookie := 0 }) := by
  have hslots : ∀ t, t ≠ s →
      ((b.removeCallback (b.slots s).cookie).setSlot s { b.slots s with cookie := 0 }).slots t = b.slots t :=
    fun t hts => slots_setSlot_of_ne _ _ hts
  have hself := slots_setSlot_self (b.removeCallback (b.slots s).cookie) s { b.slots s with cookie := 0 }
  have hmap := hb.map.remove hconn (show ((b.removeCallback (b.slots s).cookie).setSlot s
    { b.slots s with cookie := 0 }).replyCallbacks = _ from rfl) hslots fun c hw => by
      rw [hself] at hw
      exact hw.2.2 hw.2.1.symm
  have hqueue : QueueOk ((b.removeCallback (b.slots s).cookie).setSlot s { b.slots s with cookie := 0 }) := by
    refine hb.queue.congr rfl (fun _ _ => rfl) (fun t => ?_) fun t _ => ?_
    · by_cases hts : t = s
      · subst hts
        rw [hself]
        exact Iff.rfl
      · rw [hslots t hts]
    · by_cases hts : t = s
      · subst hts
        rw [hself]
      · rw [hslots t hts]
  refine hb.update hconn hmap hqueue hslots (fun _ htimeout => ?_) rfl rfl rfl fun hconnecting ht => ?_
  · rw [hself]
    exact ⟨rfl, htimeout⟩
  · rw [hself] at ht
    exact absurd (hstate hconnecting) ht.2

/-- The slot does not time out any more. -/
theorem CallsOk.untimed (hb : CallsOk b) (hconn : (b.slots s).connected = true) (q : Prioq Nat Nat)
    (hqueue : QueueOk ((b.setQueue q).setSlot s { b.slots s with timeoutUsec := 0 })) :
    CallsOk ((b.setQueue q).setSlot s { b.slots s with timeoutUsec := 0 }) := by
  have hslots : ∀ t, t ≠ s → ((b.setQueue q).setSlot s { b.slots s with timeoutUsec := 0 }).slots t = b.slots t :=
    fun t hts => slots_setSlot_of_ne _ _ hts
  have hself := slots_setSlot_self (b.setQueue q) s { b.slots s with timeoutUsec := 0 }
  have hmap : MapOk ((b.setQueue q).setSlot s { b.slots s with timeoutUsec := 0 }) := by
    refine hb.map.congr rfl fun t c => ?_
    by_cases hts : t = s
    · subst hts
      rw [hself]
      exact Iff.rfl
    · rw [hslots t hts]
  refine hb.update hconn hmap hqueue hslots (fun hcookie _ => ?_) rfl rfl rfl fun hconnecting ht => ?_
  · rw [hself]
    exact ⟨hcookie, rfl⟩
  · rw [hself] at ht
    exact absurd rfl ht.2

/-- What holds after the timeout was stopped. -/
theorem CallsOk.stopTimeout (hb : CallsOk b) (hconn : (b.slots s).connected = true) {fuel : Nat}
    (h : b.stopTimeout fuel s = some b') :
    CallsOk b' ∧ b'.slots s = { b.slots s with timeoutUsec := 0 } ∧ b'.invoked = b.invoked ∧
      b'.state = b.state := by
  unfold Bus.stopTimeout at h
  split at h
  · next htimeout =>
    obtain ⟨b₁, hb₁, rfl⟩ := Option.map_eq_some_iff.mp h
    obtain ⟨⟨q, r⟩, hremove, rfl⟩ := Option.map_eq_some_iff.mp hb₁
    obtain ⟨hvalid, hperm⟩ := hb.queue.prioqRemove ⟨hconn, htimeout⟩ hremove
    refine ⟨hb.untimed hconn q ?_, slots_setSlot_self .., rfl, rfl⟩
    refine hb.queue.remove hvalid (Prioq.compareFunc_prioqRemove hremove) hperm rfl rfl
      (fun t hts => slots_setSlot_of_ne _ _ hts) fun ht => ?_
    rw [slots_setSlot_self] at ht
    exact ht.2 rfl
  · next htimeout =>
    cases h
    refine ⟨hb, ?_, rfl, rfl⟩
    rw [← not_not.mp htimeout]

/-- The callback of a slot that does not wait any more is invoked. -/
theorem CallsOk.invoke (hb : CallsOk b) (hconn : (b.slots s).connected = true) (hcookie : (b.slots s).cookie = 0)
    (htimeout : (b.slots s).timeoutUsec = 0) (hnew : ∀ x ∈ b.invoked, x.1 ≠ s) (h : b.invoke s = some b') :
    CallsOk b' := by
  unfold Bus.invoke at h
  split at h
  · cases h
    have href := hb.same (sameCalls_setSlot b s (b.slots s).floating ((b.slots s).nRef + 1))
    refine ⟨⟨href.map.entries, href.map.keys⟩, ⟨href.queue.items, href.queue.valid⟩, ⟨?_, ?_, ?_⟩, ?_,
      href.connecting⟩
    · show ((b.invoked ++ [(s, (b.slots s).connected)]).map Prod.fst).Nodup
      rw [map_append, nodup_append]
      refine ⟨hb.invoked.once, nodup_singleton _, fun k hk k' hk' => ?_⟩
      obtain ⟨x, hx, rfl⟩ := mem_map.mp hk
      cases mem_singleton.mp hk'
      exact hnew x hx
    · intro x hx
      rcases mem_append.mp hx with hold | hlast
      · exact hb.invoked.connected x hold
      · cases mem_singleton.mp hlast
        exact hconn
    · intro x hx
      rcases mem_append.mp hx with hold | hlast
      · exact href.invoked.done x hold
      · cases mem_singleton.mp hlast
        show ((b.setSlot s _).slots s).cookie = 0 ∧ ((b.setSlot s _).slots s).timeoutUsec = 0
        rw [slots_setSlot_self]
        exact ⟨hcookie, htimeout⟩
    · intro t ht
      obtain ⟨hfresh, hnone⟩ := href.fresh t ht
      refine ⟨hfresh, fun x hx => ?_⟩
      rcases mem_append.mp hx with hold | hlast
      · exact hnone x hold
      · cases mem_singleton.mp hlast
        rintro rfl
        rw [(hb.fresh s ht).1] at hconn
        cases hconn
  · cases h

/-- A slot that waits was not invoked yet. -/
theorem CallsOk.not_invoked (hb : CallsOk b) (hwaits : (b.slots s).cookie ≠ 0 ∨ (b.slots s).timeoutUsec ≠ 0) :
    ∀ x ∈ b.invoked, x.1 ≠ s := by
  rintro x hx rfl
  obtain ⟨hcookie, htimeout⟩ := hb.invoked.done x hx
  omega

theorem CallsOk.processReply (hb : CallsOk b) (hstate : b.state.isConnecting = false) {fuel replyCookie : Nat}
    {made : Bool} (h : b.processReply fuel replyCookie made = some b') : CallsOk b' := by
  unfold Bus.processReply at h
  split at h
  · cases h
    exact hb
  next c s hfind =>
  have hkey : c = replyCookie := by simpa using find?_some hfind
  obtain ⟨hconn, hcookie, hne⟩ := (hb.map.entries c s).mp (mem_of_find?_eq_some hfind)
  have hnew := hb.not_invoked (s := s) (.inl (by rw [hcookie]; exact hne))
  have hb₁ := hb.unregister hconn (s := s) fun hconnecting => by
    rw [hstate] at hconnecting
    cases hconnecting
  rw [hcookie, hkey] at hb₁
  dsimp only at h
  split at h
  · cases h
    exact hb₁
  split at h
  · cases h
  next b₂ hstop =>
  have hself := slots_setSlot_self (b.removeCallback replyCookie) s { b.slots s with cookie := 0 }
  obtain ⟨hb₂, hslot, hinvoked, -⟩ := hb₁.stopTimeout (by rw [hself]; exact hconn) hstop
  rw [hself] at hslot
  refine hb₂.invoke ?_ ?_ ?_ ?_ h
  · rw [hslot]
    exact hconn
  · rw [hslot]
  · rw [hslot]
  · rw [hinvoked]
    exact hnew

theorem CallsOk.processClosing (hb : CallsOk b) {fuel : Nat} {made : Bool}
    (h : b.processClosing fuel made = some b') : CallsOk b' := by
  unfold Bus.processClosing at h
  split at h
  · cases h
    exact hb
  next c s hhead =>
  split at h
  · cases h
    exact hb
  split at h
  · cases h
  next b₁ hstop =>
  obtain ⟨hconn, hcookie, hne⟩ := (hb.map.entries c s).mp (mem_of_head? hhead)
  have hnew := hb.not_invoked (s := s) (.inl (by rw [hcookie]; exact hne))
  obtain ⟨hb₁, hslot, hinvoked, -⟩ := hb.stopTimeout hconn hstop
  have hconn₁ : (b₁.slots s).connected = true := by
    rw [hslot]
    exact hconn
  have htimeout₁ : (b₁.slots s).timeoutUsec = 0 := by rw [hslot]
  have hb₂ := hb₁.unregister hconn₁ fun _ => htimeout₁
  have hself := slots_setSlot_self (b₁.removeCallback (b₁.slots s).cookie) s { b₁.slots s with cookie := 0 }
  refine hb₂.invoke ?_ ?_ ?_ ?_ h
  · rw [hself]
    exact hconn₁
  · rw [hself]
  · rw [hself]
    exact htimeout₁
  · show ∀ x ∈ b₁.invoked, x.1 ≠ s
    rw [hinvoked]
    exact hnew

theorem CallsOk.processTimeout (hb : CallsOk b) {fuel now : Nat} {made : Bool}
    (h : b.processTimeout fuel now made = some b') : CallsOk b' := by
  unfold Bus.processTimeout at h
  split at h
  · cases h
    exact hb
  next s hpeek =>
  split at h
  · cases h
    exact hb
  split at h
  · cases h
    exact hb
  split at h
  · cases h
  next q popped hpop =>
  split at h
  · cases h
  -- the first item of the queue is the one that was looked at
  have hfirst : b.prioqItems[0]? = some { data := s, idx := some s } := by
    obtain ⟨x, hx, hdata⟩ := Option.map_eq_some_iff.mp hpeek
    rw [← hb.queue.eq_of_data (mem_of_getElem? hx) hdata]
    exact hx
  obtain ⟨-, htimed⟩ := (hb.queue.items _).mp (mem_of_getElem? hfirst)
  obtain ⟨hvalid, -, hperm⟩ := (Prioq.prioqPop_spec hb.queue.valid).2 fuel q popped hpop
  replace hperm : ((b.prioqItems[0]?).toList ++ q.items).Perm b.prioqItems := hperm
  rw [hfirst] at hperm
  have hnew := hb.not_invoked (s := s) (.inr htimed.2)
  have hself₁ := slots_setSlot_self (b.setQueue q) s { b.slots s with timeoutUsec := 0 }
  have hb₁ := hb.untimed (s := s) htimed.1 q (by
    refine hb.queue.remove hvalid (Prioq.compareFunc_prioqPop hpop) hperm rfl rfl
      (fun t hts => slots_setSlot_of_ne _ _ hts) fun ht => ?_
    rw [hself₁] at ht
    exact ht.2 rfl)
  have hb₂ := hb₁.unregister (s := s) (by rw [hself₁]; exact htimed.1) fun _ => by rw [hself₁]
  refine hb₂.invoke ?_ ?_ ?_ hnew h
  · rw [slots_setSlot_self, hself₁]
    exact htimed.1
  · rw [slots_setSlot_self]
  · rw [slots_setSlot_self, hself₁]

theorem CallsOk.callbackReturns (hb : CallsOk b) {fuel : Nat} (h : b.callbackReturns fuel s = some b') :
    CallsOk b' := by
  unfold Bus.callbackReturns at h
  have hb₀ : CallsOk { b with currentSlot := none } :=
    hb.same ⟨rfl, rfl, rfl, fun _ => rfl, fun _ => rfl, fun _ => rfl, rfl, rfl, id⟩
  dsimp only at h
  split at h
  · cases h
  next b₁ hb₁ =>
  have hdisconnected : CallsOk b₁ := by
    split at hb₁
    · exact hb₀.busSlotDisconnect hb₁
    · cases hb₁
      exact hb₀
  exact hdisconnected.slotUnref h

theorem CallsOk.slotSetFloating (hb : CallsOk b) {fuel : Nat} {floating : Bool}
    (h : b.slotSetFloating fuel s floating = some b') : CallsOk b' := by
  unfold Bus.slotSetFloating at h
  split at h
  · cases h
    exact hb
  split at h
  · cases h
    exact hb
  have hb₁ := hb.same (sameCalls_setSlot b s floating (b.slots s).nRef)
  split at h
  · cases h
    exact hb₁.same (sameCalls_setSlot ..)
  · exact hb₁.slotUnref h

/-! ## Starting to run -/

/-- Later timeouts stay later. -/
theorem usecAdd_mono (n : Nat) {x y : Nat} (h : x ≤ y) : usecAdd n x ≤ usecAdd n y := by
  unfold usecAdd
  split
  · next hx =>
    rw [if_pos (by omega)]
  · split
    · omega
    · omega

theorem usecAdd_ne_zero (n : Nat) {x : Nat} (h : x ≠ 0) : usecAdd n x ≠ 0 := by
  unfold usecAdd usecInfinity
  split <;> omega

/-- What `bus_start_running` does to a slot. -/
def shifted (n : Nat) (slot : ReplySlot) : ReplySlot :=
  if slot.timeoutUsec = 0 then slot else { slot with timeoutUsec := usecAdd n slot.timeoutUsec }

theorem shiftTimeout_eq (n : Nat) (b : Bus) (s : Nat) : shiftTimeout n b s = b.setSlot s (shifted n (b.slots s)) := by
  unfold shiftTimeout shifted
  split
  · unfold setSlot
    rw [Function.update_eq_self]
  · rfl

/-- The timeouts of all slots of the list are shifted, and nothing else is changed. -/
theorem foldl_shiftTimeout (n : Nat) (b : Bus) {l : List Nat} (hl : l.Nodup) :
    l.foldl (shiftTimeout n) b =
      { b with slots := fun s => if s ∈ l then shifted n (b.slots s) else b.slots s } := by
  induction l generalizing b with
  | nil => simp
  | cons s l ih =>
    obtain ⟨hs, hl⟩ := nodup_cons.mp hl
    rw [foldl_cons, ih _ hl, shiftTimeout_eq]
    unfold setSlot
    congr 1
    funext t
    dsimp only
    by_cases hts : t = s
    · subst hts
      rw [if_neg hs, if_pos mem_cons_self, Function.update_self]
    · simp [hts]

theorem MapOk.nodup_slots (hm : MapOk b) : (b.replyCallbacks.map Prod.snd).Nodup := by
  have hentries : b.replyCallbacks.Nodup := Nodup.of_map _ hm.keys
  refine (nodup_map_iff_inj_on hentries).mpr fun x hx y hy hxy => ?_
  obtain ⟨cx, sx⟩ := x
  obtain ⟨cy, sy⟩ := y
  cases hxy
  have hwx := (hm.entries cx sx).mp hx
  have hwy := (hm.entries cy sx).mp hy
  rw [← hwx.2.1, hwy.2.1]

/-- The queue stays in order when all timeouts are shifted. -/
theorem QueueOk.shift (hq : QueueOk b) {n : Nat} (hitems : b'.prioqItems = b.prioqItems)
    (hidx : b'.prioqIdx = b.prioqIdx) (htimed : ∀ s, (b'.slots s).Timed ↔ (b.slots s).Timed)
    (hshift : ∀ s, (b.slots s).Timed → (b'.slots s).timeoutUsec = usecAdd n (b.slots s).timeoutUsec) :
    QueueOk b' := by
  refine ⟨fun x => by rw [hitems, htimed]; exact hq.items x, ?_⟩
  have hitem : ∀ i x, b.queue.itemAt i = some x → (b.slots x.data).Timed :=
    fun i x hx => ((hq.items x).mp (mem_of_getElem? hx)).2
  unfold queue
  rw [hitems, hidx]
  refine ⟨isTotalPreorder_timeoutCompare _, hq.valid.fits, fun p c hchild x y hx hy => ?_, hq.valid.cells⟩
  have hle : timeoutCompare b.slots x.data y.data ≤ 0 := hq.valid.ordered p c hchild x y hx hy
  have hx' := hitem p x hx
  have hy' := hitem c y hy
  rw [timeoutCompare_le_iff] at hle
  show timeoutCompare b'.slots x.data y.data ≤ 0
  rw [timeoutCompare_le_iff, hshift _ hx', hshift _ hy']
  rcases hle with hzero | ⟨-, hle⟩
  · exact absurd hzero hy'.2
  · exact .inr ⟨usecAdd_ne_zero n hx'.2, usecAdd_mono n hle⟩

theorem shifted_cookie (n : Nat) (slot : ReplySlot) : (shifted n slot).cookie = slot.cookie := by
  unfold shifted
  split <;> rfl

theorem shifted_connected (n : Nat) (slot : ReplySlot) : (shifted n slot).connected = slot.connected := by
  unfold shifted
  split <;> rfl

theorem shifted_timed (n : Nat) (slot : ReplySlot) : (shifted n slot).Timed ↔ slot.Timed := by
  unfold shifted
  split
  · exact Iff.rfl
  · next htimeout =>
    have hne := usecAdd_ne_zero n htimeout
    exact and_congr_right fun _ => iff_of_true hne htimeout

theorem CallsOk.busStartRunning (hb : CallsOk b) (hstate : b.state.isConnecting = true) (now : Nat)
    (busClient : Bool) : CallsOk (b.busStartRunning now busClient) := by
  unfold Bus.busStartRunning
  rw [foldl_shiftTimeout now b hb.map.nodup_slots]
  -- all that may time out wait for a reply, and so are shifted
  have hin : ∀ s, (b.slots s).Timed → s ∈ b.replyCallbacks.map Prod.snd := by
    intro s hs
    have hwaits : (b.slots s).Waits (b.slots s).cookie := ⟨hs.1, rfl, hb.connecting hstate s hs⟩
    exact mem_map.mpr ⟨_, (hb.map.entries _ s).mpr hwaits, rfl⟩
  have hslot : ∀ s, (if s ∈ b.replyCallbacks.map Prod.snd then shifted now (b.slots s) else b.slots s) = b.slots s ∨
      (if s ∈ b.replyCallbacks.map Prod.snd then shifted now (b.slots s) else b.slots s) = shifted now (b.slots s) := by
    intro s
    split
    · exact .inr rfl
    · exact .inl rfl
  refine ⟨hb.map.congr rfl fun s c => ?_, ?_, ⟨hb.invoked.once, hb.invoked.connected, fun x hx => ?_⟩,
    fun s hs => ?_, fun hconnecting => ?_⟩
  · dsimp only
    rcases hslot s with heq | heq
    · rw [heq]
    · rw [heq]
      unfold ReplySlot.Waits
      rw [shifted_connected, shifted_cookie]
  · refine hb.queue.shift (n := now) rfl rfl (fun s => ?_) fun s hs => ?_
    · dsimp only
      rcases hslot s with heq | heq
      · rw [heq]
      · rw [heq]
        exact shifted_timed now _
    · dsimp only
      rw [if_pos (hin s hs)]
      unfold shifted
      rw [if_neg hs.2]
  · obtain ⟨hcookie, htimeout⟩ := hb.invoked.done x hx
    dsimp only
    rcases hslot x.1 with heq | heq
    · rw [heq]
      exact ⟨hcookie, htimeout⟩
    · rw [heq]
      unfold shifted
      rw [if_pos htimeout]
      exact ⟨hcookie, htimeout⟩
  · obtain ⟨hfresh, hnone⟩ := hb.fresh s hs
    refine ⟨?_, hnone⟩
    dsimp only
    rcases hslot s with heq | heq
    · rw [heq]
      exact hfresh
    · rw [heq, shifted_connected]
      exact hfresh
  · cases busClient <;> cases hconnecting

/-! ## New calls -/

/-- A slot is allocated, and may start to wait. -/
theorem CallsOk.add (hb : CallsOk b) (hmap : MapOk b') (hqueue : QueueOk b')
    (hslots : ∀ t, t ≠ b.nSlots → b'.slots t = b.slots t) (hstate : b'.state = b.state)
    (hinvoked : b'.invoked = b.invoked) (hnSlots : b'.nSlots = b.nSlots + 1)
    (hconnecting : (b'.slots b.nSlots).Timed → (b'.slots b.nSlots).cookie ≠ 0) : CallsOk b' := by
  obtain ⟨-, hnone⟩ := hb.fresh b.nSlots (Nat.le_refl _)
  refine ⟨hmap, hqueue, ⟨?_, ?_, ?_⟩, ?_, ?_⟩
  · rw [hinvoked]
    exact hb.invoked.once
  · rw [hinvoked]
    exact hb.invoked.connected
  · rw [hinvoked]
    intro x hx
    rw [hslots _ (hnone x hx)]
    exact hb.invoked.done x hx
  · rw [hinvoked, hnSlots]
    intro t ht
    rw [hslots t (by omega)]
    exact hb.fresh t (by omega)
  · rw [hstate]
    intro hconn t ht
    by_cases hts : t = b.nSlots
    · rw [hts] at ht ⊢
      exact hconnecting ht
    · rw [hslots t hts] at ht ⊢
      exact hb.connecting hconn t ht

/-- A slot that did not time out is put into the queue. -/
theorem QueueOk.put (hq : QueueOk b) (hidle : ¬(b.slots s).Timed) {b₁ : Bus}
    (hitems : b₁.prioqItems = b.prioqItems) (hidx : ∀ t, t ≠ s → b₁.prioqIdx t = b.prioqIdx t)
    (hslots : ∀ t, t ≠ s → b₁.slots t = b.slots t) (htimed : (b₁.slots s).Timed)
    (hroom : b.prioqItems.length < 2 ^ 31) {q : Prioq Nat Nat}
    (h : b₁.queue.prioqPut s (some s) true = some (q, 0)) : QueueOk (b₁.setQueue q) := by
  -- the slot was in no entry, and the entries compare as before
  have hout : ∀ x ∈ b.prioqItems, x.data ≠ s := by
    intro x hx hdata
    obtain ⟨-, htimed'⟩ := (hq.items x).mp hx
    rw [hdata] at htimed'
    exact hidle htimed'
  have hcells : ∀ c, b.queue.Registered c → b₁.prioqIdx c = b.queue.cells c := by
    rintro c ⟨x, hx, hxc⟩
    have hidx' := ((hq.items x).mp hx).1
    rw [hidx'] at hxc
    cases hxc
    exact hidx _ (hout x hx)
  have hsame : b.queue.SamePriorities (timeoutCompare b₁.slots) none := by
    intro i j x y _ _ hx hy
    have hx' := hout x (mem_of_getElem? hx)
    have hy' := hout y (mem_of_getElem? hy)
    show timeoutCompare b₁.slots x.data y.data = timeoutCompare b.slots x.data y.data
    unfold timeoutCompare
    rw [hslots _ hx', hslots _ hy']
  have hvalid : b₁.queue.Valid := by
    have hv := hq.valid.of_samePriorities (isTotalPreorder_timeoutCompare b₁.slots) hsame hcells
    unfold queue
    rw [hitems]
    exact hv
  have hfree : ∀ c, (some s : Option Nat) = some c → ¬b₁.queue.Registered c := by
    rintro c hc ⟨x, hx, hxc⟩
    cases hc
    have hx' : x ∈ b.prioqItems := by
      rw [← hitems]
      exact hx
    have hidx' := ((hq.items x).mp hx').1
    rw [hidx'] at hxc
    cases hxc
    exact hout x hx' rfl
  obtain ⟨q', hput, hvalid', hperm⟩ := Prioq.prioqPut_spec hvalid (by
    show b₁.prioqItems.length < 2 ^ 31
    rw [hitems]
    exact hroom) s hfree
  rw [hput] at h
  cases h
  have hcompare := Prioq.compareFunc_prioqPut hput
  -- after the put, the slot is the only one that has become timed
  constructor
  · intro x
    show x ∈ q.items ↔ x.idx = some x.data ∧ (b₁.slots x.data).Timed
    rw [hperm.mem_iff, mem_cons]
    show x = { data := s, idx := some s } ∨ x ∈ b₁.prioqItems ↔ _
    rw [hitems, hq.items]
    by_cases hxs : x.data = s
    · rw [hxs]
      constructor
      · rintro (rfl | ⟨hidx', htimed'⟩)
        · exact ⟨rfl, htimed⟩
        · exact absurd htimed' hidle
      · rintro ⟨hidx', -⟩
        obtain ⟨data, idx⟩ := x
        cases hxs
        exact .inl (congrArg _ hidx')
    · rw [hslots _ hxs]
      refine ⟨fun hx => hx.resolve_left fun heq => hxs ?_, .inr⟩
      rw [heq]
  · have hqueue : (b₁.setQueue q).queue = q := by
      show Prioq.mk (timeoutCompare b₁.slots) q.items q.cells = q
      have hcompare' : q.compareFunc = timeoutCompare b₁.slots := hcompare
      rw [← hcompare']
    rw [hqueue]
    exact hvalid'

/-- What `ordered_hashmap_put` does with a slot that is not there. -/
theorem putCallback_cases {c : Nat} {allocated : Bool} {r : Int} (hidle : ∀ c, (c, s) ∉ b.replyCallbacks)
    (h : b.putCallback c s allocated = some (b', r)) :
    (r < 0 ∧ b' = b) ∨
      (r = 1 ∧ b' = { b with replyCallbacks := b.replyCallbacks ++ [(c, s)] } ∧ ∀ e ∈ b.replyCallbacks, e.1 ≠ c) := by
  unfold putCallback at h
  split at h
  · next e hfind =>
    cases h
    have hother : e.2 ≠ s := by
      rintro rfl
      exact hidle e.1 (mem_of_find?_eq_some hfind)
    refine .inl ⟨?_, rfl⟩
    rw [if_neg hother]
    decide
  · next hfind =>
    split at h
    · cases h
    split at h
    · cases h
      exact .inl ⟨by decide, rfl⟩
    · cases h
      refine .inr ⟨rfl, rfl, fun e he heq => ?_⟩
      have hnone := find?_eq_none.mp hfind e he
      exact hnone (by simpa using heq)

/-- The timeout of a slot that waits is started. -/
theorem CallsOk.startTimeout (hb : CallsOk b) (hwaits : (b.slots s).Waits (b.slots s).cookie)
    (hzero : (b.slots s).timeoutUsec = 0) (hroom : b.prioqItems.length < 2 ^ 31) {elapse : Nat} {env : CallEnv}
    {kept : Bool} (h : b.startTimeout s elapse env = some (b', kept)) : CallsOk b' := by
  obtain ⟨hconn, -, hcookie⟩ := hwaits
  have hidle : ¬(b.slots s).Timed := fun ht => ht.2 hzero
  -- the slot with any timeout, and a queue that is right for it
  have hupdate : ∀ (b₁ : Bus) (timeoutUsec : Nat), b₁.slots s = { b.slots s with timeoutUsec := timeoutUsec } →
      (∀ t, t ≠ s → b₁.slots t = b.slots t) → b₁.replyCallbacks = b.replyCallbacks → b₁.state = b.state →
      b₁.invoked = b.invoked → b₁.nSlots = b.nSlots → QueueOk b₁ → CallsOk b₁ := by
    intro b₁ timeoutUsec hself hslots hmap hstate hinvoked hnSlots hqueue
    refine hb.update hconn (hb.map.congr hmap fun t c => ?_) hqueue hslots (fun hzero' => absurd hzero' hcookie)
      hstate hinvoked hnSlots fun _ _ => ?_
    · by_cases hts : t = s
      · rw [hts, hself]
        exact Iff.rfl
      · rw [hslots t hts]
    · rw [hself]
      exact hcookie
  have hqueue : ∀ b₁ : Bus, (b₁.slots s).timeoutUsec = 0 → (∀ t, t ≠ s → b₁.slots t = b.slots t) →
      b₁.prioqItems = b.prioqItems → b₁.prioqIdx = b.prioqIdx → QueueOk b₁ := by
    intro b₁ hzero₁ hslots hitems hidx
    refine hb.queue.congr hitems (fun t _ => by rw [hidx]) (fun t => ?_) fun t ht => ?_
    · by_cases hts : t = s
      · rw [hts]
        exact iff_of_false (fun ht => ht.2 hzero₁) hidle
      · rw [hslots t hts]
    · rw [hslots t fun hts => hidle (hts ▸ ht)]
  have hself₁ := slots_setSlot_self b s { b.slots s with timeoutUsec := elapse }
  have hslots₁ : ∀ t, t ≠ s → (b.setSlot s { b.slots s with timeoutUsec := elapse }).slots t = b.slots t :=
    fun t hts => slots_setSlot_of_ne b _ hts
  unfold Bus.startTimeout at h
  dsimp only at h
  split at h
  · next htimed =>
    split at h
    · cases h
    next q r hput =>
    cases halloc : env.prioqAllocated with
    | true =>
      rw [halloc] at hput
      have hzeror : r = 0 := by
        unfold Prioq.prioqPut at hput
        rw [if_neg (by decide)] at hput
        split at hput
        · cases hput
        · cases hput
          rfl
      subst hzeror
      cases h
      refine hupdate _ elapse hself₁ hslots₁ rfl rfl rfl rfl ?_
      refine hb.queue.put hidle ?_ ?_ hslots₁ ⟨?_, htimed⟩ hroom hput
      · rfl
      · exact fun _ _ => rfl
      · rw [hself₁]
        exact hconn
    | false =>
      rw [halloc] at hput
      cases hput
      cases h
      have hself₂ := slots_setSlot_self ((b.setSlot s { b.slots s with timeoutUsec := elapse }).setQueue
        (b.setSlot s { b.slots s with timeoutUsec := elapse }).queue) s { b.slots s with timeoutUsec := 0 }
      have hslots₂ : ∀ t, t ≠ s → (((b.setSlot s { b.slots s with timeoutUsec := elapse }).setQueue
          (b.setSlot s { b.slots s with timeoutUsec := elapse }).queue).setSlot s
          { b.slots s with timeoutUsec := 0 }).slots t = b.slots t := by
        intro t hts
        rw [slots_setSlot_of_ne _ _ hts]
        exact hslots₁ t hts
      have heq : (((b.setSlot s { b.slots s with timeoutUsec := elapse }).setQueue
          (b.setSlot s { b.slots s with timeoutUsec := elapse }).queue).slots s) =
          { b.slots s with timeoutUsec := elapse } := hself₁
      rw [heq]
      exact hupdate _ 0 hself₂ hslots₂ rfl rfl rfl rfl (hqueue _ (by rw [hself₂]) hslots₂ rfl rfl)
  · next htimed =>
    cases h
    exact hupdate _ elapse hself₁ hslots₁ rfl rfl rfl rfl (hqueue _ (not_not.mp htimed) hslots₁ rfl rfl)

/-- A slot is allocated that does not wait for anything, or waits for the reply to a new
    cookie. -/
theorem CallsOk.allocate (hb : CallsOk b) {slot : ReplySlot} (hzero : slot.timeoutUsec = 0)
    (hslots : ∀ t, t ≠ b.nSlots → b'.slots t = b.slots t) (hslot : b'.slots b.nSlots = slot)
    (hitems : b'.prioqItems = b.prioqItems) (hidx : ∀ t, t ≠ b.nSlots → b'.prioqIdx t = b.prioqIdx t)
    (hmap : MapOk b') (hstate : b'.state = b.state) (hinvoked : b'.invoked = b.invoked)
    (hnSlots : b'.nSlots = b.nSlots + 1) : CallsOk b' := by
  have hfresh := (hb.fresh b.nSlots (Nat.le_refl _)).1
  have hidle : ¬(b.slots b.nSlots).Timed := by
    intro ht
    rw [ht.1] at hfresh
    cases hfresh
  have hidle' : ¬(b'.slots b.nSlots).Timed := by
    rw [hslot]
    exact fun ht => ht.2 hzero
  refine hb.add hmap ?_ hslots hstate hinvoked hnSlots fun ht => absurd ht hidle'
  refine hb.queue.congr hitems (fun t ht => hidx t fun hts => hidle (hts ▸ ht)) (fun t => ?_) fun t ht => ?_
  · by_cases hts : t = b.nSlots
    · rw [hts]
      exact iff_of_false hidle' hidle
    · rw [hslots t hts]
  · rw [hslots t fun hts => hidle (hts ▸ ht)]

theorem CallsOk.register (hb : CallsOk b) {slot : ReplySlot} {cookie timeout : Nat} {env : CallEnv} {kept : Bool}
    (hconn : slot.connected = true) (hcookie : slot.cookie = cookie) (hzero : slot.timeoutUsec = 0)
    (hne : cookie ≠ 0) (hroom : b.prioqItems.length < 2 ^ 31)
    (h : (b.allocateSlot slot).register b.nSlots cookie timeout env = some (b', kept)) : CallsOk b' := by
  have hfresh := (hb.fresh b.nSlots (Nat.le_refl _)).1
  have hidle : ∀ c, ¬(b.slots b.nSlots).Waits c := by
    intro c hw
    rw [hw.1] at hfresh
    cases hfresh
  have hslots : ∀ t, t ≠ b.nSlots → (b.allocateSlot slot).slots t = b.slots t :=
    fun t hts => slots_setSlot_of_ne b slot hts
  have hself : (b.allocateSlot slot).slots b.nSlots = slot := slots_setSlot_self b b.nSlots slot
  have hidx : ∀ t, t ≠ b.nSlots → (b.allocateSlot slot).prioqIdx t = b.prioqIdx t :=
    fun t hts => Function.update_of_ne hts ..
  unfold Bus.register at h
  split at h
  · cases h
  next b₁ r hput =>
  have habsent : ∀ c, (c, b.nSlots) ∉ (b.allocateSlot slot).replyCallbacks :=
    fun c he => hidle c ((hb.map.entries c _).mp he)
  rcases putCallback_cases habsent hput with ⟨hneg, rfl⟩ | ⟨rfl, rfl, hnew⟩
  · rw [if_pos hneg, hself] at h
    cases h
    have hself' := slots_setSlot_self (b.allocateSlot slot) b.nSlots { slot with cookie := 0 }
    have hslots' : ∀ t, t ≠ b.nSlots →
        ((b.allocateSlot slot).setSlot b.nSlots { slot with cookie := 0 }).slots t = b.slots t :=
      fun t hts => (slots_setSlot_of_ne _ _ hts).trans (hslots t hts)
    have hzero' : ({ slot with cookie := 0 } : ReplySlot).timeoutUsec = 0 := hzero
    refine hb.allocate hzero' hslots' hself' rfl hidx (hb.map.congr rfl fun t c => ?_) rfl rfl rfl
    by_cases hts : t = b.nSlots
    · rw [hts]
      refine iff_of_false (fun hw => ?_) (hidle c)
      rw [hself'] at hw
      exact hw.2.2 hw.2.1.symm
    · rw [hslots' t hts]
  · have hwaits : ((b.allocateSlot slot).slots b.nSlots).Waits cookie := by
      rw [hself]
      exact ⟨hconn, hcookie, hne⟩
    have hput' : CallsOk { b.allocateSlot slot with
        replyCallbacks := (b.allocateSlot slot).replyCallbacks ++ [(cookie, b.nSlots)] } := by
      refine hb.allocate hzero hslots hself rfl hidx (hb.map.put rfl hslots hidle hwaits hnew) ?_ ?_ ?_
      · rfl
      · rfl
      · rfl
    refine hput'.startTimeout ?_ ?_ hroom h
    · rw [hself, hcookie]
      exact ⟨hconn, hcookie, hne⟩
    · rw [hself]
      exact hzero

theorem cookieInc_ne_zero (cookie : Nat) : cookieInc cookie ≠ 0 := by
  unfold cookieInc cookieCycled
  split <;> omega

theorem probe_ne_zero {n cookie found : Nat} (h : b.probe n cookie = some found) (hne : cookie ≠ 0) :
    found ≠ 0 := by
  induction n generalizing cookie with
  | zero => cases h
  | succ n ih =>
    rw [probe] at h
    split at h
    · cases h
      exact hne
    · exact ih h (cookieInc_ne_zero cookie)

/-- A cookie is assigned, and nothing else is changed. -/
theorem nextCookie_cases (b : Bus) :
    ∃ cookie, b.nextCookie.1 = { b with cookie := cookie } ∧ (¬b.nextCookie.2 < 0 → cookie ≠ 0) := by
  unfold nextCookie
  dsimp only
  split
  · split
    · next cookie hprobe => exact ⟨cookie, rfl, fun _ => probe_ne_zero hprobe (cookieInc_ne_zero _)⟩
    · have hneg : Errno.EBUSY.neg < 0 := by decide
      exact ⟨b.cookie, rfl, fun hok => absurd hneg hok⟩
  · exact ⟨_, rfl, fun _ => cookieInc_ne_zero _⟩

theorem sameCalls_cookie (b : Bus) (cookie : Nat) : SameCalls b { b with cookie := cookie } :=
  ⟨rfl, rfl, rfl, fun _ => rfl, fun _ => rfl, fun _ => rfl, rfl, rfl, id⟩

/-- A message is sealed with a cookie that is not 0, if it was not sealed with cookie 0
    before. -/
theorem busSealMessage_cases (b : Bus) (m : CallMessage) (usec : Nat) (env : CallEnv)
    (hm : ∀ timeout, m.sealed ≠ some (0, timeout)) :
    SameCalls b (b.busSealMessage m usec env).1 ∧
      ∀ cookie timeout, (b.busSealMessage m usec env).2 = some (cookie, timeout) → cookie ≠ 0 := by
  unfold busSealMessage
  split
  · next cookie timeout hsealed =>
    refine ⟨sameCalls_cookie .., fun c t heq => ?_⟩
    cases heq
    intro hzero
    refine hm timeout ?_
    have hcookie : cookie = 0 := UInt32.toNat_inj.mp hzero
    rw [hsealed, hcookie]
  · dsimp only
    split
    · exact ⟨sameCalls_cookie b b.cookie, fun c t heq => by cases heq⟩
    obtain ⟨cookie, hnext, hne⟩ := b.nextCookie_cases
    split
    · rw [hnext]
      exact ⟨sameCalls_cookie .., fun c t heq => by cases heq⟩
    next hok =>
    split
    · rw [hnext]
      exact ⟨sameCalls_cookie .., fun c t heq => by cases heq⟩
    · rw [hnext]
      refine ⟨sameCalls_cookie .., fun c t heq => ?_⟩
      cases heq
      exact hne hok

theorem sameCalls_busEnterClosing (b : Bus) : SameCalls b b.busEnterClosing := by
  unfold busEnterClosing
  split
  · exact ⟨rfl, rfl, rfl, fun _ => rfl, fun _ => rfl, fun _ => rfl, rfl, rfl, fun h => by cases h⟩
  · exact ⟨rfl, rfl, rfl, fun _ => rfl, fun _ => rfl, fun _ => rfl, rfl, rfl, id⟩

theorem CallsOk.sendSealed (hb : CallsOk b) (cookie : Nat) (result : SendResult) :
    CallsOk (b.sendSealed cookie result).1 := by
  have hb₁ := hb.same (sameCalls_cookie b (max b.cookie cookie))
  cases result with
  | sent => exact hb₁
  | failed => exact hb₁
  | disconnected => exact hb₁.same (sameCalls_busEnterClosing _)

theorem CallsOk.sdBusSend (hb : CallsOk b) (m : CallMessage) (env : CallEnv) : CallsOk (b.sdBusSend m env) := by
  have hseal : CallsOk (b.busSealMessage m 0 env).1 := by
    unfold Bus.busSealMessage
    split
    · exact hb.same (sameCalls_cookie ..)
    · dsimp only
      obtain ⟨cookie, hnext, -⟩ := b.nextCookie_cases
      split
      · exact hb
      split
      · rw [hnext]
        exact hb.same (sameCalls_cookie ..)
      split
      · rw [hnext]
        exact hb.same (sameCalls_cookie ..)
      · rw [hnext]
        exact hb.same (sameCalls_cookie ..)
  unfold Bus.sdBusSend
  split
  · exact hb
  generalize b.busSealMessage m 0 env = sealed at hseal ⊢
  obtain ⟨b₁, _ | ⟨cookie, timeout⟩⟩ := sealed
  · exact hseal
  · exact hseal.sendSealed cookie env.send

theorem CallsOk.sdBusCallAsync (hb : CallsOk b) {fuel usec : Nat} {m : CallMessage} {wantsSlot callback : Bool}
    {env : CallEnv} (hm : ∀ timeout, m.sealed ≠ some (0, timeout)) (hroom : b.prioqItems.length < 2 ^ 31)
    (h : b.sdBusCallAsync fuel m wantsSlot callback usec env = some b') : CallsOk b' := by
  unfold Bus.sdBusCallAsync at h
  split at h
  · cases h
    exact hb
  split at h
  · cases h
    exact hb
  dsimp only at h
  have hm' : ∀ timeout, (if (!callback && !wantsSlot && m.sealed.isNone) = true then
      { m with noReplyExpected := true } else m).sealed ≠ some (0, timeout) := by
    intro timeout
    split
    · exact hm timeout
    · exact hm timeout
  generalize (if (!callback && !wantsSlot && m.sealed.isNone) = true then
    { m with noReplyExpected := true } else m) = m at h hm'
  split at h
  · cases h
    exact hb
  obtain ⟨hsame, hcookie⟩ := b.busSealMessage_cases m usec env hm'
  generalize b.busSealMessage m usec env = sealed at hsame hcookie h
  obtain ⟨b₁, _ | ⟨cookie, timeout⟩⟩ := sealed
  · cases h
    exact hb.same hsame
  have hb₁ := hb.same hsame
  have hne := hcookie cookie timeout rfl
  dsimp only at h hb₁ hsame
  split at h
  · cases h
    exact hb₁
  split at h
  · split at h
    · cases h
      exact hb₁
    have hroom₁ : b₁.prioqItems.length < 2 ^ 31 := by
      rw [hsame.prioqItems]
      exact hroom
    split at h
    · cases h
    · next b₂ hregister => exact (hb₁.register rfl rfl rfl hne hroom₁ hregister).slotUnref h
    · next b₂ hregister =>
      have hsent := (hb₁.register rfl rfl rfl hne hroom₁ hregister).sendSealed cookie env.send
      generalize b₂.sendSealed cookie env.send = sent at hsent h
      obtain ⟨b₃, _ | _⟩ := sent
      · exact hsent.slotUnref h
      · cases h
        exact hsent
  · cases h
    exact hb₁.sendSealed cookie env.send

/-! ## Runs -/

/-- What is asked of the calls: no message was sealed with cookie 0, and fewer than 2^31
    timeouts are pending. -/
def Admitted (b : Bus) : Event → Prop
  | .callAsync m _ _ _ _ => (∀ timeout, m.sealed ≠ some (0, timeout)) ∧ b.prioqItems.length < 2 ^ 31
  | _ => True

def AdmittedStep (b : Bus) (e : Event) (b' : Bus) : Prop := Step b e b' ∧ Admitted b e

/-- One event. -/
theorem CallsOk.step (hb : CallsOk b) {e : Event} (h : AdmittedStep b e b') : CallsOk b' := by
  obtain ⟨⟨fuel, h⟩, hadmitted⟩ := h
  cases e with
  | send m env =>
    cases h
    exact hb.sdBusSend m env
  | callAsync m wantsSlot callback usec env => exact hb.sdBusCallAsync hadmitted.1 hadmitted.2 h
  | reply replyCookie made =>
    rw [Bus.step] at h
    split at h
    · next hmay =>
      -- a connecting bus is not processed
      have hstate : b.state.isConnecting = false := by
        unfold mayProcess at hmay
        cases hs : b.state with
        | hello | running | closing | closed => rfl
        | unset | watchBind | opening | authenticating => simp [hs] at hmay
      exact hb.processReply hstate h
    · cases h
  | timeout now made =>
    rw [Bus.step] at h
    split at h
    · exact hb.processTimeout h
    · cases h
  | closing made =>
    rw [Bus.step] at h
    split at h
    · exact hb.processClosing h
    · cases h
  | callbackReturns =>
    rw [Bus.step] at h
    split at h
    · cases h
    · exact hb.callbackReturns h
  | slotRef s =>
    rw [Bus.step] at h
    split at h
    · cases h
    · cases h
      exact hb.same (sameCalls_setSlot b s (b.slots s).floating _)
  | slotUnref s => exact hb.slotUnref h
  | slotSetFloating s floating =>
    rw [Bus.step] at h
    split at h
    · cases h
    · exact hb.slotSetFloating h
  | connect state =>
    rw [Bus.step] at h
    split at h
    · next hconnecting =>
      cases h
      exact hb.same ⟨rfl, rfl, rfl, fun _ => rfl, fun _ => rfl, fun _ => rfl, rfl, rfl, fun _ => hconnecting.1⟩
    · cases h
  | startRunning now busClient =>
    rw [Bus.step] at h
    split at h
    · next hconnecting =>
      cases h
      exact hb.busStartRunning hconnecting now busClient
    · cases h
  | helloReply =>
    rw [Bus.step] at h
    split at h
    · cases h
      exact hb.same ⟨rfl, rfl, rfl, fun _ => rfl, fun _ => rfl, fun _ => rfl, rfl, rfl, fun h => by cases h⟩
    · cases h
  | enterClosing =>
    cases h
    exact hb.same (sameCalls_busEnterClosing b)
  | close =>
    cases h
    exact hb.same ⟨rfl, rfl, rfl, fun _ => rfl, fun _ => rfl, fun _ => rfl, rfl, rfl, fun h => by cases h⟩

theorem callsOk_initial : CallsOk initial := by
  have hvalid : initial.queue.Valid := by
    refine ⟨isTotalPreorder_timeoutCompare initial.slots, Nat.zero_le _, fun p c _ x y hx => ?_, fun i x c hx => ?_⟩
    · cases hx
    · cases hx
  refine ⟨⟨fun c s => ?_, .nil⟩, ⟨fun x => ?_, hvalid⟩, ⟨.nil, nofun, nofun⟩, fun s _ => ⟨rfl, nofun⟩, ?_⟩
  · exact iff_of_false nofun fun hw => Bool.false_ne_true hw.1
  · exact iff_of_false nofun fun hx => Bool.false_ne_true hx.2.1
  · exact fun _ s hs => absurd hs.1 Bool.false_ne_true

/-- In every run in which no message is called that was sealed with cookie 0: no callback
    is invoked twice, or after its slot was disconnected; a connected slot that has a cookie
    is the entry of `reply_callbacks` under it; one that has a timeout is in the queue; and
    the queue is a valid heap. -/
theorem run_completes_once {es : List Event} (hrun : Run AdmittedStep initial es b) :
    (b.invoked.map Prod.fst).Nodup ∧ (∀ x ∈ b.invoked, x.2 = true) ∧
      (∀ c s, (c, s) ∈ b.replyCallbacks ↔
        (b.slots s).connected = true ∧ (b.slots s).cookie = c ∧ c ≠ 0) ∧
      (b.replyCallbacks.map Prod.fst).Nodup ∧
      (∀ s, (b.slots s).connected = true →
        ((b.slots s).timeoutUsec ≠ 0 ↔ ∃ x ∈ b.prioqItems, x.data = s)) ∧
      (∀ x ∈ b.prioqItems, (b.slots x.data).connected = true) ∧ b.queue.Valid := by
  have hb : CallsOk b := hrun.invariant callsOk_initial fun hb h => hb.step h
  refine ⟨hb.invoked.once, hb.invoked.connected, hb.map.entries, hb.map.keys, fun s hconn => ?_,
    fun x hx => ((hb.queue.items x).mp hx).2.1, hb.queue.valid⟩
  constructor
  · exact fun htimeout => ⟨_, (hb.queue.items { data := s, idx := some s }).mpr ⟨rfl, hconn, htimeout⟩, rfl⟩
  · rintro ⟨x, hx, rfl⟩
    exact ((hb.queue.items x).mp hx).2.2

/-- Everything works. -/
def goodEnv : CallEnv :=
  { methodCallTimeout := 25000000, now := 7, allocated := true, prepared := true, seals := true, remarshal := none,
    slotAllocated := true, putAllocated := true, prioqAllocated := true, send := .sent }

/-- A call while connecting, and its reply; then another call. -/
def callAndReply : List Event :=
  [.connect .opening, .callAsync { sealed := none, noReplyExpected := false } true true usecInfinity goodEnv,
    .startRunning 9 false, .reply 1 true, .callbackReturns, .slotUnref 0,
    .callAsync { sealed := none, noReplyExpected := false } true true 5000000 goodEnv]

/-- Where events lead from a new connection. -/
def reached (es : List Event) : Bus := (es.foldlM (step 2) initial).getD initial

theorem run_completes_once_reply :
    ∃ b, Run AdmittedStep initial callAndReply b ∧ b.invoked = [(0, true)] ∧ b.replyCallbacks = [(2, 1)] ∧
      b.prioqItems.map (·.data) = [1] ∧
      (b.invoked.map Prod.fst).Nodup ∧ (∀ x ∈ b.invoked, x.2 = true) ∧
      (∀ c s, (c, s) ∈ b.replyCallbacks ↔
        (b.slots s).connected = true ∧ (b.slots s).cookie = c ∧ c ≠ 0) ∧
      (b.replyCallbacks.map Prod.fst).Nodup ∧
      (∀ s, (b.slots s).connected = true →
        ((b.slots s).timeoutUsec ≠ 0 ↔ ∃ x ∈ b.prioqItems, x.data = s)) ∧
      (∀ x ∈ b.prioqItems, (b.slots x.data).connected = true) ∧ b.queue.Valid := by
  have hconnect : AdmittedStep initial (.connect .opening) (reached (callAndReply.take 1)) := ⟨⟨2, rfl⟩, trivial⟩
  have hcall : AdmittedStep (reached (callAndReply.take 1))
      (.callAsync { sealed := none, noReplyExpected := false } true true usecInfinity goodEnv)
      (reached (callAndReply.take 2)) := ⟨⟨2, rfl⟩, nofun, by decide⟩
  have hstart : AdmittedStep (reached (callAndReply.take 2)) (.startRunning 9 false)
      (reached (callAndReply.take 3)) := ⟨⟨2, rfl⟩, trivial⟩
  have hreply : AdmittedStep (reached (callAndReply.take 3)) (.reply 1 true) (reached (callAndReply.take 4)) :=
    ⟨⟨2, rfl⟩, trivial⟩
  have hreturns : AdmittedStep (reached (callAndReply.take 4)) .callbackReturns
      (reached (callAndReply.take 5)) := ⟨⟨2, rfl⟩, trivial⟩
  have hunref : AdmittedStep (reached (callAndReply.take 5)) (.slotUnref 0) (reached (callAndReply.take 6)) :=
    ⟨⟨2, rfl⟩, trivial⟩
  have hagain : AdmittedStep (reached (callAndReply.take 6))
      (.callAsync { sealed := none, noReplyExpected := false } true true 5000000 goodEnv) (reached callAndReply) :=
    ⟨⟨2, rfl⟩, nofun, by decide⟩
  have hrun : Run AdmittedStep initial callAndReply (reached callAndReply) :=
    .cons hconnect (.cons hcall (.cons hstart (.cons hreply (.cons hreturns (.cons hunref (.cons hagain (.nil _)))))))
  exact ⟨_, hrun, rfl, rfl, by decide +kernel, run_completes_once hrun⟩

/-- A message that was sealed with cookie 0 is called, and the slot is freed before the
    connection is closed. -/
def callZero : List Event :=
  [.connect .opening, .callAsync { sealed := some (0, 0), noReplyExpected := false } true true 0 goodEnv,
    .slotUnref 0, .enterClosing, .closing true]

/-- Events one after the other, with the same fuel. -/
theorem run_of_foldlM (fuel : Nat) {es : List Event} (h : es.foldlM (step fuel) b = some b') : Run Step b es b' := by
  induction es generalizing b with
  | nil =>
    cases h
    exact .nil _
  | cons e es ih =>
    rw [foldlM_cons, Option.bind_eq_bind, Option.bind_eq_some_iff] at h
    obtain ⟨b₁, hstep, hrest⟩ := h
    exact .cons ⟨fuel, hstep⟩ (ih hrest)

/-- The entry of the slot stays when the slot is freed, and its callback is invoked. -/
theorem run_invokes_freed :
    ¬∀ (es : List Event) (b : Bus), Run Step initial es b → ∀ x ∈ b.invoked, x.2 = true := by
  intro hall
  have hrun : Run Step initial callZero (reached callZero) := run_of_foldlM 2 rfl
  have hinvoked := hall _ _ hrun (0, false) (mem_singleton.mpr rfl)
  cases hinvoked

end Bus

end Elogind
