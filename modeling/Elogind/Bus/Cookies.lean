/-
  Elogind.Bus.Cookies

  The cookies that a bus connection gives to its messages (sd-bus.c).

  Up to the first time that the cookies run out, a new one is larger than all that are in
  use; from then on the top bit is set and a new one is looked for.
-/

import Elogind.Bus.Calls

namespace Elogind

open Lib

namespace Bus

variable {b b' b'' : Bus}

/-! ## Looking for a cookie -/

variable {cookie n fuel s : Nat} {made : Bool} {env : CallEnv}

theorem cookieInc_of_lt (h : cookie < 2 ^ 32 - 1) : cookieInc cookie = cookie + 1 :=
  if_neg (by omega)

theorem cookieInc_of_le (h : 2 ^ 32 - 1 ≤ cookie) : cookieInc cookie = 2 ^ 31 := if_pos h

/-- The cookies with the top bit. -/
def TopBit (cookie : Nat) : Prop := 2 ^ 31 ≤ cookie ∧ cookie < 2 ^ 32

theorem TopBit.cookieInc (h : TopBit cookie) : TopBit (cookieInc cookie) := by
  unfold TopBit at *
  by_cases hlast : 2 ^ 32 - 1 ≤ cookie
  · rw [cookieInc_of_le hlast]
    omega
  · rw [cookieInc_of_lt (by omega)]
    omega

theorem hasCallback_iff : b.hasCallback cookie = true ↔ ∃ s, (cookie, s) ∈ b.replyCallbacks := by
  unfold hasCallback
  rw [List.any_eq_true]
  constructor
  · rintro ⟨⟨c, s⟩, he, hc⟩
    have hcookie : c = cookie := by simpa using hc
    exact ⟨s, hcookie ▸ he⟩
  · rintro ⟨s, he⟩
    exact ⟨(cookie, s), he, by simp⟩

/-- A cookie that was found is not in use. -/
theorem probe_eq_some {found : Nat} (h : b.probe n cookie = some found) (htop : TopBit cookie) :
    TopBit found ∧ b.hasCallback found = false := by
  induction n generalizing cookie with
  | zero => cases h
  | succ n ih =>
    rw [probe] at h
    cases hused : b.hasCallback cookie with
    | true =>
      rw [hused] at h
      exact ih h htop.cookieInc
    | false =>
      rw [hused] at h
      cases h
      exact ⟨htop, hused⟩

/-- Up to the largest cookie, those that were looked at are in use. -/
theorem probe_eq_none_up (h : b.probe n cookie = none) {k : Nat} (hk : k < n)
    (hle : cookie + k < 2 ^ 32) : b.hasCallback (cookie + k) = true := by
  induction n generalizing cookie k with
  | zero => omega
  | succ n ih =>
    rw [probe] at h
    cases hused : b.hasCallback cookie with
    | false =>
      rw [hused] at h
      cases h
    | true =>
      rw [hused] at h
      cases k with
      | zero => exact hused
      | succ k =>
        replace h : b.probe n (cookieInc cookie) = none := h
        rw [cookieInc_of_lt (by omega)] at h
        have hnext := ih h (show k < n by omega) (by omega)
        rw [show cookie + (k + 1) = cookie + 1 + k by omega]
        exact hnext

/-- From the largest cookie on the smallest ones with the top bit were looked at. -/
theorem probe_eq_none_wrap (h : b.probe n cookie = none) (hlt : cookie < 2 ^ 32) {k : Nat}
    (hk : 2 ^ 32 - cookie + k < n) (hle : 2 ^ 31 + k < 2 ^ 32) : b.hasCallback (2 ^ 31 + k) = true := by
  induction n generalizing cookie with
  | zero => omega
  | succ n ih =>
    rw [probe] at h
    cases hused : b.hasCallback cookie with
    | false =>
      rw [hused] at h
      cases h
    | true =>
      rw [hused] at h
      replace h : b.probe n (cookieInc cookie) = none := h
      by_cases hlast : 2 ^ 32 - 1 ≤ cookie
      · rw [cookieInc_of_le hlast] at h
        exact probe_eq_none_up h (by omega) hle
      · rw [cookieInc_of_lt (by omega)] at h
        exact ih h (by omega) (by omega)

/-- If none is found, all cookies with the top bit are in use. -/
theorem probe_eq_none {c : Nat} (h : b.probe cookieCycled cookie = none) (htop : TopBit cookie)
    (hc : TopBit c) : b.hasCallback c = true := by
  unfold TopBit at htop hc
  unfold cookieCycled at h
  by_cases hle : cookie ≤ c
  · have hused := probe_eq_none_up h (k := c - cookie) (by omega) (by omega)
    rwa [show cookie + (c - cookie) = c by omega] at hused
  · have hused := probe_eq_none_wrap h htop.2 (k := c - 2 ^ 31) (by omega) (by omega)
    rwa [show 2 ^ 31 + (c - 2 ^ 31) = c by omega] at hused

theorem testBit_iff (hlt : cookie < 2 ^ 32) : cookie.testBit 31 = true ↔ 2 ^ 31 ≤ cookie := by
  constructor
  · exact fun h => Nat.ge_two_pow_of_testBit h
  · intro hle
    rw [Nat.testBit_eq_decide_div_mod_eq, decide_eq_true_iff]
    omega

/-! ## The invariant -/

/-- As long as the cookies have not run out, none that is in use is larger than the last
    one. -/
structure CookieInv (b : Bus) : Prop where
  le : b.cookie < 2 ^ 32
  below : b.cookie < 2 ^ 31 → ∀ c s, (c, s) ∈ b.replyCallbacks → c ≤ b.cookie

/-- What `next_cookie` does. -/
inductive NextCookie (b : Bus) : Bus × Int → Prop where
  | assigned {cookie : Nat} (hpos : cookie ≠ 0) (hle : cookie ≤ 2 ^ 32 - 1)
      (hfree : ∀ s, (cookie, s) ∉ b.replyCallbacks) (hinc : b.cookie < cookie ∨ 2 ^ 31 ≤ cookie) :
      NextCookie b ({ b with cookie := cookie }, 0)
  | busy (hused : ∀ c, TopBit c → ∃ s, (c, s) ∈ b.replyCallbacks) : NextCookie b (b, Errno.EBUSY.neg)

theorem CookieInv.nextCookie (hb : CookieInv b) : NextCookie b b.nextCookie := by
  unfold Bus.nextCookie
  have hinc : cookieInc b.cookie < 2 ^ 32 ∧ (2 ^ 31 ≤ cookieInc b.cookie ∨ cookieInc b.cookie = b.cookie + 1) := by
    by_cases hlast : 2 ^ 32 - 1 ≤ b.cookie
    · rw [cookieInc_of_le hlast]
      omega
    · rw [cookieInc_of_lt (by omega)]
      omega
  by_cases htop : (cookieInc b.cookie).testBit 31
  · rw [if_pos htop]
    have htop' : TopBit (cookieInc b.cookie) := ⟨(testBit_iff hinc.1).mp htop, hinc.1⟩
    cases hprobe : b.probe cookieCycled (cookieInc b.cookie) with
    | some cookie =>
      obtain ⟨hfound, hfree⟩ := probe_eq_some hprobe htop'
      unfold TopBit at hfound
      refine .assigned (by omega) (by omega) (fun s he => ?_) (.inr hfound.1)
      rw [(hasCallback_iff).mpr ⟨s, he⟩] at hfree
      cases hfree
    | none => exact .busy fun c hc => (hasCallback_iff).mp (probe_eq_none hprobe htop' hc)
  · rw [if_neg htop]
    have hlt : cookieInc b.cookie < 2 ^ 31 := by
      by_contra hge
      exact htop ((testBit_iff hinc.1).mpr (by omega))
    refine .assigned (by omega) (by omega) (fun s he => ?_) (.inl (by omega))
    have hbelow := hb.below (by omega) _ s he
    omega

/-- No callback is added, and the last cookie is the same. -/
structure Keeps (b b' : Bus) : Prop where
  cookie : b'.cookie = b.cookie
  callbacks : ∀ e ∈ b'.replyCallbacks, e ∈ b.replyCallbacks

theorem Keeps.refl (b : Bus) : Keeps b b := ⟨rfl, fun _ he => he⟩

theorem Keeps.trans (h₁ : Keeps b b') (h₂ : Keeps b' b'') : Keeps b b'' :=
  ⟨h₂.cookie.trans h₁.cookie, fun e he => h₁.callbacks e (h₂.callbacks e he)⟩

theorem CookieInv.keeps (hb : CookieInv b) (h : Keeps b b') : CookieInv b' := by
  refine ⟨by rw [h.cookie]; exact hb.le, fun hlt c s he => ?_⟩
  rw [h.cookie] at hlt ⊢
  exact hb.below hlt c s (h.callbacks _ he)

theorem keeps_removeCallback (b : Bus) (cookie : Nat) : Keeps b (b.removeCallback cookie) :=
  ⟨rfl, fun _ he => (List.mem_filter.mp he).1⟩

theorem keeps_setSlot (b : Bus) (s : Nat) (slot : ReplySlot) : Keeps b (b.setSlot s slot) :=
  ⟨rfl, fun _ he => he⟩

theorem keeps_dequeue (h : b.dequeue fuel s = some b') : Keeps b b' := by
  obtain ⟨r, -, rfl⟩ := Option.map_eq_some_iff.mp h
  exact ⟨rfl, fun _ he => he⟩

theorem keeps_busSlotDisconnect {unref : Bool} (h : b.busSlotDisconnect fuel s unref = some b') :
    Keeps b b' := by
  unfold busSlotDisconnect at h
  split at h
  · cases h
    exact .refl _
  dsimp only at h
  have hremove : Keeps b (if (b.slots s).cookie ≠ 0 then b.removeCallback (b.slots s).cookie else b) := by
    split
    · exact keeps_removeCallback ..
    · exact .refl _
  generalize (if (b.slots s).cookie ≠ 0 then b.removeCallback (b.slots s).cookie else b) = b₀ at hremove h
  refine hremove.trans ?_
  split at h
  · cases h
  · next b₁ hb₁ =>
    have hdequeue : Keeps b₀ b₁ := by
      split at hb₁
      · exact keeps_dequeue hb₁
      · cases hb₁
        exact .refl _
    refine hdequeue.trans ?_
    split at h
    · cases h
      exact (keeps_setSlot ..).trans (keeps_setSlot ..)
    · cases h
      exact keeps_setSlot ..

theorem keeps_slotUnref (h : b.slotUnref fuel s = some b') : Keeps b b' := by
  unfold slotUnref at h
  split at h
  · cases h
  dsimp only at h
  split at h
  · exact (keeps_setSlot ..).trans (keeps_busSlotDisconnect h)
  · cases h
    exact keeps_setSlot ..

theorem keeps_stopTimeout (h : b.stopTimeout fuel s = some b') : Keeps b b' := by
  unfold stopTimeout at h
  split at h
  · obtain ⟨b₁, hb₁, rfl⟩ := Option.map_eq_some_iff.mp h
    exact (keeps_dequeue hb₁).trans (keeps_setSlot ..)
  · cases h
    exact .refl _

theorem keeps_invoke (h : b.invoke s = some b') : Keeps b b' := by
  unfold invoke at h
  split at h
  · cases h
    exact ⟨rfl, fun _ he => he⟩
  · cases h

theorem keeps_processReply {replyCookie : Nat} (h : b.processReply fuel replyCookie made = some b') :
    Keeps b b' := by
  unfold processReply at h
  split at h
  · cases h
    exact .refl _
  dsimp only at h
  split at h
  · cases h
    exact (keeps_removeCallback ..).trans (keeps_setSlot ..)
  split at h
  · cases h
  · next hstop =>
    exact (keeps_removeCallback ..).trans ((keeps_setSlot ..).trans
      ((keeps_stopTimeout hstop).trans (keeps_invoke h)))

theorem keeps_processTimeout {now : Nat} (h : b.processTimeout fuel now made = some b') :
    Keeps b b' := by
  unfold processTimeout at h
  split at h
  · cases h
    exact .refl _
  split at h
  · cases h
    exact .refl _
  split at h
  · cases h
    exact .refl _
  split at h
  · cases h
  split at h
  · cases h
  · next q popped _ _ =>
    have hqueue : Keeps b (b.setQueue q) := ⟨rfl, fun _ he => he⟩
    exact hqueue.trans ((keeps_setSlot ..).trans ((keeps_removeCallback ..).trans
      ((keeps_setSlot ..).trans (keeps_invoke h))))

theorem keeps_processClosing (h : b.processClosing fuel made = some b') : Keeps b b' := by
  unfold processClosing at h
  split at h
  · cases h
    exact .refl _
  split at h
  · cases h
    exact .refl _
  split at h
  · cases h
  · next hstop =>
    exact (keeps_stopTimeout hstop).trans ((keeps_removeCallback ..).trans
      ((keeps_setSlot ..).trans (keeps_invoke h)))

theorem keeps_callbackReturns (h : b.callbackReturns fuel s = some b') : Keeps b b' := by
  unfold callbackReturns at h
  dsimp only at h
  split at h
  · cases h
  · next b₁ hb₁ =>
    have hdisconnect : Keeps { b with currentSlot := none } b₁ := by
      split at hb₁
      · exact keeps_busSlotDisconnect hb₁
      · cases hb₁
        exact .refl _
    have hcurrent : Keeps b { b with currentSlot := none } := ⟨rfl, fun _ he => he⟩
    exact hcurrent.trans (hdisconnect.trans (keeps_slotUnref h))

theorem keeps_shiftTimeout (n : Nat) (b : Bus) (s : Nat) : Keeps b (shiftTimeout n b s) := by
  unfold shiftTimeout
  split
  · exact .refl _
  · exact keeps_setSlot ..

theorem keeps_busStartRunning (b : Bus) (now : Nat) (busClient : Bool) :
    Keeps b (b.busStartRunning now busClient) := by
  have hloop : ∀ (l : List Nat) (b : Bus), Keeps b (l.foldl (shiftTimeout now) b) := by
    intro l
    induction l with
    | nil => exact fun b => .refl b
    | cons s l ih => exact fun b => (keeps_shiftTimeout now b s).trans (ih _)
  have hshift := hloop (b.replyCallbacks.map Prod.snd) b
  exact ⟨hshift.cookie, hshift.callbacks⟩

theorem keeps_slotSetFloating {floating : Bool} (h : b.slotSetFloating fuel s floating = some b') :
    Keeps b b' := by
  unfold slotSetFloating at h
  split at h
  · cases h
    exact .refl _
  split at h
  · cases h
    exact .refl _
  split at h
  · cases h
    exact (keeps_setSlot ..).trans (keeps_setSlot ..)
  · exact (keeps_setSlot ..).trans (keeps_slotUnref h)

theorem keeps_busEnterClosing (b : Bus) : Keeps b b.busEnterClosing := by
  unfold busEnterClosing
  split
  · exact ⟨rfl, fun _ he => he⟩
  · exact .refl _

/-! ## Sends and calls -/

/-- A message is sealed with a cookie that the connection knows of. -/
theorem CookieInv.busSealMessage (hb : CookieInv b) (m : CallMessage) (timeout : Nat) (env : CallEnv) :
    CookieInv (b.busSealMessage m timeout env).1 ∧
      ∀ cookie usec, (b.busSealMessage m timeout env).2 = some (cookie, usec) →
        cookie ≤ (b.busSealMessage m timeout env).1.cookie ∧ cookie < 2 ^ 32 := by
  have hle := hb.le
  unfold Bus.busSealMessage
  cases m.sealed with
  | some sealed =>
    obtain ⟨cookie, usec⟩ := sealed
    have hcookie : cookie.toNat < 2 ^ 32 := cookie.toNat_lt
    refine ⟨⟨?_, fun hlt c s he => ?_⟩, fun c u heq => ?_⟩
    · show max b.cookie cookie.toNat < 2 ^ 32
      omega
    · replace hlt : max b.cookie cookie.toNat < 2 ^ 31 := hlt
      have hbelow := hb.below (by omega) c s he
      show c ≤ max b.cookie cookie.toNat
      omega
    · cases heq
      exact ⟨Nat.le_max_right .., hcookie⟩
  | none =>
    dsimp only
    split
    · exact ⟨hb, fun _ _ heq => by cases heq⟩
    have hnext := hb.nextCookie
    generalize b.nextCookie = next at hnext ⊢
    cases hnext with
    | busy hused =>
      exact ⟨hb, fun _ _ heq => by cases heq⟩
    | @assigned cookie hpos hle' hfree hinc =>
      have hinv : CookieInv { b with cookie := cookie } := by
        refine ⟨show cookie < 2 ^ 32 by omega, fun hlt c s he => ?_⟩
        replace hlt : cookie < 2 ^ 31 := hlt
        have hbelow := hb.below (by omega) c s he
        show c ≤ cookie
        omega
      dsimp only
      rw [if_neg (by decide)]
      split
      · exact ⟨hinv, fun _ _ heq => by cases heq⟩
      · refine ⟨hinv, fun c u heq => ?_⟩
        cases heq
        exact ⟨Nat.le_refl _, hinv.le⟩

theorem CookieInv.sendSealed (hb : CookieInv b) (hlt : cookie < 2 ^ 32) (result : SendResult) :
    CookieInv (b.sendSealed cookie result).1 := by
  have hle := hb.le
  have hmax : CookieInv { b with cookie := max b.cookie cookie } := by
    refine ⟨show max b.cookie cookie < 2 ^ 32 by omega, fun hlt' c s he => ?_⟩
    replace hlt' : max b.cookie cookie < 2 ^ 31 := hlt'
    have hbelow := hb.below (by omega) c s he
    show c ≤ max b.cookie cookie
    omega
  cases result with
  | sent | failed => exact hmax
  | disconnected => exact hmax.keeps (keeps_busEnterClosing _)

theorem keeps_startTimeout {elapse : Nat} {kept : Bool}
    (h : b.startTimeout s elapse env = some (b', kept)) : Keeps b b' := by
  unfold startTimeout at h
  dsimp only at h
  split at h
  · split at h
    · cases h
    · next q r _ =>
      have hqueue : ∀ k : Bus, Keeps k (k.setQueue q) := fun k => ⟨rfl, fun _ he => he⟩
      split at h
      · cases h
        exact (keeps_setSlot ..).trans ((hqueue _).trans (keeps_setSlot ..))
      · cases h
        exact (keeps_setSlot ..).trans (hqueue _)
  · cases h
    exact keeps_setSlot ..

/-- A callback is only put under the cookie of its message. -/
theorem CookieInv.register (hb : CookieInv b) {timeout : Nat} {kept : Bool} (hle : cookie ≤ b.cookie)
    (h : b.register s cookie timeout env = some (b', kept)) : CookieInv b' := by
  unfold Bus.register at h
  split at h
  · cases h
  next b₁ r hput =>
  have hb₁ : CookieInv b₁ := by
    unfold putCallback at hput
    split at hput
    · cases hput
      exact hb
    · split at hput
      · cases hput
      split at hput
      · cases hput
        exact hb
      · cases hput
        refine ⟨hb.le, fun hlt c s' he => ?_⟩
        rcases List.mem_append.mp he with hold | hnew
        · exact hb.below hlt c s' hold
        · cases List.mem_singleton.mp hnew
          exact hle
  split at h
  · cases h
    exact hb₁.keeps (keeps_setSlot ..)
  exact hb₁.keeps (keeps_startTimeout h)

theorem keeps_allocateSlot (b : Bus) (slot : ReplySlot) : Keeps b (b.allocateSlot slot) :=
  ⟨rfl, fun _ he => he⟩

theorem CookieInv.sdBusCallAsync (hb : CookieInv b) {usec : Nat} {m : CallMessage}
    {wantsSlot callback : Bool} (h : b.sdBusCallAsync fuel m wantsSlot callback usec env = some b') :
    CookieInv b' := by
  unfold Bus.sdBusCallAsync at h
  split at h
  · cases h
    exact hb
  split at h
  · cases h
    exact hb
  dsimp only at h
  generalize (if (!callback && !wantsSlot && m.sealed.isNone) = true then
    { m with noReplyExpected := true } else m) = m at h
  split at h
  · cases h
    exact hb
  obtain ⟨hsealed, hcookie⟩ := hb.busSealMessage m usec env
  generalize b.busSealMessage m usec env = sealed at hsealed hcookie h
  obtain ⟨b₁, _ | ⟨cookie, timeout⟩⟩ := sealed
  · cases h
    exact hsealed
  obtain ⟨hle, hlt⟩ := hcookie cookie timeout rfl
  dsimp only at h hsealed hle
  split at h
  · cases h
    exact hsealed
  next timeout' _ =>
  split at h
  · split at h
    · cases h
      exact hsealed
    have halloc := hsealed.keeps (keeps_allocateSlot b₁ ⟨callback, cookie, 0, !wantsSlot, true, 1⟩)
    split at h
    · cases h
    · next b₂ hregister => exact (halloc.register hle hregister).keeps (keeps_slotUnref h)
    · next b₂ hregister =>
      have hregistered := halloc.register hle hregister
      have hsent := hregistered.sendSealed hlt env.send
      generalize b₂.sendSealed cookie env.send = sent at hsent h
      obtain ⟨b₃, _ | _⟩ := sent
      · exact hsent.keeps (keeps_slotUnref h)
      · cases h
        exact hsent
  · cases h
    exact hsealed.sendSealed hlt env.send

theorem CookieInv.sdBusSend (hb : CookieInv b) (m : CallMessage) (env : CallEnv) :
    CookieInv (b.sdBusSend m env) := by
  unfold Bus.sdBusSend
  split
  · exact hb
  obtain ⟨hsealed, hcookie⟩ := hb.busSealMessage m 0 env
  generalize b.busSealMessage m 0 env = sealed at hsealed hcookie ⊢
  obtain ⟨b₁, _ | ⟨cookie, timeout⟩⟩ := sealed
  · exact hsealed
  · exact hsealed.sendSealed (hcookie cookie timeout rfl).2 env.send

/-- One event. -/
theorem CookieInv.step (hb : CookieInv b) {e : Event} (h : Step b e b') : CookieInv b' := by
  obtain ⟨fuel, h⟩ := h
  cases e with
  | send m env =>
    cases h
    exact hb.sdBusSend m env
  | callAsync m wantsSlot callback usec env => exact hb.sdBusCallAsync h
  | reply replyCookie made =>
    rw [Bus.step] at h
    split at h
    · exact hb.keeps (keeps_processReply h)
    · cases h
  | timeout now made =>
    rw [Bus.step] at h
    split at h
    · exact hb.keeps (keeps_processTimeout h)
    · cases h
  | closing made =>
    rw [Bus.step] at h
    split at h
    · exact hb.keeps (keeps_processClosing h)
    · cases h
  | callbackReturns =>
    rw [Bus.step] at h
    split at h
    · cases h
    · exact hb.keeps (keeps_callbackReturns h)
  | slotRef s =>
    rw [Bus.step] at h
    split at h
    · cases h
    · cases h
      exact hb.keeps (keeps_setSlot ..)
  | slotUnref s => exact hb.keeps (keeps_slotUnref h)
  | slotSetFloating s floating =>
    rw [Bus.step] at h
    split at h
    · cases h
    · exact hb.keeps (keeps_slotSetFloating h)
  | connect state | helloReply =>
    rw [Bus.step] at h
    split at h
    · cases h
      exact ⟨hb.le, hb.below⟩
    · cases h
  | startRunning now busClient =>
    rw [Bus.step] at h
    split at h
    · cases h
      exact hb.keeps (keeps_busStartRunning ..)
    · cases h
  | enterClosing =>
    cases h
    exact hb.keeps (keeps_busEnterClosing b)
  | close =>
    cases h
    exact ⟨hb.le, hb.below⟩

theorem cookieInv_initial : CookieInv initial :=
  ⟨by decide, fun _ _ _ he => by cases he⟩

/-- In every run, a cookie that is assigned is not zero, fits 32 bits and is not the one of
    an outstanding callback; and none is assigned only if all with the top bit are in
    use. -/
theorem run_nextCookie {es : List Event} (hrun : Run Step initial es b) :
    (∃ cookie, b.nextCookie = ({ b with cookie := cookie }, 0) ∧ cookie ≠ 0 ∧ cookie ≤ 2 ^ 32 - 1 ∧
        ∀ s, (cookie, s) ∉ b.replyCallbacks) ∨
      (b.nextCookie = (b, Errno.EBUSY.neg) ∧
        ∀ c, 2 ^ 31 ≤ c → c ≤ 2 ^ 32 - 1 → ∃ s, (c, s) ∈ b.replyCallbacks) := by
  have hinv : CookieInv b := hrun.invariant cookieInv_initial fun hb h => hb.step h
  have hnext := hinv.nextCookie
  generalize b.nextCookie = next at hnext ⊢
  cases hnext with
  | assigned hpos hle hfree _ => exact .inl ⟨_, rfl, hpos, hle, hfree⟩
  | busy hused => exact .inr ⟨rfl, fun c hge hle => hused c ⟨hge, by omega⟩⟩

/-- A call whose message was sealed with the lowest cookie of those with the top bit, and another message with the
    highest one. -/
def sentMessages : List Event :=
  let env : CallEnv :=
    { methodCallTimeout := 0, now := 0, allocated := true, prepared := true, seals := true, remarshal := none,
      slotAllocated := true, putAllocated := true, prioqAllocated := true, send := .sent }
  [.connect .opening, .callAsync { sealed := some (2147483648, 0), noReplyExpected := false } true true 0 env,
    .send { sealed := some (4294967295, 0), noReplyExpected := true } env]

/-- The first call is not answered yet. -/
def outstanding : Bus := (sentMessages.foldlM (step 2) initial).getD initial

theorem run_nextCookie_outstanding :
    Run Step initial sentMessages outstanding ∧ outstanding.cookie = 4294967295 ∧
      outstanding.replyCallbacks = [(2147483648, 0)] ∧
      ∃ cookie, outstanding.nextCookie = ({ outstanding with cookie := cookie }, 0) ∧ cookie ≠ 0 ∧
        cookie ≠ 2147483648 := by
  have hconnect : Step initial (.connect .opening) { initial with state := .opening } := ⟨2, rfl⟩
  have hrun : Run Step initial sentMessages outstanding := .cons hconnect (.cons ⟨2, rfl⟩ (.cons ⟨2, rfl⟩ (.nil _)))
  have hcallbacks : outstanding.replyCallbacks = [(2147483648, 0)] := rfl
  refine ⟨hrun, rfl, hcallbacks, ?_⟩
  rcases run_nextCookie hrun with ⟨cookie, heq, hne, -, hfree⟩ | ⟨-, hused⟩
  · rw [hcallbacks] at hfree
    exact ⟨cookie, heq, hne, fun hcookie => hfree 0 (by rw [hcookie]; exact List.mem_singleton_self _)⟩
  · obtain ⟨s, hs⟩ := hused 2147483649 (by decide) (by decide)
    rw [hcallbacks] at hs
    cases List.mem_singleton.mp hs

end Bus

end Elogind
