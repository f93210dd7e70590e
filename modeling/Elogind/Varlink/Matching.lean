/-
  Elogind.Varlink.Matching

  Over every run of a client that is careful, the replies it hands out are those that an honest server sent for its
  calls, whatever mix of calls it makes and however the bytes of the server arrive.
-/

import Elogind.Varlink.Pairing

namespace Elogind

open Lib Errno List Varlink

variable {R : Type} {format : Json R → Bytes} {parse : Bytes → Result (Json R)}
  {answer : Nat → VarlinkMessage → List Bytes}

namespace Varlink

variable {quiet : Prop} {frame frame' : VarlinkFrame R} {v w : Varlink (Json R)}

/-! ## Processing -/

theorem honest_congr (h : v.Honest answer) (hreceived : w.input.received = v.input.received) (hcalls : w.calls = v.calls) :
    w.Honest answer := by
  unfold Honest answers
  rw [hreceived, hcalls]
  exact h

theorem write_keeps (memory : Nat → MemoryAnswer) (a : OutputAnswer) :
    (v.write format memory a).1.input = v.input ∧ (v.write format memory a).1.state = v.state ∧
      (v.write format memory a).1.history = v.history ∧ (v.write format memory a).1.current = v.current ∧
      (v.write format memory a).1.replyCallback = v.replyCallback := by
  unfold write
  split_ifs
  · exact ⟨rfl, rfl, rfl, rfl, rfl⟩
  · exact ⟨rfl, rfl, rfl, rfl, rfl⟩
  · exact ⟨rfl, rfl, rfl, rfl, rfl⟩
  · cases v.output.write format memory a with
    | mk o r =>
      cases r with
      | error er => exact ⟨rfl, rfl, rfl, rfl, rfl⟩
      | ok b =>
        cases b with
        | none | some b => exact ⟨rfl, rfl, rfl, rfl, rfl⟩

theorem parseMessage_keeps :
    (v.parseMessage parse).1.input.received = v.input.received ∧ (v.parseMessage parse).1.state = v.state ∧
      (v.parseMessage parse).1.history = v.history ∧
      (v.parseMessage parse).1.replyCallback = v.replyCallback ∧
      ((v.parseMessage parse).2 = .ok false → (v.parseMessage parse).1.current = v.current) := by
  unfold parseMessage
  split_ifs
  · exact ⟨rfl, rfl, rfl, rfl, fun _ => rfl⟩
  · exact ⟨rfl, rfl, rfl, rfl, fun _ => rfl⟩
  · have hreceived := VarlinkInput.received_parseMessage parse v.input
    cases hparse : v.input.parseMessage parse with
    | mk i r =>
      rw [hparse] at hreceived
      cases r with
      | error er => exact ⟨hreceived, rfl, rfl, rfl, fun _ => rfl⟩
      | ok r =>
        cases r with
        | none => exact ⟨hreceived, rfl, rfl, rfl, fun _ => rfl⟩
        | some m =>
          refine ⟨hreceived, rfl, rfl, rfl, fun hfalse => ?_⟩
          cases hfalse

theorem KeepsOpen.congr {closes : Bool} (h : v.KeepsOpen closes) (hstate : w.state = v.state)
    (hcurrent : w.current = v.current) (hcallback : w.replyCallback = v.replyCallback) : w.KeepsOpen closes := by
  unfold KeepsOpen
  rw [hstate, hcurrent, hcallback]
  exact h

/-- Up to the parser, the steps of processing need the server to be honest. -/
theorem Pairs.firstSteps (hanswer : AnswersCalls parse answer) (methods : VarlinkMethods R) (a : ProcessAnswers R) :
    ∀ f ∈ (processSteps format parse methods a).take 4, ∀ v : Varlink (Json R),
      (v.Pairs format parse answer quiet frame ∧ v.Honest answer ∧ v.state ≠ .disconnected ∧
        (quiet → v.KeepsOpen a.closes)) →
        ∃ x, f v = some x ∧ (Varlink.finish x).Pairs format parse answer quiet frame ∧
          (x.2 = .ok false →
            x.1.Pairs format parse answer quiet frame ∧ x.1.Honest answer ∧ x.1.state ≠ .disconnected ∧
              (quiet → x.1.KeepsOpen a.closes)) := by
  rintro f hf v ⟨h, hhonest, hopen, hcloses⟩
  unfold Varlink.processSteps at hf
  simp only [take_succ_cons, take_zero, mem_cons, not_mem_nil, or_false] at hf
  rcases hf with rfl | rfl | rfl | rfl
  · have hwrite := h.write a.queueMemory a.write
    obtain ⟨hinput, hstate, hhistory, hcurrent, hcallback⟩ :=
      write_keeps (v := v) a.queueMemory a.write
    refine ⟨_, rfl, Pairs.finish hwrite, fun _ => ⟨hwrite, ?_, ?_,
      fun hquiet => (hcloses hquiet).congr hstate hcurrent hcallback⟩⟩
    · refine honest_congr hhonest (by rw [hinput]) ?_
      unfold calls
      rw [hhistory]
    · show (v.write format a.queueMemory a.write).1.state ≠ _
      rw [hstate]
      exact hopen
  · obtain ⟨x, hx, hpairs, hnothing⟩ := h.dispatchReply a.closes hcloses
    refine ⟨(x.1, .ok x.2), congrArg (Option.map _) hx, hpairs, fun hfalse => ?_⟩
    have hsame := hnothing (Except.ok.inj hfalse)
    rw [hsame]
    exact ⟨h, hhonest, hopen, hcloses⟩
  · refine ⟨(v, .ok false), ?_, h, fun _ => ⟨h, hhonest, hopen, hcloses⟩⟩
    show v.dispatchMethod format methods a.method = _
    unfold Varlink.dispatchMethod
    rw [if_pos h.not_idleServer]
  · obtain ⟨hreceived, hstate, hhistory, hcallback, hcurrent⟩ := parseMessage_keeps (v := v)
    have hparsing := h.parsing hanswer hhonest hopen
    refine ⟨_, rfl, hparsing, fun hfalse => ⟨?_, ?_, ?_,
      fun hquiet => (hcloses hquiet).congr hstate (hcurrent hfalse) hcallback⟩⟩
    · unfold Varlink.finish at hparsing
      rw [hfalse] at hparsing
      exact hparsing
    · refine honest_congr hhonest hreceived ?_
      unfold calls
      rw [hhistory]
    · rw [hstate]
      exact hopen

theorem Pairs.lastSteps (methods : VarlinkMethods R) (a : ProcessAnswers R) :
    ∀ f ∈ (processSteps format parse methods a).drop 4, ∀ v : Varlink (Json R), v.Pairs format parse answer quiet frame →
      ∃ x, f v = some x ∧ (Varlink.finish x).Pairs format parse answer quiet frame := by
  intro f hf v h
  unfold processSteps at hf
  simp only [drop_succ_cons, drop_zero, mem_cons, not_mem_nil, or_false] at hf
  rcases hf with rfl | rfl | rfl | rfl | rfl
  · exact ⟨_, rfl, Pairs.finish (h.read a.readMemory a.read)⟩
  · exact ⟨_, rfl, h.testDisconnect⟩
  · exact ⟨_, rfl, h.dispatchDisconnect a.closes⟩
  · exact ⟨_, rfl, h.testTimeout a.elapsed⟩
  · exact ⟨_, rfl, h.dispatchTimeout a.closes⟩

/-- No assertion fails while a client processes its connection. -/
theorem Pairs.sdVarlinkProcess (h : v.Pairs format parse answer quiet frame) (hanswer : AnswersCalls parse answer)
    (hhonest : v.Honest answer) (methods : VarlinkMethods R) (a : ProcessAnswers R)
    (hcloses : quiet → v.KeepsOpen a.closes) :
    ∃ x, v.sdVarlinkProcess format parse methods a = some x ∧ x.1.Pairs format parse answer quiet frame := by
  by_cases hopen : v.state = .disconnected
  · refine ⟨(v, .error ENOTCONN), ?_, h⟩
    unfold Varlink.sdVarlinkProcess
    rw [if_pos hopen]
  · refine sdVarlinkProcess_of_firstDone (fun v er hv => Pairs.finish hv) h ?_
    obtain ⟨x, hx, hfinish, hnothing⟩ := firstDone_ends (Pairs.firstSteps hanswer methods a)
      ⟨h, hhonest, hopen, hcloses⟩ h
    rw [← take_append_drop 4 (processSteps format parse methods a)]
    rcases firstDone_append ((processSteps format parse methods a).take 4)
        ((processSteps format parse methods a).drop 4) v with ⟨w, hw, heq⟩ | ⟨-, heq⟩
    · rw [hx] at hw
      cases hw
      rw [heq]
      exact firstDone_keeps (Pairs.lastSteps methods a) (hnothing rfl).1
    · rw [heq]
      exact ⟨x, hx, hfinish⟩

/-- Where processing fails the connection is gone. -/
theorem gone_of_process {methods : VarlinkMethods R} {a : ProcessAnswers R} {er : Errno}
    (hprocess : v.sdVarlinkProcess format parse methods a = some (w, .error er)) : gone w.state = true := by
  unfold sdVarlinkProcess at hprocess
  by_cases hclosed : v.state = .disconnected
  · rw [if_pos hclosed] at hprocess
    cases hprocess
    rw [hclosed]
    rfl
  · rw [if_neg hclosed] at hprocess
    obtain ⟨x, -, hx⟩ := Option.map_eq_some_iff.mp hprocess
    have hresult := congrArg Prod.snd hx
    have hlink := congrArg Prod.fst hx
    simp only at hresult hlink
    rw [← hlink, hresult]
    unfold finish
    split_ifs
    · rfl
    · rw [close_state]
      rfl

theorem Pairs.reframe (h : v.Pairs format parse answer quiet frame) (hgone : Varlink.gone v.state = true) :
    v.Pairs format parse answer quiet frame' :=
  h.gone h.transports hgone rfl rfl id rfl

/-! ## Calling -/

/-- A call is enqueued in one of the states for it, or nothing happens to the calls. -/
theorem enqueueCall_cases (v : Varlink (Json R)) (states : List VarlinkState) (kind : VarlinkMessage) (method : Bytes)
    (parameters : Option (Json R)) (flag : List (Bytes × Json R)) (memory : MemoryAnswer) :
    (∃ o er, v.enqueueCall format states kind method parameters flag memory = ({ v with output := o }, .error er)) ∨
      v.state ∈ states ∧ ∃ o m, v.enqueueCall format states kind method parameters flag memory =
        ({ v with output := o, history := v.history ++ [.enqueued kind m] }, .ok ()) := by
  unfold enqueueCall
  by_cases hclosed : v.state = .disconnected
  · rw [if_pos hclosed]
    exact .inl ⟨v.output, _, rfl⟩
  · rw [if_neg hclosed]
    by_cases hstates : v.state ∈ states
    · rw [if_neg (not_not.mpr hstates)]
      cases varlinkSanitizeParameters parameters with
      | error er => exact .inl ⟨v.output, _, rfl⟩
      | ok p =>
        unfold enqueueJson
        simp only
        cases v.output.enqueueJson format kind (callMessage method p flag) memory with
        | mk o r =>
          cases r with
          | error er => exact .inl ⟨o, er, rfl⟩
          | ok u => exact .inr ⟨hstates, o, _, rfl⟩
    · rw [if_pos hstates]
      exact .inl ⟨v.output, _, rfl⟩

/-- A call of a kind that is answered is one call more. -/
theorem answers_enqueued {kind : VarlinkMessage} (hkind : kind = .call ∨ kind = .more) {m : Json R}
    (hhistory : w.history = v.history ++ [.enqueued kind m]) :
    w.answers answer = v.answers answer ++ [answer v.calls.length kind] ∧ w.handedOut = v.handedOut := by
  unfold answers calls handedOut
  rw [hhistory, filterMap_append, filterMap_append]
  rcases hkind with rfl | rfl
  · exact ⟨mapIdx_concat, append_nil _⟩
  · exact ⟨mapIdx_concat, append_nil _⟩

theorem toNat_succ {n : UInt32} (h : n.toNat + 1 < UInt32.size) : (n + 1).toNat = n.toNat + 1 := by
  exact Nat.mod_eq_of_lt h

/-- A call that is sent is pending from then on. -/
theorem Pairs.enqueued (h : v.Pairs format parse answer quiet frame) (hanswer : AnswersCalls parse answer)
    (htransports : w.Transports format parse) {kind : VarlinkMessage} (hkind : kind = .call ∨ kind = .more) {m : Json R}
    (hhistory : w.history = v.history ++ [.enqueued kind m]) (hhanded : w.input.handed = v.input.handed)
    (halive : v.state.isAlive = true) (hlimit : v.nPending.toNat + 1 < UInt32.size) (hpending : w.nPending = v.nPending + 1)
    (hphase : ∀ {rest hand ts}, ClientPhase parse frame v.state v.current v.currentContinues rest hand →
      Answer parse kind ts → ClientPhase parse frame' w.state w.current w.currentContinues (rest ++ [ts]) hand) :
    w.Pairs format parse answer quiet frame' := by
  obtain ⟨given, rest, hand, hturn, hshown, hcount, hhanded', hphase'⟩ := h.paired
  obtain ⟨hanswers, hreplies⟩ := answers_enqueued hkind hhistory
  have hts := hanswer v.calls.length kind hkind
  refine ⟨htransports, given, rest ++ [answer v.calls.length kind], hand, ?_, ?_, fun _ => ?_, fun _ => ?_,
    hphase hphase' hts⟩
  · rw [hanswers]
    exact hturn.add hts.ne_nil
  · rw [hreplies]
    exact hshown
  · rw [hpending, toNat_succ hlimit, length_append, length_singleton, hcount (.inl (disconnected_of_not halive))]
  · rw [hhanded]
    exact hhanded' halive

/-- Nothing is pending where a client is idle. -/
theorem Pairs.idle (h : v.Pairs format parse answer quiet frame) (hstate : v.state = .idleClient) :
    v.nPending = 0 ∧ frame = .idle := by
  obtain ⟨given, rest, hand, hturn, hshown, hcount, hhanded, hphase⟩ := h.paired
  have hcount' := hcount (.inl (by rw [hstate]; decide))
  rw [hstate] at hphase
  cases hphase with
  | idle => exact ⟨eq_zero_of_pending hcount', rfl⟩
  | gone hs => cases hs

theorem Pairs.output (h : v.Pairs format parse answer quiet frame) {o : VarlinkOutput (Json R)}
    (htransports : ({ v with output := o } : Varlink (Json R)).Transports format parse) :
    ({ v with output := o } : Varlink (Json R)).Pairs format parse answer quiet frame :=
  h.congr htransports rfl rfl rfl rfl rfl rfl

theorem alive_of_awaiting {s : VarlinkState} (h : s ∈ [VarlinkState.idleClient, .awaitingReply]) : s.isAlive = true := by
  simp only [mem_cons, not_mem_nil, or_false] at h
  rcases h with rfl | rfl
  · rfl
  · rfl

theorem alive_of_idle {s : VarlinkState} (h : s ∈ [VarlinkState.idleClient]) : s.isAlive = true := by
  rw [mem_singleton.mp h]
  rfl

/-- `sd_varlink_send` leaves the calls that are answered as they are. -/
theorem Pairs.sdVarlinkSend (h : v.Pairs format parse answer quiet frame) (method : Bytes) (parameters : Option (Json R))
    (memory : MemoryAnswer) : (v.sdVarlinkSend format method parameters memory).1.Pairs format parse answer quiet frame := by
  have htransports := h.transports.enqueueCall (fun s => @alive_of_awaiting s)
    .oneway method parameters [(ascii "oneway", .ofBoolean true)] memory
  unfold Varlink.sdVarlinkSend
  rcases enqueueCall_cases v [.idleClient, .awaitingReply] .oneway method parameters
      [(ascii "oneway", .ofBoolean true)] memory with ⟨o, er, heq⟩ | ⟨-, o, m, heq⟩
  · rw [heq] at htransports ⊢
    exact h.output htransports
  · rw [heq] at htransports ⊢
    obtain ⟨given, rest, hand, hturn, hshown, hcount, hhanded, hphase⟩ := h.paired
    have hsame : ({ v with output := o, history := v.history ++ [.enqueued .oneway m] } : Varlink (Json R)).calls =
        v.calls ∧ ({ v with output := o, history := v.history ++ [.enqueued .oneway m] } :
          Varlink (Json R)).handedOut = v.handedOut := by
      unfold calls handedOut
      simp only [filterMap_append]
      exact ⟨append_nil _, append_nil _⟩
    refine ⟨htransports, given, rest, hand, ?_, ?_, hcount, hhanded, hphase⟩
    · unfold answers
      rw [hsame.1]
      exact hturn
    · rw [hsame.2]
      exact hshown

theorem Transports.awaited (h : v.Transports format parse) (halive : v.state.isAlive = true) {s : VarlinkState}
    (n : UInt32) : ({ v with state := s, nPending := n } : Varlink (Json R)).Transports format parse :=
  (h.setState (s := s) (.inl halive)).congr rfl rfl rfl

/-- A plain call that is made while no reply is pinned is answered by its own reply. -/
theorem Pairs.sdVarlinkInvoke (h : v.Pairs format parse answer quiet .idle) (hanswer : AnswersCalls parse answer)
    (method : Bytes) (parameters : Option (Json R)) (memory : MemoryAnswer)
    (hpinned : v.state = .idleClient → v.current = none) (hlimit : v.nPending.toNat + 1 < UInt32.size) :
    (v.sdVarlinkInvoke format method parameters memory).1.Pairs format parse answer quiet .idle := by
  have htransports := h.transports.enqueueCall (fun s => @alive_of_awaiting s)
    .call method parameters [] memory
  unfold Varlink.sdVarlinkInvoke
  rcases enqueueCall_cases v [.idleClient, .awaitingReply] .call method parameters
      [] memory with ⟨o, er, heq⟩ | ⟨hstates, o, m, heq⟩
  · rw [heq] at htransports ⊢
    exact h.output htransports
  · rw [heq] at htransports ⊢
    have halive := alive_of_awaiting hstates
    refine h.enqueued hanswer (Transports.awaited htransports halive _) (.inl rfl) (m := m) rfl rfl halive hlimit rfl ?_
    intro rest hand ts hphase hts
    show ClientPhase parse .idle .awaitingReply v.current v.currentContinues (rest ++ [ts]) hand
    simp only [mem_cons, not_mem_nil, or_false] at hstates
    rcases hstates with hstate | hstate
    · rw [hpinned hstate]
      rw [hstate] at hphase
      cases hphase with
      | idle =>
        refine .awaiting _ (fun us hus => ?_) (cons_ne_nil _ _)
        rw [mem_singleton.mp hus]
        exact hts
      | gone hs => cases hs
    · rw [hstate] at hphase
      generalize v.current = current at hphase ⊢
      have hall : (∀ us ∈ rest, Answer parse .call us) → ∀ us ∈ rest ++ [ts], Answer parse .call us := by
        intro hrest us hus
        rcases mem_append.mp hus with hus | hus
        · exact hrest us hus
        · rw [mem_singleton.mp hus]
          exact hts
      cases hphase with
      | awaiting c hrest hne => exact .awaiting _ (hall hrest) (append_ne_nil_of_left_ne_nil hne _)
      | answered c hm hrest => exact .answered _ hm (hall hrest)
      | gone hs => cases hs

/-- A call for more is made while nothing is pending. -/
theorem Pairs.sdVarlinkObserve (h : v.Pairs format parse answer quiet .idle) (hanswer : AnswersCalls parse answer)
    (method : Bytes) (parameters : Option (Json R)) (memory : MemoryAnswer)
    (hpinned : v.state = .idleClient → v.current = none) :
    (v.sdVarlinkObserve format method parameters memory).1.Pairs format parse answer quiet .idle := by
  have htransports := h.transports.enqueueCall (fun s => @alive_of_idle s)
    .more method parameters [(ascii "more", .ofBoolean true)] memory
  unfold Varlink.sdVarlinkObserve
  rcases enqueueCall_cases v [.idleClient] .more method parameters
      [(ascii "more", .ofBoolean true)] memory with ⟨o, er, heq⟩ | ⟨hstates, o, m, heq⟩
  · rw [heq] at htransports ⊢
    exact h.output htransports
  · rw [heq] at htransports ⊢
    have hstate := mem_singleton.mp hstates
    have halive := alive_of_idle hstates
    have hlimit : v.nPending.toNat + 1 < UInt32.size := by
      rw [(h.idle hstate).1]
      decide
    refine h.enqueued hanswer (Transports.awaited htransports halive _) (.inr rfl) (m := m) rfl rfl halive hlimit rfl ?_
    intro rest hand ts hphase hts
    show ClientPhase parse .idle .awaitingReplyMore v.current v.currentContinues (rest ++ [ts]) hand
    rw [hpinned hstate]
    rw [hstate] at hphase
    cases hphase with
    | idle => exact .awaitingMore _ hts
    | gone hs => cases hs

/-- A client that is idle may call and wait, whatever is pinned, and no assertion fails. -/
theorem Pairs.beginCall (h : v.Pairs format parse answer quiet .idle) (hanswer : AnswersCalls parse answer)
    {kind : VarlinkMessage} (hkind : kind = .call ∨ kind = .more) (method : Bytes) (parameters : Option (Json R))
    (flag : List (Bytes × Json R)) (memory : MemoryAnswer) {state : VarlinkState}
    (hphase : ∀ c ts, Answer parse kind ts → ClientPhase parse frame state none c [ts] []) :
    ∃ w r, v.beginCall format kind method parameters flag memory state = some (w, r) ∧
      ((∃ er, r = .error er) ∧ w.Pairs format parse answer quiet .idle ∨
        r = .ok () ∧ w.Pairs format parse answer quiet frame) := by
  unfold Varlink.beginCall
  by_cases hclosed : v.state = .disconnected
  · rw [if_pos hclosed]
    exact ⟨v, _, rfl, .inl ⟨⟨_, rfl⟩, h⟩⟩
  · rw [if_neg hclosed]
    by_cases hstate : v.state = .idleClient
    · obtain ⟨hnone, -⟩ := h.idle hstate
      rw [if_neg (not_not.mpr hstate), if_neg (not_not.mpr hnone)]
      have hcleared : v.clearCurrent.Pairs format parse answer quiet .idle := by
        obtain ⟨given, rest, hand, hturn, hshown, hcount, hhanded, hphase'⟩ := h.paired
        refine ⟨h.transports.clearCurrent, given, rest, hand, hturn, hshown, hcount, hhanded, ?_⟩
        show ClientPhase parse .idle v.state none false rest hand
        rw [hstate] at hphase' ⊢
        cases hphase' with
        | idle => exact .idle none false
        | gone hs => cases hs
      have htransports := hcleared.transports.enqueueCall (fun s => @alive_of_idle s)
        kind method parameters flag memory
      rcases enqueueCall_cases v.clearCurrent [.idleClient] kind method parameters flag memory with
        ⟨o, er, heq⟩ | ⟨-, o, m, heq⟩
      · rw [heq] at htransports ⊢
        exact ⟨_, _, rfl, .inl ⟨⟨_, rfl⟩, hcleared.output htransports⟩⟩
      · rw [heq] at htransports ⊢
        refine ⟨_, _, rfl, .inr ⟨rfl, ?_⟩⟩
        have halive : v.clearCurrent.state.isAlive = true := by
          show v.state.isAlive = true
          rw [hstate]
          rfl
        have hlimit : v.clearCurrent.nPending.toNat + 1 < UInt32.size := by
          show v.nPending.toNat + 1 < UInt32.size
          rw [hnone]
          decide
        refine hcleared.enqueued hanswer (Transports.awaited htransports halive _) hkind (m := m) rfl rfl halive hlimit
          rfl ?_
        intro rest hand ts hphase' hts
        show ClientPhase parse frame state none false (rest ++ [ts]) hand
        have hidle : v.clearCurrent.state = .idleClient := hstate
        rw [hidle] at hphase'
        cases hphase' with
        | idle => exact hphase false ts hts
        | gone hs => cases hs
    · rw [if_pos hstate]
      exact ⟨v, _, rfl, .inl ⟨⟨_, rfl⟩, h⟩⟩

/-! ## Returning -/

/-- The last reply of a call is handed out. -/
theorem Pairs.returned (h : v.Transports format parse) (halive : v.state.isAlive = true) {given ts : List Bytes}
    (hturn : GivenInTurn (v.answers answer) given [ts]) (hshown : List.Forall₂ (Shows parse) given v.handedOut)
    {rs : List (VarlinkReply (Json R))} (hrs : List.Forall₂ (Shows parse) ts rs) (hcount : 0 + 1 = v.nPending.toNat)
    (hhanded : v.input.handed = given ++ ts) :
    ∃ w, v.endCall = some w ∧ (w.handOut rs).Pairs format parse answer quiet .idle := by
  have hone : v.nPending = 1 := UInt32.toNat.inj hcount.symm
  unfold endCall
  rw [if_neg (not_not.mpr hone)]
  refine ⟨_, rfl, ?_, given ++ ts, [], [], ?_, ?_, fun _ => ?_, fun _ => ?_, .idle _ _⟩
  · exact (Transports.awaited h halive (s := .idleClient) (v.nPending - 1)).congr rfl rfl rfl
  · have hcalls : (({ v with state := .idleClient, nPending := v.nPending - 1 } : Varlink (Json R)).handOut rs).calls =
        v.calls := by
      unfold calls handOut
      rw [filterMap_append]
      have hnone : (rs.map VarlinkEvent.handedOut).filterMap VarlinkEvent.callKind = [] := by
        rw [filterMap_map]
        exact filterMap_eq_nil_iff.mpr fun r _ => rfl
      rw [hnone]
      exact append_nil _
    unfold answers
    rw [hcalls]
    exact hturn.finish
  · have hreplies : (({ v with state := .idleClient, nPending := v.nPending - 1 } :
        Varlink (Json R)).handOut rs).handedOut = v.handedOut ++ rs := by
      unfold handedOut handOut
      rw [filterMap_append, filterMap_map]
      congr 1
      exact filterMap_some
    rw [hreplies]
    exact rel_append hshown hrs
  · exact (toNat_pred hcount).symm
  · rw [append_nil]
    exact hhanded

/-- No assertion fails behind the loop of `sd_varlink_call_full`. -/
theorem Pairs.callProceed (h : v.Pairs format parse answer quiet .call) (hstate : v.state ≠ .calling) :
    ∃ s, VarlinkClient.callProceed v = some s ∧ s.link.Pairs format parse answer quiet s.frame := by
  unfold VarlinkClient.callProceed
  by_cases hgone : Varlink.gone v.state = true
  · rw [if_pos hgone]
    exact ⟨_, rfl, h.reframe hgone⟩
  · obtain ⟨given, rest, hand, hturn, hshown, hcount, hhanded, hphase⟩ := h.paired
    generalize hs : v.state = state, hc : v.currentContinues = c, hcurrent : v.current = current at hphase
    cases hphase with
    | calling | callAnswered => exact absurd hs hstate
    | @called t m r hm hr hfinal =>
      have halive : v.state.isAlive = true := by
        rw [hs]
        rfl
      have hshows := shows_byKey hm hr
      rw [hfinal] at hshows
      obtain ⟨w, hw, hpairs⟩ := Pairs.returned h.transports halive hturn hshown (.cons hshows .nil)
        (hcount (.inl (disconnected_of_not halive))) (hhanded halive)
      rw [if_neg (not_not.mpr rfl), Option.bind_some, hw]
      exact ⟨_, rfl, hpairs⟩
    | gone hg =>
      rw [hs] at hgone
      exact absurd hg hgone

/-- No assertion fails behind the inner loop of `sd_varlink_collect_full`. -/
theorem Pairs.collectProceed {collected : List (Option (Json R))}
    (h : v.Pairs format parse answer quiet (.collect collected)) (hstate : v.state ≠ .collecting) (append : Option Errno) :
    ∃ s, VarlinkClient.collectProceed v collected append = some s ∧
      ((v.state = .collectingReply → append = none ∧ collected.length < varlinkCollectMax ∧
        (collected ≠ [] → ∀ m, v.current = some m → m.byKey (ascii "error") = none)) →
          s.link.Pairs format parse answer quiet s.frame) := by
  unfold VarlinkClient.collectProceed
  by_cases hgone : Varlink.gone v.state = true
  · rw [if_pos hgone]
    exact ⟨_, rfl, fun _ => h.reframe hgone⟩
  · obtain ⟨given, rest, hand, hturn, hshown, hcount, hhanded, hphase⟩ := h.paired
    generalize hs : v.state = state, hc : v.currentContinues = c, hcurrent : v.current = current at hphase
    cases hphase with
    | collecting | collectAnswered => exact absurd hs hstate
    | @collected us ts t m r _ hus hm hr hts =>
      have halive : v.state.isAlive = true := by
        rw [hs]
        rfl
      have hn := hcount (.inl (disconnected_of_not halive))
      have hhanded' := hhanded halive
      have hshows := shows_byKey hm hr
      obtain ⟨-, herror, hsome, -⟩ := replyOf_byKey hr
      rw [if_neg (not_not.mpr rfl), Option.bind_some]
      -- the reply is the last one, or more are to come
      rcases hts with ⟨hfinal, rfl⟩ | ⟨hcontinues, hnone, hrest⟩
      · rw [hfinal] at hshows ⊢
        have hcall : ∃ w, v.endCall = some w := by
          unfold endCall
          rw [if_neg (not_not.mpr (UInt32.toNat.inj hn.symm))]
          exact ⟨_, rfl⟩
        obtain ⟨w, hw⟩ := hcall
        -- handing out what was collected ends the call
        have hreturned : ∀ rs, Forall₂ (Shows parse) (us ++ [t]) rs →
            (w.handOut rs).Pairs format parse answer quiet .idle := by
          intro rs hrs
          obtain ⟨w', hw', hpairs⟩ := Pairs.returned h.transports halive hturn hshown hrs hn hhanded'
          rw [hw] at hw'
          cases hw'
          exact hpairs
        rw [if_neg Bool.false_ne_true, hw, Option.map_some]
        -- an error is handed out alone, and careful callers have collected nothing before it
        by_cases he : (m.byKey (ascii "error")).isSome = true
        · rw [if_pos he]
          refine ⟨_, rfl, fun hcareful => ?_⟩
          obtain ⟨-, -, hfirst⟩ := hcareful rfl
          have hempty : collected = [] := by
            by_contra hne
            rw [hfirst hne m rfl] at he
            cases he
          rw [hempty] at hus
          cases hus
          exact hreturned _ (.cons hshows .nil)
        · rw [if_neg he]
          refine ⟨_, rfl, fun hcareful => ?_⟩
          obtain ⟨rfl, hfew, -⟩ := hcareful rfl
          rw [if_neg (Nat.not_le.mpr hfew), if_neg (by decide), if_neg Bool.false_ne_true]
          have hnone : m.byKey (ascii "error") = none := by simpa using he
          rw [hnone] at hshows
          refine hreturned _ (rel_append ?_ (.cons hshows .nil))
          exact forall₂_map_right_iff.mpr hus
      · -- a reply with `continues` is collected
        have hplain : ¬(m.byKey (ascii "error")).isSome = true := by
          intro he
          have hr := hsome he
          rw [hnone] at hr
          cases hr
        rw [if_pos hcontinues, Option.map_some, if_neg hplain]
        refine ⟨_, rfl, fun hcareful => ?_⟩
        obtain ⟨rfl, hfew, -⟩ := hcareful rfl
        rw [if_neg (Nat.not_le.mpr hfew), if_neg (by decide), if_pos hcontinues]
        rw [herror, hnone, hcontinues] at hshows
        have hgathered : Forall₂ (fun t p => Shows parse t ⟨p, none, true⟩) (us ++ [t])
            (collected ++ [m.byKey (ascii "parameters")]) := rel_append hus (.cons hshows .nil)
        have hall : us ++ t :: ts = us ++ [t] ++ ts := append_cons _ _ _
        refine ⟨(h.transports.clearCurrent).setState (.inl halive), given, [us ++ [t] ++ ts], us ++ [t], ?_, hshown,
          fun _ => hn, fun _ => hhanded', .collecting _ hgathered hrest⟩
        rw [← hall]
        exact hturn
    | gone hg =>
      rw [hs] at hgone
      exact absurd hg hgone

end Varlink

/-! ## Runs -/

namespace VarlinkClient

variable {methods : VarlinkMethods R} {s s' : VarlinkClient R}

/-- What holds of a client that is careful: its calls are paired with the answers. -/
def Paired (format : Json R → Bytes) (parse : Bytes → Result (Json R)) (answer : Nat → VarlinkMessage → List Bytes)
    (s : VarlinkClient R) : Prop :=
  s.link.Pairs format parse answer True s.frame

/-- A call begins, or returns with an error at once. -/
theorem begun_of_beginCall {frame : VarlinkFrame R} (hframe : s.frame = .idle) {w : Varlink (Json R)} {r : Result Unit}
    (h : (∃ er, r = .error er) ∧ w.Pairs format parse answer True .idle ∨ r = .ok () ∧ w.Pairs format parse answer True frame) :
    ∃ s', s.begun frame (some (w, r)) = some s' ∧ s'.Paired format parse answer := by
  rcases h with ⟨⟨er, rfl⟩, hpairs⟩ | ⟨rfl, hpairs⟩
  · refine ⟨_, rfl, ?_⟩
    rw [hframe]
    exact hpairs
  · exact ⟨_, rfl, hpairs⟩

/-- No assertion fails in a step, and one that is careful keeps calls paired with the answers. -/
theorem Paired.clientStep (h : s.Paired format parse answer) (hanswer : Varlink.AnswersCalls parse answer)
    (hhonest : s.link.Honest answer) (a : ClientStep R) :
    ∃ s', s.clientStep format parse methods a = some s' ∧ (s.Careful a → s'.Paired format parse answer) := by
  -- the caller is in no call, in `sd_varlink_call` or in `sd_varlink_collect`
  obtain ⟨v, frame⟩ := s
  replace h : v.Pairs format parse answer True frame := h
  cases a with
  | send method parameters memory =>
    cases frame with
    | idle => exact ⟨_, rfl, fun _ => h.sdVarlinkSend method parameters memory⟩
    | call | collect collected => exact ⟨_, rfl, fun _ => h⟩
  | invoke method parameters memory =>
    cases frame with
    | idle =>
      exact ⟨_, rfl, fun hcareful => h.sdVarlinkInvoke hanswer method parameters memory hcareful.1 hcareful.2⟩
    | call | collect collected => exact ⟨_, rfl, fun _ => h⟩
  | observe method parameters memory =>
    cases frame with
    | idle => exact ⟨_, rfl, fun hcareful => h.sdVarlinkObserve hanswer method parameters memory hcareful⟩
    | call | collect collected => exact ⟨_, rfl, fun _ => h⟩
  | call method parameters memory =>
    cases frame with
    | idle =>
      obtain ⟨w, r, hbegin, hpairs⟩ := h.beginCall hanswer (.inl rfl) method parameters [] memory
        fun c ts hts => (.calling c hts : ClientPhase parse .call .calling none c [ts] [])
      obtain ⟨s', hs', hpaired⟩ := begun_of_beginCall (s := ⟨v, .idle⟩) rfl hpairs
      refine ⟨s', ?_, fun _ => hpaired⟩
      show begun ⟨v, .idle⟩ .call (v.beginCall format .call method parameters [] memory .calling) = _
      rw [hbegin]
      exact hs'
    | call | collect collected => exact ⟨_, rfl, fun _ => h⟩
  | collect method parameters memory =>
    cases frame with
    | idle =>
      obtain ⟨w, r, hbegin, hpairs⟩ := h.beginCall hanswer (.inr rfl) method parameters
        [(ascii "more", .ofBoolean true)] memory
        fun c ts hts => (.collecting c .nil hts : ClientPhase parse (.collect []) .collecting none c [[] ++ ts] [])
      obtain ⟨s', hs', hpaired⟩ := begun_of_beginCall (s := ⟨v, .idle⟩) rfl hpairs
      refine ⟨s', ?_, fun _ => hpaired⟩
      show begun ⟨v, .idle⟩ (.collect []) (v.beginCall format .more method parameters
        [(ascii "more", .ofBoolean true)] memory .collecting) = _
      rw [hbegin]
      exact hs'
    | call | collect collected => exact ⟨_, rfl, fun _ => h⟩
  | process a =>
    obtain ⟨⟨w, r⟩, hx, -⟩ :=
      (h.loud : v.Pairs format parse answer False frame).sdVarlinkProcess hanswer hhonest methods a False.elim
    -- a careful caller keeps the replies paired; the others only keep the assertions
    have hpairs : v.KeepsOpen a.closes → w.Pairs format parse answer True frame := by
      intro hcareful
      obtain ⟨x, hx', hpairs⟩ := h.sdVarlinkProcess hanswer hhonest methods a fun _ => hcareful
      rw [hx] at hx'
      cases hx'
      exact hpairs
    -- inside a call, only a waiting caller processes
    have hwaits : ∀ frame', frame = frame' → ∃ s',
        (if (⟨v, frame'⟩ : VarlinkClient R).waiting then
          (v.sdVarlinkProcess format parse methods a).map (processEnds frame') else some ⟨v, frame'⟩) = some s' ∧
          (v.KeepsOpen a.closes → s'.Paired format parse answer) := by
      rintro frame' rfl
      by_cases hwaiting : (⟨v, frame⟩ : VarlinkClient R).waiting = true
      · rw [if_pos hwaiting, hx]
        cases r with
        | error er => exact ⟨_, rfl, fun hcareful => (hpairs hcareful).reframe (gone_of_process hx)⟩
        | ok b => exact ⟨_, rfl, hpairs⟩
      · rw [if_neg hwaiting]
        exact ⟨_, rfl, fun _ => h⟩
    cases frame with
    | idle =>
      refine ⟨⟨w, .idle⟩, ?_, hpairs⟩
      show (v.sdVarlinkProcess format parse methods a).map _ = _
      rw [hx]
      rfl
    | call | collect collected =>
      obtain ⟨s', hs', hpaired⟩ := hwaits _ rfl
      exact ⟨s', hs', hpaired⟩
  | waitFailed =>
    unfold VarlinkClient.clientStep
    by_cases hwaiting : (⟨v, frame⟩ : VarlinkClient R).waiting = true
    · rw [if_pos hwaiting]
      refine ⟨_, rfl, fun hcareful => ?_⟩
      have hnot : (⟨v, frame⟩ : VarlinkClient R).waiting = false := hcareful
      rw [hwaiting] at hnot
      cases hnot
    · rw [if_neg hwaiting]
      exact ⟨_, rfl, fun _ => h⟩
  | proceed append =>
    cases frame with
    | idle => exact ⟨_, rfl, fun _ => h⟩
    | call =>
      unfold VarlinkClient.clientStep
      simp only
      by_cases hwaiting : (⟨v, .call⟩ : VarlinkClient R).waiting = true
      · rw [if_pos hwaiting]
        exact ⟨_, rfl, fun _ => h⟩
      · rw [if_neg hwaiting]
        have hstate : v.state ≠ .calling := fun hstate => hwaiting (decide_eq_true hstate)
        obtain ⟨s', hs', hpairs⟩ := h.callProceed hstate
        exact ⟨s', hs', fun _ => hpairs⟩
    | collect collected =>
      unfold VarlinkClient.clientStep
      simp only
      by_cases hwaiting : (⟨v, .collect collected⟩ : VarlinkClient R).waiting = true
      · rw [if_pos hwaiting]
        exact ⟨_, rfl, fun _ => h⟩
      · rw [if_neg hwaiting]
        have hstate : v.state ≠ .collecting := fun hstate => hwaiting (decide_eq_true hstate)
        obtain ⟨s', hs', hpairs⟩ := h.collectProceed hstate append
        exact ⟨s', hs', fun hcareful => hpairs (hcareful collected rfl)⟩
  | connected | hangup =>
    exact ⟨_, rfl, fun _ => h.congr (h.transports.congr rfl rfl rfl) rfl rfl rfl rfl rfl rfl⟩
  | close =>
    cases frame with
    | idle => exact ⟨_, rfl, fun _ => h.close⟩
    | call | collect collected => exact ⟨_, rfl, fun _ => h⟩

theorem Paired.of_isNew (h : s.IsNew) : s.Paired format parse answer ∧ s.link.Honest answer := by
  have hcalls : s.link.calls = [] := by
    unfold calls
    rw [h.link.history]
    rfl
  have hreplies : s.link.handedOut = [] := by
    unfold handedOut
    rw [h.link.history]
    rfl
  have hanswers : s.link.answers answer = [] := by
    unfold answers
    rw [hcalls]
    rfl
  refine ⟨⟨.of_new h.link, [], [], [], ?_, ?_, fun _ => ?_, fun _ => h.link.handed, ?_⟩, ?_⟩
  · rw [hanswers]
    exact .start
  · rw [hreplies]
    exact .nil
  · rw [h.pending]
    rfl
  · rw [h.frame, h.state]
    exact .idle _ _
  · unfold Honest
    rw [h.link.received]
    exact nil_prefix

/-- While there is a connection, a client is idle if nothing is pending. -/
theorem Paired.idle_iff (h : s.Paired format parse answer) (halive : s.link.state.isAlive = true) :
    s.link.state = .idleClient ↔ s.link.nPending = 0 := by
  refine ⟨fun hstate => (Pairs.idle h hstate).1, fun hnone => ?_⟩
  obtain ⟨given, rest, hand, hturn, hshown, hcount, hhanded, hphase⟩ := h.paired
  have hcount' := hcount (.inl (disconnected_of_not halive))
  rw [hnone] at hcount'
  have hrest : rest = [] := eq_nil_of_length_eq_zero hcount'
  generalize s.link.state = state, s.link.current = current, s.link.currentContinues = c, s.frame = frame
    at hphase halive ⊢
  cases hphase with
  | idle => rfl
  | awaiting c hrests hne => exact absurd hrest hne
  | gone hs =>
    rw [not_alive_of_gone hs] at halive
    cases halive
  | answered | awaitingMore | answeredMore | calling | callAnswered | called | collecting
  | collectAnswered | collected => cases hrest

/-- Replies are awaited by callbacks only while no call is in progress, and by calls only while one is. -/
theorem Paired.awaits (h : s.Paired format parse answer) (halive : s.link.state.isAlive = true) :
    (s.frame = .idle → s.link.state = .idleClient ∨ s.link.state = .awaitingReply ∨
      s.link.state = .awaitingReplyMore) ∧
      (s.frame ≠ .idle → s.link.state ≠ .awaitingReply ∧ s.link.state ≠ .awaitingReplyMore) := by
  obtain ⟨given, rest, hand, -, -, -, -, hphase⟩ := h.paired
  generalize s.link.state = state, s.link.current = current, s.link.currentContinues = c, s.frame = frame
    at hphase halive ⊢
  cases hphase with
  | idle => exact ⟨fun _ => .inl rfl, fun hne => absurd rfl hne⟩
  | awaiting | answered => exact ⟨fun _ => .inr (.inl rfl), fun hne => absurd rfl hne⟩
  | awaitingMore | answeredMore => exact ⟨fun _ => .inr (.inr rfl), fun hne => absurd rfl hne⟩
  | gone hs =>
    rw [not_alive_of_gone hs] at halive
    cases halive
  | calling | callAnswered | called | collecting | collectAnswered | collected =>
    exact ⟨fun heq => absurd heq (by simp), fun _ => by decide⟩

theorem state_callProceed {v : Varlink (Json R)} (hs : callProceed v = some s) :
    s.link.state = v.state ∨ s.link.state = .idleClient := by
  unfold callProceed at hs
  split_ifs at hs
  · cases hs
    exact .inl rfl
  · obtain ⟨m, -, hm⟩ := Option.bind_eq_some_iff.mp hs
    obtain ⟨w, hw, hlink⟩ := Option.map_eq_some_iff.mp hm
    unfold endCall at hw
    split_ifs at hw
    cases hw
    cases hlink
    exact .inr rfl

theorem state_collectProceed {v : Varlink (Json R)} {collected : List (Option (Json R))} {append : Option Errno}
    (hs : collectProceed v collected append = some s) :
    s.link.state = v.state ∨ s.link.state = .idleClient ∨ s.link.state = .collecting := by
  unfold collectProceed at hs
  by_cases hgone : gone v.state = true
  · rw [if_pos hgone] at hs
    cases hs
    exact .inl rfl
  · rw [if_neg hgone] at hs
    by_cases hstate : v.state = .collectingReply
    · rw [if_neg (not_not.mpr hstate)] at hs
      obtain ⟨m, -, hm⟩ := Option.bind_eq_some_iff.mp hs
      obtain ⟨w, hw, hlink⟩ := Option.map_eq_some_iff.mp hm
      have hends : w.state = v.state ∨ w.state = .idleClient := by
        unfold endCall at hw
        split_ifs at hw
        · cases hw
          exact .inl rfl
        · cases hw
          exact .inr rfl
      have hkept : s.link.state = w.state ∨ s.link.state = .collecting := by
        split_ifs at hlink
        all_goals
          cases hlink
          first
            | exact .inl rfl
            | exact .inr rfl
      rcases hkept with heq | heq
      · rw [heq]
        rcases hends with hend | hend
        · exact .inl hend
        · exact .inr (.inl hend)
      · exact .inr (.inr heq)
    · rw [if_pos hstate] at hs
      cases hs

/-- A call that returns on a connection that is still there leaves it idle. -/
theorem Paired.idle_of_return (h : s.Paired format parse answer) (hanswer : Varlink.AnswersCalls parse answer)
    (hhonest : s.link.Honest answer) {a : ClientStep R} (hcareful : s.Careful a)
    (hstep : s.clientStep format parse methods a = some s') (hframe : s.frame ≠ .idle) (hframe' : s'.frame = .idle)
    (halive : s'.link.state.isAlive = true) : s'.link.state = .idleClient := by
  obtain ⟨t, ht, hpaired⟩ := h.clientStep hanswer hhonest a
  rw [hstep] at ht
  cases ht
  have hidle := ((hpaired hcareful).awaits halive).1 hframe'
  -- behind the loop, the state is the one that was left, or an idle one
  have hleft : s'.link.state = s.link.state ∨ s'.link.state = .idleClient ∨ s'.link.state = .collecting →
      s'.link.state = .idleClient := by
    rintro (heq | heq | heq)
    · rw [heq] at hidle halive ⊢
      obtain ⟨hplain, hmore⟩ := (h.awaits halive).2 hframe
      rcases hidle with hidle | hidle | hidle
      · exact hidle
      · exact absurd hidle hplain
      · exact absurd hidle hmore
    · exact heq
    · rw [heq] at hidle
      rcases hidle with hidle | hidle | hidle
      all_goals cases hidle
  have hsame : s' = s → s'.link.state = .idleClient := by
    rintro rfl
    exact absurd hframe' hframe
  have hprocess : ∀ p : ProcessAnswers R,
      (if s.waiting then (s.link.sdVarlinkProcess format parse methods p).map (processEnds s.frame) else some s) =
        some s' → s'.link.state = .idleClient := by
    intro p hp
    by_cases hwaiting : s.waiting = true
    · rw [if_pos hwaiting] at hp
      obtain ⟨⟨w, r⟩, hx, heq⟩ := Option.map_eq_some_iff.mp hp
      cases r with
      | error er =>
        have hdead := not_alive_of_gone (gone_of_process hx)
        rw [← heq] at halive
        replace halive : w.state.isAlive = true := halive
        rw [hdead] at halive
        cases halive
      | ok b =>
        rw [← heq] at hframe'
        exact absurd hframe' hframe
    · rw [if_neg hwaiting] at hp
      exact hsame (Option.some.inj hp).symm
  obtain ⟨v, frame⟩ := s
  cases frame with
  | idle => exact absurd rfl hframe
  | call =>
    cases a with
    | send method parameters memory | invoke method parameters memory | observe method parameters memory
    | call method parameters memory | collect method parameters memory | close =>
      exact hsame (Option.some.inj hstep).symm
    | process a => exact hprocess a hstep
    | waitFailed =>
      unfold VarlinkClient.clientStep at hstep
      rw [hcareful, if_neg Bool.false_ne_true] at hstep
      exact hsame (Option.some.inj hstep).symm
    | proceed append =>
      unfold VarlinkClient.clientStep at hstep
      split_ifs at hstep
      · exact hsame (Option.some.inj hstep).symm
      · refine hleft ?_
        rcases state_callProceed hstep with heq | heq
        · exact .inl heq
        · exact .inr (.inl heq)
    | connected | hangup =>
      cases hstep
      cases hframe'
  | collect collected =>
    cases a with
    | send method parameters memory | invoke method parameters memory | observe method parameters memory
    | call method parameters memory | collect method parameters memory | close =>
      exact hsame (Option.some.inj hstep).symm
    | process a => exact hprocess a hstep
    | waitFailed =>
      unfold VarlinkClient.clientStep at hstep
      rw [hcareful, if_neg Bool.false_ne_true] at hstep
      exact hsame (Option.some.inj hstep).symm
    | proceed append =>
      unfold VarlinkClient.clientStep at hstep
      split_ifs at hstep
      · exact hsame (Option.some.inj hstep).symm
      · exact hleft (state_collectProceed hstep)
    | connected | hangup =>
      cases hstep
      cases hframe'

end VarlinkClient

end Elogind
