/-
  Elogind.Varlink.Pairing

  How far a client is with its calls: which texts of the server it has at hand, which replies it handed out, and
  which calls are pending.
-/

import Elogind.Varlink.Replies

namespace Elogind

open Lib Errno List Varlink

variable {R : Type}

/-! ## Phases -/

/-- How far a client is, with these answers left to be handed out and these texts at hand. -/
inductive ClientPhase (parse : Bytes → Result (Json R)) :
    VarlinkFrame R → VarlinkState → Option (Json R) → Bool → List (List Bytes) → List Bytes → Prop where
  | idle (current : Option (Json R)) (continues : Bool) : ClientPhase parse .idle .idleClient current continues [] []
  | awaiting {rest : List (List Bytes)} (continues : Bool) (hrest : ∀ ts ∈ rest, Answer parse .call ts)
      (hne : rest ≠ []) : ClientPhase parse .idle .awaitingReply none continues rest []
  | answered {t : Bytes} {m : Json R} {rest : List (List Bytes)} (continues : Bool) (hm : parse t = .ok m)
      (hrest : ∀ ts ∈ [t] :: rest, Answer parse .call ts) :
      ClientPhase parse .idle .awaitingReply (some m) continues ([t] :: rest) [t]
  | awaitingMore {ts : List Bytes} (continues : Bool) (hts : Answer parse .more ts) :
      ClientPhase parse .idle .awaitingReplyMore none continues [ts] []
  | answeredMore {t : Bytes} {ts : List Bytes} {m : Json R} (continues : Bool) (hm : parse t = .ok m)
      (hts : Answer parse .more (t :: ts)) :
      ClientPhase parse .idle .awaitingReplyMore (some m) continues [t :: ts] [t]
  | calling {ts : List Bytes} (continues : Bool) (hts : Answer parse .call ts) :
      ClientPhase parse .call .calling none continues [ts] []
  | callAnswered {t : Bytes} {m : Json R} (continues : Bool) (hm : parse t = .ok m) (ht : Answer parse .call [t]) :
      ClientPhase parse .call .calling (some m) continues [[t]] [t]
  | called {t : Bytes} {m : Json R} {r : VarlinkReply (Json R)} (hm : parse t = .ok m) (hr : replyOf m = some r)
      (hfinal : r.continues = false) : ClientPhase parse .call .called (some m) false [[t]] [t]
  | collecting {us ts : List Bytes} {ps : List (Option (Json R))} (continues : Bool)
      (hus : List.Forall₂ (fun t p => Shows parse t ⟨p, none, true⟩) us ps) (hts : Answer parse .more ts) :
      ClientPhase parse (.collect ps) .collecting none continues [us ++ ts] us
  | collectAnswered {us ts : List Bytes} {t : Bytes} {m : Json R} {ps : List (Option (Json R))} (continues : Bool)
      (hus : List.Forall₂ (fun t p => Shows parse t ⟨p, none, true⟩) us ps) (hm : parse t = .ok m)
      (hts : Answer parse .more (t :: ts)) :
      ClientPhase parse (.collect ps) .collecting (some m) continues [us ++ t :: ts] (us ++ [t])
  | collected {us ts : List Bytes} {t : Bytes} {m : Json R} {r : VarlinkReply (Json R)} {ps : List (Option (Json R))}
      (hus : List.Forall₂ (fun t p => Shows parse t ⟨p, none, true⟩) us ps) (hm : parse t = .ok m)
      (hr : replyOf m = some r) (hts : r.continues = false ∧ ts = [] ∨
        r.continues = true ∧ r.error = none ∧ Answer parse .more ts) :
      ClientPhase parse (.collect ps) .collectingReply (some m) r.continues [us ++ t :: ts] (us ++ [t])
  | gone {frame : VarlinkFrame R} {s : VarlinkState} {current : Option (Json R)} {continues : Bool}
      {rest : List (List Bytes)} {hand : List Bytes} (hs : Varlink.gone s = true) :
      ClientPhase parse frame s current continues rest hand

theorem not_alive_of_gone {s : VarlinkState} (h : Varlink.gone s = true) : s.isAlive = false := by
  cases s
  all_goals first
    | rfl
    | cases h

theorem awaitsReply_alive {s : VarlinkState} (h : s.awaitsReply = true) : s.isAlive = true := by
  cases s
  all_goals first
    | rfl
    | cases h

namespace Varlink

variable (format : Json R → Bytes) (parse : Bytes → Result (Json R)) (answer : Nat → VarlinkMessage → List Bytes)

/-- How far a client with a call in progress is with its calls.  Those that are pending are counted as long as there
    is a connection, and beyond if no callback closes it. -/
structure Pairs (quiet : Prop) (frame : VarlinkFrame R) (v : Varlink (Json R)) : Prop where
  transports : v.Transports format parse
  paired : ∃ given rest hand, GivenInTurn (v.answers answer) given rest ∧
    List.Forall₂ (Shows parse) given v.handedOut ∧
    (v.state ≠ .disconnected ∨ quiet → rest.length = v.nPending.toNat) ∧
    (v.state.isAlive = true → v.input.handed = given ++ hand) ∧
    ClientPhase parse frame v.state v.current v.currentContinues rest hand

variable {format parse answer} {quiet : Prop} {frame frame' : VarlinkFrame R} {v w : Varlink (Json R)}

theorem Pairs.matches (h : v.Pairs format parse answer True frame) : v.Matches parse answer := by
  obtain ⟨given, rest, hand, hturn, hshown, hcount, -, -⟩ := h.paired
  exact ⟨given, rest, hturn, hshown, hcount (.inr trivial)⟩

/-- What holds if no callback closes the connection. -/
theorem Pairs.loud (h : v.Pairs format parse answer True frame) : v.Pairs format parse answer quiet frame := by
  obtain ⟨given, rest, hand, hturn, hshown, hcount, hhanded, hphase⟩ := h.paired
  exact ⟨h.transports, given, rest, hand, hturn, hshown, fun _ => hcount (.inr trivial), hhanded, hphase⟩

/-- What neither counts for calls nor for texts. -/
theorem Pairs.congr (h : v.Pairs format parse answer quiet frame) (htransports : w.Transports format parse)
    (hstate : w.state = v.state) (hcurrent : w.current = v.current)
    (hcontinues : w.currentContinues = v.currentContinues) (hpending : w.nPending = v.nPending)
    (hhanded : w.input.handed = v.input.handed) (hhistory : w.history = v.history) :
    w.Pairs format parse answer quiet frame := by
  refine ⟨htransports, ?_⟩
  unfold answers calls handedOut
  rw [hstate, hcurrent, hcontinues, hpending, hhanded, hhistory]
  exact h.paired

/-- A connection that is gone leaves its calls as they are. -/
theorem Pairs.gone (h : v.Pairs format parse answer quiet frame) (htransports : w.Transports format parse)
    (hgone : Varlink.gone w.state = true) (hcalls : w.calls = v.calls) (hreplies : w.handedOut = v.handedOut)
    (hopen : w.state ≠ .disconnected → v.state ≠ .disconnected) (hpending : w.nPending = v.nPending) :
    w.Pairs format parse answer quiet frame' := by
  obtain ⟨given, rest, hand, hturn, hshown, hcount, -, -⟩ := h.paired
  refine ⟨htransports, given, rest, [], ?_, ?_, ?_, ?_, .gone hgone⟩
  · unfold answers
    rw [hcalls]
    exact hturn
  · rw [hreplies]
    exact hshown
  · rw [hpending]
    rintro (hne | hquiet)
    · exact hcount (.inl (hopen hne))
    · exact hcount (.inr hquiet)
  · intro halive
    rw [not_alive_of_gone hgone] at halive
    cases halive

theorem calls_close (v : Varlink (Json R)) : v.close.calls = v.calls ∧ v.close.handedOut = v.handedOut := by
  unfold close
  split_ifs
  · exact ⟨rfl, rfl⟩
  · exact ⟨rfl, rfl⟩

theorem nPending_close (v : Varlink (Json R)) : v.close.nPending = v.nPending := by
  unfold close
  split_ifs
  · rfl
  · rfl

theorem nPending_dispatchLocalError (v : Varlink (Json R)) (closes : Bool) :
    (v.dispatchLocalError closes).nPending = v.nPending := by
  unfold dispatchLocalError
  split_ifs
  · exact nPending_close _
  · rfl
  · rfl

theorem calls_dispatchLocalError (v : Varlink (Json R)) (closes : Bool) :
    (v.dispatchLocalError closes).calls = v.calls ∧ (v.dispatchLocalError closes).handedOut = v.handedOut := by
  have hlocal : ({ v with history := v.history ++ [.localError] } : Varlink (Json R)).calls = v.calls ∧
      ({ v with history := v.history ++ [.localError] } : Varlink (Json R)).handedOut = v.handedOut := by
    unfold calls handedOut
    simp only [filterMap_append]
    exact ⟨append_nil _, append_nil _⟩
  unfold dispatchLocalError
  split_ifs
  · obtain ⟨hcalls, hreplies⟩ := calls_close ({ v with history := v.history ++ [.localError] } : Varlink (Json R))
    exact ⟨hcalls.trans hlocal.1, hreplies.trans hlocal.2⟩
  · exact hlocal
  · exact ⟨rfl, rfl⟩

theorem Pairs.close (h : v.Pairs format parse answer quiet frame) : v.close.Pairs format parse answer quiet frame' := by
  obtain ⟨hcalls, hreplies⟩ := calls_close v
  refine h.gone h.transports.close ?_ hcalls hreplies (fun hopen => absurd (close_state v) hopen) (nPending_close v)
  rw [close_state]
  rfl

/-- Where the connection fails, the client is told and the connection is closed. -/
theorem Pairs.fail (h : v.Pairs format parse answer quiet frame) (hopen : v.state ≠ .disconnected) {s : VarlinkState}
    (hs : s.isAlive = false) (closes : Bool) :
    (((v.setState s).dispatchLocalError closes).close).Pairs format parse answer quiet frame' := by
  have htransports : (v.setState s).Transports format parse := h.transports.setState (.inr ⟨hs, hopen⟩)
  obtain ⟨hcalls, hreplies⟩ := calls_dispatchLocalError (v.setState s) closes
  obtain ⟨hcalls', hreplies'⟩ := calls_close ((v.setState s).dispatchLocalError closes)
  refine h.gone (htransports.dispatchLocalError closes).close ?_ (hcalls'.trans hcalls) (hreplies'.trans hreplies)
    (fun hne => absurd (close_state _) hne) ((nPending_close _).trans (nPending_dispatchLocalError _ closes))
  rw [close_state]
  rfl

/-- The end of `sd_varlink_process` leaves the calls as they are. -/
theorem Pairs.finish {x : Varlink (Json R) × Result Bool} (h : x.1.Pairs format parse answer quiet frame) :
    (Varlink.finish x).Pairs format parse answer quiet frame := by
  have htransports := h.transports.finish
  unfold Varlink.finish at htransports ⊢
  cases hx : x.2 with
  | ok b => exact h
  | error er =>
    rw [hx] at htransports
    by_cases halive : x.1.state.isAlive = true
    · rw [if_pos halive] at htransports ⊢
      exact h.gone htransports rfl rfl rfl (fun _ => disconnected_of_not halive) rfl
    · rw [if_neg halive]
      exact h.close

/-! ## Processing -/

theorem Pairs.write (h : v.Pairs format parse answer quiet frame) (memory : Nat → MemoryAnswer) (a : OutputAnswer) :
    (v.write format memory a).1.Pairs format parse answer quiet frame := by
  have htransports := h.transports.write memory a
  unfold Varlink.write at htransports ⊢
  split_ifs at htransports ⊢
  · exact h
  · exact h
  · exact h
  · cases hwrite : v.output.write format memory a with
    | mk o r =>
      rw [hwrite] at htransports
      cases r with
      | error er => exact h.congr htransports rfl rfl rfl rfl rfl rfl
      | ok b =>
        cases b with
        | none | some b => exact h.congr htransports rfl rfl rfl rfl rfl rfl

theorem Pairs.read (h : v.Pairs format parse answer quiet frame) (memory : MemoryAnswer) (a : InputAnswer) :
    (v.read memory a).1.Pairs format parse answer quiet frame := by
  have htransports := h.transports.read memory a
  have hhanded := VarlinkInput.handed_read v.input v.allowFdPassingInput memory a
  unfold Varlink.read at htransports ⊢
  split_ifs at htransports ⊢
  · exact h
  · exact h
  · exact h
  · exact h
  · exact h
  · cases hread : v.input.read v.allowFdPassingInput memory a with
    | mk i r =>
      rw [hread] at htransports hhanded
      have hlength : i.handed = v.input.handed := hhanded
      cases r with
      | error er => exact h.congr htransports rfl rfl rfl rfl hlength rfl
      | ok b =>
        cases b with
        | none | some b => exact h.congr htransports rfl rfl rfl rfl hlength rfl

theorem Pairs.testDisconnect (h : v.Pairs format parse answer quiet frame) :
    v.testDisconnect.1.Pairs format parse answer quiet frame := by
  unfold Varlink.testDisconnect
  by_cases hdisconnects : (v.state.isAlive && !v.connecting && !(v.output.buffer.size > 0 && !v.writeDisconnected) &&
      (v.readDisconnected && v.writeDisconnected || v.state.reads && v.readDisconnected ||
        v.state = .idleClient && (v.writeDisconnected || v.gotPollhup) ||
        (v.state = .pendingMethod || v.state = .pendingMethodMore) &&
          (v.writeDisconnected || v.output.buffer.size = 0) && v.gotPollhup)) = true
  · rw [if_pos hdisconnects]
    have halive : v.state.isAlive = true := by
      simp only [Bool.and_eq_true] at hdisconnects
      exact hdisconnects.1.1.1
    exact h.gone (h.transports.setState (.inl halive)) rfl rfl rfl (fun _ => disconnected_of_not halive) rfl
  · rw [if_neg hdisconnects]
    exact h

theorem Pairs.testTimeout (h : v.Pairs format parse answer quiet frame) (elapsed : Bool) :
    (v.testTimeout elapsed).1.Pairs format parse answer quiet frame := by
  unfold Varlink.testTimeout
  by_cases htimeout : (v.state.awaitsReply && elapsed) = true
  · rw [if_pos htimeout]
    have halive : v.state.isAlive = true := by
      rw [Bool.and_eq_true] at htimeout
      exact awaitsReply_alive htimeout.1
    exact h.gone (h.transports.setState (.inl halive)) rfl rfl rfl (fun _ => disconnected_of_not halive) rfl
  · rw [if_neg htimeout]
    exact h

theorem Pairs.dispatchDisconnect (h : v.Pairs format parse answer quiet frame) (closes : Bool) :
    (v.dispatchDisconnect closes).1.Pairs format parse answer quiet frame := by
  unfold Varlink.dispatchDisconnect
  by_cases hstate : v.state = .pendingDisconnect
  · rw [if_neg (not_not.mpr hstate)]
    exact h.fail (by rw [hstate]; decide) rfl closes
  · rw [if_pos hstate]
    exact h

theorem Pairs.dispatchTimeout (h : v.Pairs format parse answer quiet frame) (closes : Bool) :
    (v.dispatchTimeout closes).1.Pairs format parse answer quiet frame := by
  unfold Varlink.dispatchTimeout
  by_cases hstate : v.state = .pendingTimeout
  · rw [if_neg (not_not.mpr hstate)]
    exact h.fail (by rw [hstate]; decide) rfl closes
  · rw [if_pos hstate]
    exact h

theorem Pairs.not_idleServer (h : v.Pairs format parse answer quiet frame) : v.state ≠ .idleServer := by
  obtain ⟨given, rest, hand, -, -, -, -, hphase⟩ := h.paired
  intro hstate
  rw [hstate] at hphase
  cases hphase with
  | gone hs => cases hs

/-! ## The next text -/

/-- Every call is answered by this server, whenever it comes and whatever its kind. -/
def AnswersCalls (parse : Bytes → Result (Json R)) (answer : Nat → VarlinkMessage → List Bytes) : Prop :=
  ∀ n kind, kind = .call ∨ kind = .more → Answer parse kind (answer n kind)

theorem mem_calls {J : Type} {v : Varlink J} {kind : VarlinkMessage} (h : kind ∈ v.calls) :
    kind = .call ∨ kind = .more := by
  obtain ⟨e, -, he⟩ := mem_filterMap.mp h
  unfold VarlinkEvent.callKind at he
  split at he
  · exact .inl (Option.some.inj he).symm
  · exact .inr (Option.some.inj he).symm
  · cases he

theorem parses_answers (hanswer : AnswersCalls parse answer) (v : Varlink (Json R)) :
    ∀ t ∈ (v.answers answer).flatten, 0 ∉ t ∧ ∃ m, parse t = .ok m := by
  intro t ht
  obtain ⟨ts, hts, ht⟩ := mem_flatten.mp ht
  obtain ⟨n, hn, rfl⟩ := mem_mapIdx.mp hts
  exact (hanswer n _ (mem_calls (getElem_mem hn))).parses t ht

/-- What is parsed of what an honest server sent are its texts. -/
theorem handed_prefix (hanswer : AnswersCalls parse answer) (htransports : v.Transports format parse)
    (hhonest : v.Honest answer) : v.input.handed <+: (v.answers answer).flatten := by
  have hparses := parses_answers hanswer v
  have htexts := texts_prefix (fun t ht => (hparses t ht).1) hhonest
  have hall : uptoFailure parse (texts v.input.received) = texts v.input.received := by
    have happend := uptoFailure_append (fun t ht => (hparses t (htexts.mem ht)).2) []
    rw [append_nil] at happend
    rw [happend]
    exact append_nil _
  have horder := htransports.delivered.inOrder
  rw [hall] at horder
  exact horder.trans htexts

/-- A text that an honest server sent is the next one of the answer that is awaited. -/
theorem Pairs.received (h : v.Pairs format parse answer quiet frame) (hanswer : AnswersCalls parse answer)
    (hhonest : v.Honest answer) (hcurrent : v.current = none) {i : VarlinkInput} {m : Json R}
    (hparse : v.input.parseMessage parse = (i, .ok (some m)))
    (htransports : ({ v with input := i, current := some m } : Varlink (Json R)).Transports format parse) :
    ({ v with input := i, current := some m } : Varlink (Json R)).Pairs format parse answer quiet frame := by
  obtain ⟨given, rest, hand, hturn, hshown, hcount, hhanded, hphase⟩ := h.paired
  obtain ⟨text, hm, hgrown⟩ := VarlinkInput.handed_of_parseMessage_some hparse
  have hreceived := VarlinkInput.received_parseMessage parse v.input
  rw [hparse] at hreceived
  -- what the client is still to hand out starts with the text
  have hnext : v.state.isAlive = true → hand ++ [text] <+: rest.flatten := by
    intro halive
    have hprefix := handed_prefix hanswer htransports (by
      show i.received <+: _
      rw [hreceived]
      exact hhonest)
    have hall : ({ v with input := i, current := some m } : Varlink (Json R)).answers answer = v.answers answer := rfl
    rw [hall, hturn.flatten] at hprefix
    replace hprefix : i.handed <+: given ++ rest.flatten := hprefix
    rw [hgrown, hhanded halive, append_assoc] at hprefix
    exact (prefix_append_right_inj given).mp hprefix
  suffices hsuffices : ∃ hand', (v.state.isAlive = true → hand' = hand ++ [text]) ∧
      ClientPhase parse frame v.state (some m) v.currentContinues rest hand' by
    obtain ⟨hand', hhand, hphase'⟩ := hsuffices
    refine ⟨htransports, given, rest, hand', hturn, hshown, hcount, fun halive => ?_, hphase'⟩
    show i.handed = given ++ hand'
    rw [hgrown, hhanded halive, hhand halive, append_assoc]
  rw [hcurrent] at hphase
  generalize v.state = s, v.currentContinues = c at hphase hnext
  -- in each phase the text is the head of the answer that is awaited
  cases hphase with
  | idle =>
    have hnil : [text] = [] := prefix_nil.mp (hnext rfl)
    cases hnil
  | awaiting _ hrest hne =>
    refine ⟨[text], fun _ => rfl, ?_⟩
    cases rest with
    | nil => exact absurd rfl hne
    | cons ts rest =>
      have hts := hrest ts mem_cons_self
      cases ts with
      | nil => exact absurd rfl hts.ne_nil
      | cons t ts =>
        cases hts.singleton
        have hhead : [text] <+: t :: rest.flatten := hnext rfl
        cases (cons_prefix_cons.mp hhead).1
        exact .answered c hm hrest
  | @awaitingMore ts _ hts =>
    refine ⟨[text], fun _ => rfl, ?_⟩
    cases ts with
    | nil => exact absurd rfl hts.ne_nil
    | cons t ts =>
      have hhead : [text] <+: t :: (ts ++ []) := hnext rfl
      cases (cons_prefix_cons.mp hhead).1
      exact .answeredMore c hm hts
  | @calling ts _ hts =>
    refine ⟨[text], fun _ => rfl, ?_⟩
    cases ts with
    | nil => exact absurd rfl hts.ne_nil
    | cons t ts =>
      cases hts.singleton
      have hhead : [text] <+: [t] := hnext rfl
      cases (cons_prefix_cons.mp hhead).1
      exact .callAnswered c hm hts
  | @collecting _ ts ps _ hus hts =>
    refine ⟨hand ++ [text], fun _ => rfl, ?_⟩
    cases ts with
    | nil => exact absurd rfl hts.ne_nil
    | cons t ts =>
      have hflatten : hand ++ [text] <+: hand ++ (t :: ts) ++ [] := hnext rfl
      rw [append_nil, prefix_append_right_inj] at hflatten
      cases (cons_prefix_cons.mp hflatten).1
      exact .collectAnswered c hus hm hts
  | gone hs =>
    refine ⟨hand, fun halive => ?_, .gone hs⟩
    rw [not_alive_of_gone hs] at halive
    cases halive

theorem Pairs.parsing (h : v.Pairs format parse answer quiet frame) (hanswer : AnswersCalls parse answer)
    (hhonest : v.Honest answer) (hopen : v.state ≠ .disconnected) :
    (Varlink.finish (v.parseMessage parse)).Pairs format parse answer quiet frame := by
  have htransports := h.transports.parsing hopen
  unfold parseMessage at htransports ⊢
  split_ifs at htransports ⊢ with hcurrent hunscanned
  · exact h
  · exact h
  · have hnone : v.current = none := by simpa using hcurrent
    cases hparse : v.input.parseMessage parse with
    | mk i r =>
      rw [hparse] at htransports
      cases r with
      | error er =>
        unfold Varlink.finish at htransports ⊢
        by_cases halive : v.state.isAlive = true
        · rw [if_pos halive] at htransports ⊢
          exact h.gone htransports rfl rfl rfl (fun _ => hopen) rfl
        · rw [if_neg halive] at htransports ⊢
          obtain ⟨hcalls, hreplies⟩ := calls_close ({ v with input := i } : Varlink (Json R))
          have hclosed := close_state ({ v with input := i } : Varlink (Json R))
          refine h.gone htransports ?_ hcalls hreplies (fun hne => absurd hclosed hne) (nPending_close _)
          rw [hclosed]
          rfl
      | ok r =>
        cases r with
        | none => exact h.congr htransports rfl rfl rfl rfl (VarlinkInput.handed_of_parseMessage_none hparse) rfl
        | some m => exact h.received hanswer hhonest hnone hparse htransports

/-! ## The reply dispatcher -/

/-- The connection while this reply is handed to the callback. -/
def processing (v : Varlink (Json R)) (r : VarlinkReply (Json R)) : Varlink (Json R) :=
  { v with
    state := .processingReply
    currentContinues := r.continues
    history := v.history ++ [.handedOut r] }

/-- The connection after this reply was handed to the callback. -/
def processed (v : Varlink (Json R)) (r : VarlinkReply (Json R)) : Varlink (Json R) :=
  let n := if r.continues then v.nPending else v.nPending - 1
  { (v.processing r).clearCurrent with
    nPending := n
    state := if r.continues then .awaitingReplyMore else if n = 0 then .idleClient else .awaitingReply }

section

variable {m : Json R} {r : VarlinkReply (Json R)} {p : Json R}

/-- A reply that is awaited by a callback is handed out, and no assertion fails. -/
theorem dispatchReply_callback (hstate : v.state = .awaitingReply ∨ v.state = .awaitingReplyMore)
    (hcurrent : v.current = some m) (hpending : v.nPending ≠ 0) (hr : receivedReply v.state m = some r)
    (hp : varlinkSanitizeParameters r.parameters = .ok p) (closes : Bool) :
    v.dispatchReply closes =
      if v.replyCallback && closes then some ((v.processing ⟨some p, r.error, r.continues⟩).close.clearCurrent, true)
      else some (v.processed ⟨some p, r.error, r.continues⟩, true) := by
  obtain ⟨state, server, connecting, nPending, input, output, replyCallback, current, continues, wd, rd, hup, ai, ao,
    history⟩ := v
  subst hcurrent
  have hawaits : state.awaitsReply = true := by
    rcases hstate with rfl | rfl
    · rfl
    · rfl
  unfold dispatchReply
  simp only [hawaits, Bool.not_true, Bool.false_eq_true, if_false, if_neg hpending, hr, hp]
  rcases hstate with rfl | rfl
  · by_cases hclose : (replyCallback && closes) = true
    · rw [if_pos hclose, if_pos hclose]
      rfl
    · rw [if_neg hclose, if_neg hclose]
      exact if_neg hpending
  · by_cases hclose : (replyCallback && closes) = true
    · rw [if_pos hclose, if_pos hclose]
      rfl
    · rw [if_neg hclose, if_neg hclose]
      exact if_neg hpending

/-- A reply that is awaited by a call is pinned. -/
theorem dispatchReply_pinned {s : VarlinkState}
    (hstate : v.state = .calling ∧ s = .called ∨ v.state = .collecting ∧ s = .collectingReply)
    (hcurrent : v.current = some m) (hpending : v.nPending ≠ 0) (hr : receivedReply v.state m = some r)
    (hp : varlinkSanitizeParameters r.parameters = .ok p) (closes : Bool) :
    v.dispatchReply closes = some ({ v with currentContinues := r.continues, state := s }, true) := by
  obtain ⟨state, server, connecting, nPending, input, output, replyCallback, current, continues, wd, rd, hup, ai, ao,
    history⟩ := v
  subst hcurrent
  have hawaits : state.awaitsReply = true := by
    rcases hstate with ⟨rfl, -⟩ | ⟨rfl, -⟩
    · rfl
    · rfl
  unfold dispatchReply
  simp only [hawaits, Bool.not_true, Bool.false_eq_true, if_false, if_neg hpending, hr, hp]
  rcases hstate with ⟨rfl, rfl⟩ | ⟨rfl, rfl⟩
  · rfl
  · rfl

end

/-- One call less is pending. -/
theorem toNat_pred {n : UInt32} {k : Nat} (h : k + 1 = n.toNat) : (n - 1).toNat = k := by
  have hle : (1 : UInt32) ≤ n := by
    show 1 ≤ n.toNat
    omega
  rw [UInt32.toNat_sub_of_le _ _ hle, ← h]
  rfl

theorem ne_zero_of_pending {n : UInt32} {k : Nat} (h : k + 1 = n.toNat) : n ≠ 0 := by
  rintro rfl
  cases h

theorem eq_zero_of_pending {n : UInt32} (h : 0 = n.toNat) : n = 0 := UInt32.toNat.inj h.symm

/-- One more reply was handed out. -/
theorem calls_processed (v : Varlink (Json R)) (r : VarlinkReply (Json R)) :
    (v.processed r).calls = v.calls ∧ (v.processed r).handedOut = v.handedOut ++ [r] := by
  constructor
  · show (v.history ++ [VarlinkEvent.handedOut r]).filterMap _ = _
    rw [filterMap_append]
    exact append_nil _
  · show (v.history ++ [VarlinkEvent.handedOut r]).filterMap _ = _
    rw [filterMap_append]
    rfl

theorem calls_processing (v : Varlink (Json R)) (r : VarlinkReply (Json R)) :
    (v.processing r).close.clearCurrent.calls = v.calls ∧
      (v.processing r).close.clearCurrent.handedOut = v.handedOut ++ [r] := by
  obtain ⟨hcalls, hreplies⟩ := calls_close (v.processing r)
  obtain ⟨hcalls', hreplies'⟩ := calls_processed v r
  exact ⟨hcalls.trans hcalls', hreplies.trans hreplies'⟩

theorem Transports.processing (h : v.Transports format parse) (halive : v.state.isAlive = true)
    (r : VarlinkReply (Json R)) : (v.processing r).Transports format parse := by
  have hstate := h.setState (s := .processingReply) (.inl halive)
  exact hstate.congr rfl rfl rfl

theorem Transports.processed (h : v.Transports format parse) (halive : v.state.isAlive = true)
    (r : VarlinkReply (Json R)) : (v.processed r).Transports format parse := by
  have hcleared := (h.processing halive r).clearCurrent
  have hstate := hcleared.setState (s := (v.processed r).state) (.inl rfl)
  exact hstate.congr rfl rfl rfl

/-- A reply is handed to the callback, which may close the connection. -/
theorem Pairs.handing (h : v.Transports format parse) (halive : v.state.isAlive = true) {given : List Bytes}
    {rest' : List (List Bytes)} {t : Bytes} {r : VarlinkReply (Json R)}
    (hturn : GivenInTurn (v.answers answer) (given ++ [t]) rest') (hshown : List.Forall₂ (Shows parse) given v.handedOut)
    (hshows : Shows parse t r) (hcount : rest'.length = (v.processed r).nPending.toNat)
    (hhanded : v.input.handed = given ++ [t])
    (hphase : ClientPhase parse .idle (v.processed r).state none false rest' []) (closes : Bool)
    (hcloses : quiet → r.continues = false → (v.replyCallback && closes) = false) :
    ∃ x, (if v.replyCallback && closes then some ((v.processing r).close.clearCurrent, true)
      else some (v.processed r, true)) = some x ∧ x.1.Pairs format parse answer quiet .idle ∧ x.2 = true := by
  have hgiven : Forall₂ (Shows parse) (given ++ [t]) (v.handedOut ++ [r]) :=
    rel_append hshown (.cons hshows .nil)
  by_cases hclose : (v.replyCallback && closes) = true
  · rw [if_pos hclose]
    obtain ⟨hcalls, hreplies⟩ := calls_processing v r
    have hclosed : (v.processing r).close.clearCurrent.state = .disconnected := close_state _
    refine ⟨_, rfl, ⟨(h.processing halive r).close.clearCurrent, given ++ [t], rest', [], ?_, ?_, ?_,
      fun hal => ?_, .gone ?_⟩, rfl⟩
    · unfold answers
      rw [hcalls]
      exact hturn
    · rw [hreplies]
      exact hgiven
    · rintro (hne | hquiet)
      · exact absurd hclosed hne
      · have hcontinues : r.continues = true := by
          by_contra hfinal
          rw [hcloses hquiet (by simpa using hfinal)] at hclose
          cases hclose
        unfold processed at hcount
        rw [hcontinues] at hcount
        exact hcount.trans (congrArg UInt32.toNat (nPending_close (v.processing r))).symm
    · cases hal
    · rfl
  · rw [if_neg hclose]
    obtain ⟨hcalls, hreplies⟩ := calls_processed v r
    refine ⟨_, rfl, ⟨h.processed halive r, given ++ [t], rest', [], ?_, ?_, fun _ => hcount, fun _ => ?_, hphase⟩,
      rfl⟩
    · unfold answers
      rw [hcalls]
      exact hturn
    · rw [hreplies]
      exact hgiven
    · show v.input.handed = _
      rw [hhanded, append_nil]

/-- No assertion fails where a reply is dispatched. -/
theorem Pairs.dispatchReply (h : v.Pairs format parse answer quiet frame) (closes : Bool)
    (hcloses : quiet → v.KeepsOpen closes) :
    ∃ x, v.dispatchReply closes = some x ∧ x.1.Pairs format parse answer quiet frame ∧ (x.2 = false → x.1 = v) := by
  by_cases hawaits : v.state.awaitsReply = true
  · cases hcurrent : v.current with
    | none => exact ⟨_, dispatchReply_nothing hcurrent closes, h, fun _ => rfl⟩
    | some m =>
      obtain ⟨given, rest, hand, hturn, hshown, hcount, hhanded, hphase⟩ := h.paired
      have halive := awaitsReply_alive hawaits
      have hcount' := hcount (.inl (disconnected_of_not halive))
      have hhanded' := hhanded halive
      rw [hcurrent] at hphase
      generalize hstate : v.state = s, v.currentContinues = c at hphase
      cases hphase with
      -- the answer to the first of the calls sent
      | @answered t _ later _ hm hrest =>
        obtain ⟨r, hr, ⟨hfinal, -⟩ | ⟨hkind, -⟩⟩ := (hrest [t] mem_cons_self).head hm
        · obtain ⟨fields, hp⟩ := exists_sanitized hr
          have hn : later.length + 1 = v.nPending.toNat := hcount'
          have hpred := toNat_pred hn
          rw [dispatchReply_callback (.inl hstate) hcurrent (ne_zero_of_pending hn)
            (receivedReply_of_head hr (.inl hfinal)) hp closes]
          rw [hfinal]
          have hnext : ((v.processed ⟨some (.object fields), r.error, false⟩).nPending).toNat = later.length := hpred
          have hnextPhase : ClientPhase parse .idle (if v.nPending - 1 = 0 then .idleClient else .awaitingReply) none false
              later [] := by
            cases later with
            | nil =>
              rw [if_pos (eq_zero_of_pending hpred.symm)]
              exact .idle none false
            | cons ts later =>
              rw [if_neg (ne_zero_of_pending hpred.symm)]
              exact .awaiting false (fun us hus => hrest us (mem_cons_of_mem _ hus)) (cons_ne_nil _ _)
          obtain ⟨x, hx, hpairs, htrue⟩ := Pairs.handing h.transports halive hturn.finish hshown
            (hfinal ▸ shows_sanitized hm hr hp) hnext.symm hhanded' hnextPhase
            closes fun hquiet _ => hcloses hquiet (.inl hstate) m r hcurrent hr hfinal
          exact ⟨x, hx, hpairs, fun hfalse => absurd (htrue.symm.trans hfalse) (by decide)⟩
        · cases hkind
      -- one of several answers to the only call
      | @answeredMore t ts _ _ hm hts =>
        have hn : 0 + 1 = v.nPending.toNat := hcount'
        obtain ⟨r, hr, hhead⟩ := hts.head hm
        obtain ⟨fields, hp⟩ := exists_sanitized hr
        have hreceived : receivedReply v.state m = some r := by
          refine receivedReply_of_head hr ?_
          rcases hhead with ⟨hfinal, -⟩ | ⟨-, hcontinues, herror, -⟩
          · exact .inl hfinal
          · exact .inr ⟨.inl hstate, hcontinues, herror⟩
        rw [dispatchReply_callback (.inr hstate) hcurrent (ne_zero_of_pending hn) hreceived hp closes]
        have hshows := shows_sanitized hm hr hp
        -- the last answer ends the call, any other leaves the rest to come
        rcases hhead with ⟨hfinal, rfl⟩ | ⟨-, hcontinues, -, hrest⟩
        · rw [hfinal] at hshows ⊢
          have hpred := toNat_pred hn
          have hnextPhase : ClientPhase parse .idle (if v.nPending - 1 = 0 then .idleClient else .awaitingReply) none false
              [] [] := by
            rw [if_pos (eq_zero_of_pending hpred.symm)]
            exact .idle none false
          obtain ⟨x, hx, hpairs, htrue⟩ := Pairs.handing h.transports halive hturn.finish hshown hshows hpred.symm hhanded'
            hnextPhase closes fun hquiet _ => hcloses hquiet (.inr hstate) m r hcurrent hr hfinal
          exact ⟨x, hx, hpairs, fun hfalse => absurd (htrue.symm.trans hfalse) (by decide)⟩
        · rw [hcontinues] at hshows ⊢
          obtain ⟨x, hx, hpairs, htrue⟩ := Pairs.handing h.transports halive (hturn.give hrest.ne_nil) hshown hshows hn
            hhanded' (.awaitingMore false hrest) closes fun hquiet hfinal => by cases hfinal
          exact ⟨x, hx, hpairs, fun hfalse => absurd (htrue.symm.trans hfalse) (by decide)⟩
      -- the answer to a call in `sd_varlink_call`, which stays in `current`
      | @callAnswered t _ _ hm ht =>
        have hn : 0 + 1 = v.nPending.toNat := hcount'
        obtain ⟨r, hr, ⟨hfinal, -⟩ | ⟨hkind, -⟩⟩ := ht.head hm
        · obtain ⟨fields, hp⟩ := exists_sanitized hr
          rw [dispatchReply_pinned (.inl ⟨hstate, rfl⟩) hcurrent (ne_zero_of_pending hn)
            (receivedReply_of_head hr (.inl hfinal)) hp closes]
          refine ⟨_, rfl, ⟨?_, given, _, [t], hturn, hshown, fun _ => hn, fun _ => hhanded', ?_⟩, fun hfalse => ?_⟩
          · exact (h.transports.setState (s := .called) (.inl halive)).congr rfl rfl rfl
          · show ClientPhase parse .call .called v.current r.continues _ _
            rw [hcurrent, hfinal]
            exact .called hm hr hfinal
          · cases hfalse
        · cases hkind
      -- one of the answers in `sd_varlink_collect`
      | @collectAnswered us ts t _ ps _ hus hm hts =>
        have hn : 0 + 1 = v.nPending.toNat := hcount'
        obtain ⟨r, hr, hhead⟩ := hts.head hm
        obtain ⟨fields, hp⟩ := exists_sanitized hr
        have hrest : r.continues = false ∧ ts = [] ∨
            r.continues = true ∧ r.error = none ∧ Answer parse .more ts := by
          rcases hhead with hfinal | ⟨-, hcontinues⟩
          · exact .inl hfinal
          · exact .inr hcontinues
        have hreceived : receivedReply v.state m = some r := by
          refine receivedReply_of_head hr ?_
          rcases hhead with ⟨hfinal, -⟩ | ⟨-, hcontinues, herror, -⟩
          · exact .inl hfinal
          · exact .inr ⟨.inr hstate, hcontinues, herror⟩
        rw [dispatchReply_pinned (.inr ⟨hstate, rfl⟩) hcurrent (ne_zero_of_pending hn) hreceived hp closes]
        refine ⟨_, rfl, ⟨?_, given, _, us ++ [t], hturn, hshown, fun _ => hn, fun _ => hhanded', ?_⟩, fun hfalse => ?_⟩
        · exact (h.transports.setState (s := .collectingReply) (.inl halive)).congr rfl rfl rfl
        · show ClientPhase parse _ .collectingReply v.current r.continues _ _
          rw [hcurrent]
          exact .collected hus hm hr hrest
        · cases hfalse
      | idle | called | collected =>
        rw [hstate] at hawaits
        cases hawaits
      | gone hs =>
        rw [hstate, not_alive_of_gone hs] at halive
        cases halive
  · refine ⟨(v, false), ?_, h, fun _ => rfl⟩
    unfold Varlink.dispatchReply
    rw [if_pos (by simpa using hawaits)]

end Varlink

end Elogind
