/-
  Elogind.Varlink.ClientRuns

  What a client that is careful is promised by its connection, and what happens to one that calls a method while
  the reply to an earlier call is still pinned.
-/

import Elogind.Varlink.Matching

namespace Elogind

open Lib Errno Varlink

variable {R : Type} {format : Json R → Bytes} {parse : Bytes → Result (Json R)}
  {answer : Nat → VarlinkMessage → List Bytes}

/-! ## Careful runs -/

namespace VarlinkClient

variable {methods : VarlinkMethods R} {s s' : VarlinkClient R}

/-- A call that cannot begin leaves the state of the connection as it was. -/
theorem state_of_begun (frame : VarlinkFrame R) (hframe : frame ≠ .idle) {kind : VarlinkMessage} {method : Bytes}
    {parameters : Option (Json R)} {flag : List (Bytes × Json R)} {memory : MemoryAnswer} {state : VarlinkState}
    (hbegun : s.begun frame (s.link.beginCall format kind method parameters flag memory state) = some s')
    (hframe' : s'.frame = .idle) : s'.link.state = s.link.state := by
  unfold beginCall at hbegun
  split_ifs at hbegun
  · cases hbegun
    rfl
  · cases hbegun
    rfl
  · cases hbegun
  · rcases enqueueCall_cases s.link.clearCurrent [.idleClient] kind method parameters flag
        memory with ⟨o, er, heq⟩ | ⟨-, o, m, heq⟩
    · rw [heq] at hbegun
      cases hbegun
      rfl
    · rw [heq] at hbegun
      cases hbegun
      exact absurd hframe' hframe

/-- The run lemma: calls stay paired with the answers of an honest server. -/
theorem Paired.of_run {steps : List (ClientStep R)} (hanswer : Varlink.AnswersCalls parse answer) (hnew : s.IsNew)
    (hrun : Run (fun s a s' => s.Careful a ∧ s.honestStep format parse methods answer a s') s steps s') : s'.Paired format parse answer ∧ s'.link.Honest answer := by
  refine hrun.invariant (I := fun s => s.Paired format parse answer ∧ s.link.Honest answer) (Paired.of_isNew hnew) ?_
  rintro t t' a ⟨hpaired, hhonest⟩ ⟨hcareful, hstep, hhonest'⟩
  obtain ⟨u, hu, hkeeps⟩ := hpaired.clientStep hanswer hhonest a
  rw [hstep] at hu
  cases hu
  exact ⟨hkeeps hcareful, hhonest'⟩

/-- In every run of a client that makes no asynchronous call while a reply is pinned, whatever the mix of its calls
    and whenever bytes are written and read: each call is answered by exactly what the server sent for it, the
    calls whose last reply was not handed out are pending, a connected client is idle if nothing is pending, no
    assertion fails, and a call that returns leaves a connection that can be used again, as does one that cannot
    begin. -/
theorem replies_match_calls {steps : List (ClientStep R)} (hanswer : Varlink.AnswersCalls parse answer)
    (hnew : s.IsNew)
    (hrun : Run (fun s a s' => s.Careful a ∧ s.honestStep format parse methods answer a s') s steps s') :
    s'.link.Matches parse answer ∧
    (s'.link.state.isAlive = true → (s'.link.state = .idleClient ↔ s'.link.nPending = 0)) ∧
    (∀ a, (s'.clientStep format parse methods a).isSome = true) ∧
    (∀ a t, s'.Careful a → s'.clientStep format parse methods a = some t → s'.frame ≠ .idle → t.frame = .idle →
      t.link.state.isAlive = true → t.link.state = .idleClient) ∧
    ∀ method parameters memory t, s'.frame = .idle →
      (s'.clientStep format parse methods (.call method parameters memory) = some t ∨
        s'.clientStep format parse methods (.collect method parameters memory) = some t) →
      t.frame = .idle → t.link.state = s'.link.state := by
  obtain ⟨hpaired, hhonest⟩ := Paired.of_run hanswer hnew hrun
  refine ⟨Pairs.matches hpaired, hpaired.idle_iff, fun a => ?_, ?_, ?_⟩
  · obtain ⟨t, ht, -⟩ := hpaired.clientStep hanswer hhonest a
    rw [ht]
    rfl
  · intro a t hcareful hstep hframe hframe' halive
    exact hpaired.idle_of_return hanswer hhonest hcareful hstep hframe hframe' halive
  · intro method parameters memory t hframe hstep hframe'
    obtain ⟨v, frame⟩ := s'
    cases hframe
    rcases hstep with hstep | hstep
    · exact state_of_begun .call (by simp) hstep hframe'
    · exact state_of_begun (.collect []) (by simp) hstep hframe'

/-- The first bytes that can be read are read where there is nothing else to be done. -/
theorem clientStep_reading (hwaiting : s.frame = .idle ∨ s.waiting = true) (hreads : s.link.state.reads = true)
    (hconnecting : s.link.connecting = false) (hqueue : s.link.output.queue = [])
    (hsize : s.link.output.buffer.size = 0) (hcurrent : s.link.current = none)
    (hbuffer : s.link.input.buffer = .empty) (hunscanned : s.link.input.unscanned = 0)
    (hread : s.link.readDisconnected = false) {b : Bytes} (hne : b ≠ []) (hlength : b.length ≤ varlinkReadSize) :
    ∃ rest, s.clientStep format parse methods (.process (.reading b)) =
      some { s with
        link :=
          { s.link with
            input :=
              { s.link.input with
                buffer := ⟨b ++ rest, 0, b.length⟩
                unscanned := s.link.input.unscanned + b.length
                received := s.link.input.received ++ b } } } := by
  obtain ⟨rest, hprocess⟩ := @sdVarlinkProcess_reading R format parse s.link methods
    hreads hconnecting hqueue hsize hcurrent hbuffer hunscanned hread b hne hlength
  refine ⟨rest, ?_⟩
  unfold VarlinkClient.clientStep
  obtain ⟨v, frame⟩ := s
  cases frame with
  | idle =>
    simp only
    rw [hprocess]
    rfl
  | call | collect collected =>
    have hwaits := hwaiting.resolve_left (by simp)
    simp only
    rw [if_pos hwaits, hprocess]
    rfl

/-- A plain call is answered. -/
theorem plain_call_answered :
    ∃ s : VarlinkClient Unit,
      Run (fun s a s' => s.Careful a ∧ s.honestStep (fun _ => ascii "\x7b\x7d") (fun _ => .ok (.object []))
            ⟨fun _ => false, fun _ _ _ => none⟩ (fun _ _ => [ascii "\x7b\x7d"]) a s')
          ⟨Varlink.create .idleClient false false, .idle⟩
          [.invoke (ascii "a.B") none (.some 0 fun _ => 0), .process (ProcessAnswers.writing 3),
            .process (ProcessAnswers.reading (ascii "\x7b\x7d" ++ [0])), .process .quiet, .process .quiet] s ∧
        s.link.handedOut = [⟨some (.object []), none, false⟩] ∧
        s.link.Matches (fun _ => .ok (.object [])) (fun _ _ => [ascii "\x7b\x7d"]) := by
  have hanswer : AnswersCalls (fun _ => .ok (.object []) : Bytes → Result (Json Unit))
      fun _ _ => [ascii "\x7b\x7d"] := fun n kind hkind => .final (by decide) rfl rfl rfl
  let invoked := ((create .idleClient false false : Varlink (Json Unit)).sdVarlinkInvoke
    (fun _ => ascii "\x7b\x7d") (ascii "a.B") none (.some 0 fun _ => 0)).1
  let written := (invoked.write (fun _ => ascii "\x7b\x7d") (fun _ => .some 0 fun _ => 0) (.accepted 3)).1
  obtain ⟨rest, hread⟩ := @clientStep_reading Unit (fun _ => ascii "\x7b\x7d") (fun _ => .ok (.object []))
    ⟨fun _ => false, fun _ _ _ => none⟩ ⟨written, .idle⟩ (.inl rfl) rfl rfl rfl rfl rfl rfl rfl rfl
    (ascii "\x7b\x7d" ++ [0]) (by decide) (by decide)
  let step : VarlinkClient Unit → ClientStep Unit → VarlinkClient Unit → Prop := fun s a s' =>
    s.Careful a ∧ s.honestStep (fun _ => ascii "\x7b\x7d") (fun _ => .ok (.object []))
      ⟨fun _ => false, fun _ _ _ => none⟩ (fun _ _ => [ascii "\x7b\x7d"]) a s'
  have hquiet : ∀ v : Varlink (Json Unit), v.KeepsOpen false := fun v _ m r _ _ _ => Bool.and_false _
  have hcall : Run step ⟨create .idleClient false false, .idle⟩
      [.invoke (ascii "a.B") none (.some 0 fun _ => 0), .process (ProcessAnswers.writing 3)] ⟨written, .idle⟩ :=
    .cons ⟨⟨fun _ => rfl, by decide⟩, rfl, List.nil_prefix⟩ (.single ⟨hquiet _, rfl, List.nil_prefix⟩)
  have hreply : Run step ⟨written, .idle⟩
      [.process (ProcessAnswers.reading (ascii "\x7b\x7d" ++ [0])), .process .quiet, .process .quiet] _ :=
    .cons ⟨hquiet _, hread, [], rfl⟩ (.cons ⟨hquiet _, rfl, [], rfl⟩ (.single ⟨hquiet _, rfl, [], rfl⟩))
  have hrun := hcall.append hreply
  exact ⟨_, hrun, rfl, (replies_match_calls hanswer ⟨isNew_create rfl false false, rfl, rfl, rfl⟩ hrun).1⟩

/-! ## A pinned reply -/

/-- The text of an error. -/
def refusal : Bytes := ascii "\x7b\"error\":\"a.E\"\x7d"

/-- What is read of the error, and of other texts. -/
def parseRefusal (t : Bytes) : Result (Json Unit) :=
  .ok (.object (if t = refusal then [(ascii "error", .ofString (ascii "a.E"))] else []))

/-- The first call is answered by the error, and others are not. -/
def refuseFirst (n : Nat) (_ : VarlinkMessage) : List Bytes := if n = 0 then [refusal] else [ascii "\x7b\x7d"]

theorem answersCalls_refuseFirst : Varlink.AnswersCalls parseRefusal refuseFirst := by
  intro n kind hkind
  unfold refuseFirst
  by_cases hn : n = 0
  · rw [if_pos hn]
    exact .final (by decide) rfl rfl rfl
  · rw [if_neg hn]
    exact .final (by decide) rfl rfl rfl

/-- A step of a client of this server. -/
def refusedStep (s : VarlinkClient Unit) (a : ClientStep Unit) (s' : VarlinkClient Unit) : Prop :=
  s.honestStep (fun _ => ascii "\x7b\x7d") parseRefusal ⟨fun _ => false, fun _ _ _ => none⟩ refuseFirst a s'

/-- A connection after these events. -/
def refusedLink (state : VarlinkState) (nPending : UInt32) (input : VarlinkInput) (output : VarlinkOutput (Json Unit))
    (current : Option (Json Unit)) (history : List (VarlinkEvent (Json Unit))) : Varlink (Json Unit) :=
  ⟨state, false, false, nPending, input, output, true, current, false, false, false, false, false, false, history⟩

/-- What is sent to call a method. -/
def refusedCall (method : Bytes) : Json Unit := Varlink.callMessage method (.object []) []

/-- What is sent of one more call. -/
def refusedOutput (o : VarlinkOutput (Json Unit)) (method : Bytes) : VarlinkOutput (Json Unit) :=
  ((o.enqueueJson (fun _ => ascii "\x7b\x7d") .call (refusedCall method) (.some 0 fun _ => 0)).1.write
    (fun _ => ascii "\x7b\x7d") (fun _ => .some 0 fun _ => 0) (.accepted 3)).1

/-- The error. -/
def refusalMessage : Json Unit := .object [(ascii "error", .ofString (ascii "a.E"))]

/-- The first call is sent. -/
theorem refused_call :
    Run refusedStep ⟨Varlink.create .idleClient false false, .idle⟩
      [.call (ascii "a.B") none (.some 0 fun _ => 0), .process (ProcessAnswers.writing 3)]
      ⟨refusedLink .calling 1 ⟨.empty, 0, [], [], []⟩ (refusedOutput ⟨.empty, [], [], [], []⟩ (ascii "a.B")) none
        [.enqueued .call (refusedCall (ascii "a.B"))], .call⟩ :=
  .cons ⟨rfl, List.nil_prefix⟩ (.single ⟨rfl, List.nil_prefix⟩)

/-- The error arrives. -/
theorem refused_receives (output : VarlinkOutput (Json Unit)) (hqueue : output.queue = [])
    (hsize : output.buffer.size = 0) :
    ∃ input : VarlinkInput,
      Run refusedStep ⟨refusedLink .calling 1 ⟨.empty, 0, [], [], []⟩ output none
          [.enqueued .call (refusedCall (ascii "a.B"))], .call⟩
        [.process (ProcessAnswers.reading (refusal ++ [0])), .process .quiet]
        ⟨refusedLink .calling 1 input output (some refusalMessage)
          [.enqueued .call (refusedCall (ascii "a.B"))], .call⟩ ∧
      input.received = refusal ++ [0] := by
  obtain ⟨⟨memory, index, size⟩, fds, queue, pushedFds, history⟩ := output
  cases hqueue
  cases hsize
  obtain ⟨rest, hread⟩ := @clientStep_reading Unit (fun _ => ascii "\x7b\x7d") parseRefusal
    ⟨fun _ => false, fun _ _ _ => none⟩
    ⟨refusedLink .calling 1 ⟨.empty, 0, [], [], []⟩ ⟨⟨memory, index, 0⟩, fds, [], pushedFds, history⟩ none
      [.enqueued .call (refusedCall (ascii "a.B"))], .call⟩
    (.inr rfl) rfl rfl rfl rfl rfl rfl rfl rfl (refusal ++ [0]) (by decide) (by decide)
  refine ⟨_, .cons ⟨hread, [], rfl⟩ (.single ⟨rfl, [], rfl⟩), rfl⟩

/-- The first call returns, and the error stays pinned. -/
theorem refused_returns (output : VarlinkOutput (Json Unit)) (hqueue : output.queue = [])
    (hsize : output.buffer.size = 0) {input : VarlinkInput} (hinput : input.received = refusal ++ [0]) :
    Run refusedStep
      ⟨refusedLink .calling 1 input output (some refusalMessage) [.enqueued .call (refusedCall (ascii "a.B"))], .call⟩
      [.process .quiet, .proceed none]
      ⟨refusedLink .idleClient 0 input output (some refusalMessage)
        [.enqueued .call (refusedCall (ascii "a.B")), .handedOut ⟨none, some (ascii "a.E"), false⟩], .idle⟩ := by
  obtain ⟨⟨memory, index, size⟩, fds, queue, pushedFds, history⟩ := output
  cases hqueue
  cases hsize
  have hhonest : input.received <+: zeroEnded [refusal] := by
    rw [hinput]
    exact ⟨[], rfl⟩
  have hpending : (0 : UInt32) = 1 - 1 := rfl
  rw [hpending]
  exact .cons ⟨rfl, hhonest⟩ (.single ⟨rfl, hhonest⟩)

/-- The second call is sent. -/
theorem refused_invokes {input : VarlinkInput} (hinput : input.received = refusal ++ [0]) :
    Run refusedStep
      ⟨refusedLink .idleClient 0 input (refusedOutput ⟨.empty, [], [], [], []⟩ (ascii "a.B")) (some refusalMessage)
        [.enqueued .call (refusedCall (ascii "a.B")), .handedOut ⟨none, some (ascii "a.E"), false⟩], .idle⟩
      [.invoke (ascii "a.C") none (.some 0 fun _ => 0), .process (ProcessAnswers.writing 3)]
      ⟨refusedLink .awaitingReply 1 input
        (refusedOutput (refusedOutput ⟨.empty, [], [], [], []⟩ (ascii "a.B")) (ascii "a.C")) (some refusalMessage)
        [.enqueued .call (refusedCall (ascii "a.B")), .handedOut ⟨none, some (ascii "a.E"), false⟩,
          .enqueued .call (refusedCall (ascii "a.C"))], .idle⟩ := by
  have hhonest : input.received <+: zeroEnded [refusal, ascii "\x7b\x7d"] := by
    rw [hinput]
    exact ⟨ascii "\x7b\x7d" ++ [0], rfl⟩
  exact .cons ⟨rfl, hhonest⟩ (.single ⟨rfl, hhonest⟩)

/-- The error is handed out again. -/
theorem refused_again (output : VarlinkOutput (Json Unit)) (hqueue : output.queue = [])
    (hsize : output.buffer.size = 0) {input : VarlinkInput} (hinput : input.received = refusal ++ [0]) :
    ∃ s, Run refusedStep
      ⟨refusedLink .awaitingReply 1 input output (some refusalMessage)
        [.enqueued .call (refusedCall (ascii "a.B")), .handedOut ⟨none, some (ascii "a.E"), false⟩,
          .enqueued .call (refusedCall (ascii "a.C"))], .idle⟩ [.process .quiet] s ∧
      s.link.history = [.enqueued .call (refusedCall (ascii "a.B")), .handedOut ⟨none, some (ascii "a.E"), false⟩,
        .enqueued .call (refusedCall (ascii "a.C")),
        .handedOut ⟨some (.object []), some (ascii "a.E"), false⟩] := by
  obtain ⟨⟨memory, index, size⟩, fds, queue, pushedFds, history⟩ := output
  cases hqueue
  cases hsize
  have hhonest : input.received <+: zeroEnded [refusal, ascii "\x7b\x7d"] := by
    rw [hinput]
    exact ⟨ascii "\x7b\x7d" ++ [0], rfl⟩
  exact ⟨_, .single ⟨rfl, hhonest⟩, rfl⟩

/-- A call is made while the reply to the one before, which waited for it, is still pinned: that reply is handed out
    for it, too, before the server has answered. -/
theorem pinned_reply_answers_next_call :
    Varlink.AnswersCalls parseRefusal refuseFirst ∧
    ∃ s : VarlinkClient Unit,
      Run refusedStep ⟨Varlink.create .idleClient false false, .idle⟩
          [.call (ascii "a.B") none (.some 0 fun _ => 0), .process (ProcessAnswers.writing 3),
            .process (ProcessAnswers.reading (refusal ++ [0])), .process .quiet, .process .quiet, .proceed none,
            .invoke (ascii "a.C") none (.some 0 fun _ => 0), .process (ProcessAnswers.writing 3),
            .process .quiet] s ∧
        ¬s.link.Matches parseRefusal refuseFirst := by
  refine ⟨answersCalls_refuseFirst, ?_⟩
  obtain ⟨input, hreceive, hreceived⟩ := refused_receives
    (refusedOutput ⟨.empty, [], [], [], []⟩ (ascii "a.B")) rfl rfl
  have hreturn := refused_returns (refusedOutput ⟨.empty, [], [], [], []⟩ (ascii "a.B")) rfl rfl hreceived
  have hinvoke := refused_invokes hreceived
  obtain ⟨s, hagain, hhistory⟩ := refused_again
    (refusedOutput (refusedOutput ⟨.empty, [], [], [], []⟩ (ascii "a.B")) (ascii "a.C")) rfl rfl hreceived
  refine ⟨s, (((refused_call.append hreceive).append hreturn).append hinvoke).append hagain, ?_⟩
  rintro ⟨given, rest, hturn, hshown, -⟩
  have hanswers : s.link.answers refuseFirst = [[refusal], [ascii "\x7b\x7d"]] := by
    unfold answers calls
    rw [hhistory]
    rfl
  have hreplies : s.link.handedOut =
      [⟨none, some (ascii "a.E"), false⟩, ⟨some (.object []), some (ascii "a.E"), false⟩] := by
    unfold handedOut
    rw [hhistory]
    rfl
  rw [hreplies] at hshown
  rw [hanswers] at hturn
  have hall := hturn.flatten
  -- what was handed out for the second call is not what the server sends for it
  cases hshown with
  | @cons t u ts us hfirst hothers =>
    cases hothers with
    | @cons t' u' ts' us' hsecond hnone =>
      cases hnone
      have hsent : t' = ascii "\x7b\x7d" := by
        have hcons : [refusal, ascii "\x7b\x7d"] = t :: t' :: rest.flatten := hall
        exact (List.cons.inj (List.cons.inj hcons).2).1.symm
      obtain ⟨m, r, hm, hr, hsame⟩ := hsecond
      rw [hsent] at hm
      cases hm
      cases hr
      exact absurd (congrArg VarlinkReply.error hsame) (by simp [VarlinkReply.sanitized])

end VarlinkClient

end Elogind
