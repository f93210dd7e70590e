/-
  Elogind.Varlink.Serving

  Every run of a connection to a server keeps to the grammar of its calls, whatever the methods do, and no
  assertion fails in it.
-/

import Elogind.Varlink.Answers

namespace Elogind

open Lib Errno Varlink List

/-- What happens to a connection to a server. -/
inductive ServingStep (R : Type) where
  | process (a : ProcessAnswers R)
  /-- Something is done with a call later. -/
  | action (a : ServerAction R)
  | connected
  | hangup

namespace Varlink

variable {R : Type} (format : Json R → Bytes) {parse : Bytes → Result (Json R)} {v w : Varlink (Json R)}

/-! ## Dispatching -/

/-- How a call that was dispatched goes on: the connection fails, or the callback's states are left. -/
def MethodEnds (parse : Bytes → Result (Json R)) : Except (Varlink (Json R) × Result Bool) (Varlink (Json R)) → Prop
  | .error x => x.1.Serves parse
  | .ok w => w.Serves parse ∧ inMethod w.state = true

theorem Serves.failMethod (h : v.Serves parse) (er : Errno) (closes : Bool) : (v.failMethod er closes).1.Serves parse := by
  have hfailure : (v.setState .processingFailure).Serves parse := h.dead rfl (prefix_refl _) rfl
  exact (hfailure.dispatchLocalError rfl closes).close

theorem Serves.answerError (h : v.Serves parse) (hin : inMethod v.state = true) (errorId : Bytes)
    (parameters : Option (Json R)) (memory : MemoryAnswer) (closes : Bool) :
    MethodEnds parse (v.answerError format errorId parameters memory closes) := by
  have herror := h.sdVarlinkError format errorId parameters memory
  unfold Varlink.answerError
  cases hresult : v.sdVarlinkError format errorId parameters memory with
  | mk w er =>
    rw [hresult] at herror
    simp only
    split_ifs with hwants
    · exact herror.serves.failMethod er closes
    · exact ⟨herror.serves, herror.inMethod hin⟩

variable {parameters : Option (Json R)} {methods : VarlinkMethods R} {method : Bytes}
  {kind : VarlinkMessage} {a : MethodAnswers R} {m : Json R} {x : Varlink (Json R) × Result Bool}

theorem Serves.callMethod (h : v.Serves parse) (hin : inMethod v.state = true) (methods : VarlinkMethods R)
    (method : Bytes) (parameters : Json R) (kind : VarlinkMessage) (a : MethodAnswers R) :
    MethodEnds parse (v.callMethod format methods method parameters kind a) := by
  unfold Varlink.callMethod
  cases methods.validate method parameters kind with
  | some e =>
    simp only
    split_ifs
    · exact h.answerError format hin _ _ _ _
    · exact ⟨h, hin⟩
    · exact h.answerError format hin _ _ _ _
    · exact ⟨h, hin⟩
  | none =>
    have hactions := h.serverActions format a.actions
    have hin' := hactions.inMethod hin
    cases a.returns with
    | none => exact ⟨hactions.serves, hin'⟩
    | some er =>
      simp only
      split_ifs
      · exact hactions.serves.answerError format hin' _ _ _ _
      · exact ⟨hactions.serves, hin'⟩

/-- The switch covers the states that the callback may leave. -/
theorem Serves.endMethod (h : v.Serves parse) (hin : inMethod v.state = true) : ∃ w, v.endMethod = some w ∧ w.Serves parse := by
  have hphase := h.phase
  have hserver := h.server
  have hend : ∀ s, Phase s v.current v.input.handed.length (served v) →
      (s.isAlive = true → v.server = true) → (s.isAlive = true → v.state.isAlive = true) →
        (v.setState s).Serves parse := fun s hp hs halive => ⟨hp, hs, h.events, fun hl => h.last (halive hl)⟩
  have hidle : ∀ hn : Answered v.input.handed.length (served v), ∀ hs : v.server = true,
      (v.clearCurrent.setState .idleServer).Serves parse :=
    fun hn hs => ⟨.idle hn, fun _ => hs, h.events, fun _ m hnone => absurd hnone.symm (Option.some_ne_none m)⟩
  unfold Varlink.endMethod
  generalize hstate : v.state = s at hphase hserver hin ⊢
  cases s with
  | processingMethod =>
    refine ⟨_, rfl, hend _ ?_ (fun _ => hserver rfl) fun _ => by rw [hstate]; rfl⟩
    generalize v.current = current, v.input.handed.length = n, served v = history at hphase
    cases hphase with
    | processing hm hn hes => exact .pending hm hn hes
    | dead hdead hh => cases hdead
  | processingMethodMore =>
    refine ⟨_, rfl, hend _ ?_ (fun _ => hserver rfl) fun _ => by rw [hstate]; rfl⟩
    generalize v.current = current, v.input.handed.length = n, served v = history at hphase
    cases hphase with
    | processingMore hm hn hes => exact .pendingMore hm hn hes
    | dead hdead hh => cases hdead
  | processingMethodOneway =>
    refine ⟨_, rfl, hidle ?_ (hserver rfl)⟩
    generalize v.current = current, v.input.handed.length = n, served v = history at hphase ⊢
    cases hphase with
    | oneway m hn => exact hn
    | dead hdead hh => cases hdead
  | processedMethod =>
    refine ⟨_, rfl, hidle ?_ (hserver rfl)⟩
    generalize v.current = current, v.input.handed.length = n, served v = history at hphase ⊢
    cases hphase with
    | processed m hn => exact hn
    | dead hdead hh => cases hdead
  | disconnected => exact ⟨_, rfl, h⟩
  | _ => cases hin

theorem methodCallOf_kind (hm : methodCallOf m = some (method, parameters, kind)) :
    kind = .more ∨ kind = .oneway ∨ kind = .call := by
  unfold methodCallOf at hm
  split at hm
  · split at hm
    · cases hm
      split_ifs
      · exact .inl rfl
      · exact .inr (.inl rfl)
      · exact .inr (.inr rfl)
    · cases hm
  · cases hm

theorem kind_of_answering {J : Type} {n : Nat} {es : List (VarlinkEvent J)} (h : Answering n kind es) :
    kind = .call ∨ kind = .more := by
  induction h with
  | dispatched hkind => exact hkind
  | again h ih | notified h m ih => exact ih

theorem served_beginMethod (v : Varlink (Json R)) (kind : VarlinkMessage) :
    served (v.beginMethod kind) = served v ++ [.dispatched v.input.handed.length kind] := by
  unfold served beginMethod
  rw [filter_append]
  rfl

/-- A call that is dispatched is the last one that was received, and the calls before it were answered. -/
theorem Serves.beginMethod (h : v.Serves parse) (hstate : v.state = .idleServer)
    (hcurrent : v.current = some m) (hm : methodCallOf m = some (method, parameters, kind)) :
    (v.beginMethod kind).Serves parse := by
  have hphase := h.phase
  have hserver := h.server
  have hlast := h.last
  rw [hstate] at hserver hlast
  refine ⟨?_, fun _ => hserver rfl, ?_, fun _ => hlast rfl⟩
  case refine_2 =>
    intro e he
    rcases mem_append.mp he with he | he
    · exact h.events e he
    · rw [mem_singleton.mp he]
      obtain ⟨text, hget, hparse⟩ := hlast rfl m hcurrent
      exact ⟨text, m, method, parameters, hget, hparse, hm⟩
  rw [served_beginMethod]
  show Phase (processingState kind) v.current v.input.handed.length _
  rw [hcurrent]
  rw [hstate, hcurrent] at hphase
  generalize v.input.handed.length = n, served v = history at hphase
  cases hphase with
  | received m hn =>
    rcases methodCallOf_kind hm with rfl | rfl | rfl
    · exact .processingMore (c := (method, parameters)) hm hn (.dispatched (.inr rfl))
    · exact .oneway m hn.oneway
    · exact .processing (c := (method, parameters)) hm hn (.dispatched (.inl rfl))
  | @again n history es m c kind' hm' hn hes =>
    have heq := Option.some.inj (hm.symm.trans hm')
    have hkind : kind' = kind := (congrArg (fun c => c.2.2) heq).symm
    subst hkind
    rw [append_assoc]
    rcases kind_of_answering hes with rfl | rfl
    · exact .processing (c := c) hm' hn hes.again
    · exact .processingMore (c := c) hm' hn hes.again
  | dead hdead hh => cases hdead

theorem inMethod_processingState (kind : VarlinkMessage) : inMethod (processingState kind) = true := by
  cases kind
  all_goals rfl

theorem Serves.runMethod (h : v.Serves parse) (hin : inMethod v.state = true) (methods : VarlinkMethods R)
    (method : Bytes) (parameters : Json R) (kind : VarlinkMessage) (a : MethodAnswers R) :
    MethodEnds parse (v.runMethod format methods method parameters kind a) := by
  unfold Varlink.runMethod
  split_ifs
  · exact h.callMethod format hin methods method parameters kind a
  · exact h.answerError format hin _ _ _ _
  · exact ⟨h, hin⟩

/-- No assertion fails while a method is called. -/
theorem Serves.dispatchCall (h : v.Serves parse) (hin : inMethod v.state = true) (hserver : v.server = true)
    (methods : VarlinkMethods R) (method : Bytes) (parameters : Json R) (kind : VarlinkMessage)
    (a : MethodAnswers R) : ∃ x, v.dispatchCall format methods method parameters kind a = some x ∧ x.1.Serves parse := by
  have hends := h.runMethod format hin methods method parameters kind a
  unfold Varlink.dispatchCall
  rw [hserver]
  cases hrun : v.runMethod format methods method parameters kind a with
  | error x =>
    rw [hrun] at hends
    exact ⟨x, rfl, hends⟩
  | ok u =>
    rw [hrun] at hends
    obtain ⟨w, hw, hserves⟩ := hends.1.endMethod hends.2
    refine ⟨(w, .ok true), ?_, hserves⟩
    show u.endMethod.map _ = _
    rw [hw]
    rfl

/-- No assertion fails while a call is dispatched. -/
theorem Serves.dispatchMethod (h : v.Serves parse) (methods : VarlinkMethods R) (a : MethodAnswers R) :
    ∃ x, v.dispatchMethod format methods a = some x ∧ x.1.Serves parse := by
  unfold Varlink.dispatchMethod
  by_cases hstate : v.state = .idleServer
  · rw [if_neg (not_not.mpr hstate)]
    cases hcurrent : v.current with
    | none => exact ⟨_, rfl, h⟩
    | some m =>
      simp only
      cases hm : methodCallOf m with
      | none => exact ⟨_, rfl, h.failMethod EINVAL a.closes⟩
      | some c =>
        obtain ⟨method, parameters, kind⟩ := c
        simp only
        cases a.sanitize.elim (varlinkSanitizeParameters parameters) .error with
        | error er => exact ⟨_, rfl, h.failMethod er a.closes⟩
        | ok p =>
          have hserver : v.server = true := h.server (by rw [hstate]; rfl)
          exact (h.beginMethod hstate hcurrent hm).dispatchCall format (inMethod_processingState kind) hserver methods
            method p kind a
  · rw [if_pos hstate]
    exact ⟨_, rfl, h⟩

/-! ## Processing -/

theorem Serves.not_awaitsReply (h : v.Serves parse) : v.state.awaitsReply = false := by
  have hphase := h.phase
  generalize v.state = s, v.current = current, v.input.handed.length = n, served v = history at hphase
  cases hphase with
  | dead hs hh =>
    cases s
    all_goals first
      | rfl
      | cases hs
  | _ => rfl

theorem Serves.write (h : v.Serves parse) (memory : Nat → MemoryAnswer) (answer : OutputAnswer) :
    (v.write format memory answer).1.Serves parse := by
  unfold Varlink.write
  split_ifs
  · exact h
  · exact h
  · exact h
  · split
    · exact h.congr rfl rfl rfl rfl rfl
    · exact h.congr rfl rfl rfl rfl rfl
    · exact h.congr rfl rfl rfl rfl rfl

theorem Serves.read (h : v.Serves parse) (memory : MemoryAnswer) (answer : InputAnswer) :
    (v.read memory answer).1.Serves parse := by
  have hhanded := VarlinkInput.handed_read v.input v.allowFdPassingInput memory answer
  unfold Varlink.read
  split_ifs
  · exact h
  · exact h
  · exact h
  · exact h
  · exact h
  · cases hresult : v.input.read v.allowFdPassingInput memory answer with
    | mk i r =>
      rw [hresult] at hhanded
      have hlength : i.handed = v.input.handed := hhanded
      cases r with
      | error er => exact h.congr rfl rfl hlength rfl rfl
      | ok r =>
        cases r with
        | none | some b => exact h.congr rfl rfl hlength rfl rfl

/-- A connection without a message at hand gets the next one, and no more. -/
theorem Serves.parsing (h : v.Serves parse) : (Varlink.finish (v.parseMessage parse)).Serves parse := by
  unfold parseMessage
  split_ifs with hcurrent hunscanned
  · exact h
  · exact h
  · have hnone : v.current = none := by simpa using hcurrent
    cases hresult : v.input.parseMessage parse with
    | mk i r =>
      have hgrows := VarlinkInput.handed_parseMessage parse v.input
      rw [hresult] at hgrows
      cases r with
      | error er =>
        unfold Varlink.finish
        by_cases halive : v.state.isAlive = true
        · rw [if_pos halive]
          exact h.dead rfl hgrows rfl
        · rw [if_neg halive]
          have hdead : ({ v with input := i } : Varlink (Json R)).Serves parse := h.dead (by simpa using halive) hgrows rfl
          exact hdead.close
      | ok r =>
        cases r with
        | none => exact h.congr rfl rfl (VarlinkInput.handed_of_parseMessage_none hresult) rfl rfl
        | some m =>
          obtain ⟨text, hparse, hhanded⟩ := VarlinkInput.handed_of_parseMessage_some hresult
          refine ⟨?_, h.server, fun e he => (h.events e he).mono hgrows, fun _ u hu => ?_⟩
          case refine_2 =>
            cases hu
            refine ⟨text, ?_, hparse⟩
            show i.handed[i.handed.length - 1]? = some text
            rw [hhanded, length_append, length_singleton, Nat.add_sub_cancel]
            exact getElem?_concat_length
          have hphase := h.phase
          have hlength : i.handed.length = v.input.handed.length + 1 := by
            rw [hhanded]
            exact length_append
          show Phase v.state (some m) i.handed.length (served v)
          rw [hlength]
          rw [hnone] at hphase
          generalize v.state = s, v.input.handed.length = n, served v = history at hphase ⊢
          cases hphase with
          | idle hn => exact .received m hn
          | dead hs hh => exact .dead hs hh

theorem Serves.testDisconnect (h : v.Serves parse) : v.testDisconnect.1.Serves parse := by
  unfold Varlink.testDisconnect
  simp only
  split_ifs
  · exact h.dead rfl (prefix_refl _) rfl
  · exact h

theorem Serves.testTimeout (h : v.Serves parse) (elapsed : Bool) : (v.testTimeout elapsed).1.Serves parse := by
  unfold Varlink.testTimeout
  split_ifs
  · exact h.dead rfl (prefix_refl _) rfl
  · exact h

theorem Serves.dispatchDisconnect (h : v.Serves parse) (closes : Bool) : (v.dispatchDisconnect closes).1.Serves parse := by
  unfold Varlink.dispatchDisconnect
  split_ifs
  · exact h
  · have hdead : (v.setState .processingDisconnect).Serves parse := h.dead rfl (prefix_refl _) rfl
    exact (hdead.dispatchLocalError rfl closes).close

theorem Serves.dispatchTimeout (h : v.Serves parse) (closes : Bool) : (v.dispatchTimeout closes).1.Serves parse := by
  unfold Varlink.dispatchTimeout
  split_ifs
  · exact h
  · have hdead : (v.setState .processingTimeout).Serves parse := h.dead rfl (prefix_refl _) rfl
    exact (hdead.dispatchLocalError rfl closes).close

/-- Each of the steps of processing keeps to the grammar, and no assertion fails in it. -/
theorem Serves.processSteps (methods : VarlinkMethods R) (a : ProcessAnswers R) :
    ∀ f ∈ processSteps format parse methods a, ∀ v : Varlink (Json R), v.Serves parse →
      ∃ x, f v = some x ∧ (Varlink.finish x).Serves parse := by
  intro f hf v h
  unfold Varlink.processSteps at hf
  simp only [mem_cons, not_mem_nil, or_false] at hf
  rcases hf with rfl | rfl | rfl | rfl | rfl | rfl | rfl | rfl | rfl
  · exact ⟨_, rfl, Serves.finish (h.write format a.queueMemory a.write)⟩
  · refine ⟨(v, .ok false), ?_, h⟩
    show (v.dispatchReply a.closes).map _ = _
    unfold dispatchReply
    rw [h.not_awaitsReply]
    rfl
  · obtain ⟨x, hx, hserves⟩ := h.dispatchMethod format methods a.method
    exact ⟨x, hx, hserves.finish⟩
  · exact ⟨_, rfl, h.parsing⟩
  · exact ⟨_, rfl, Serves.finish (h.read a.readMemory a.read)⟩
  · exact ⟨_, rfl, h.testDisconnect⟩
  · exact ⟨_, rfl, h.dispatchDisconnect a.closes⟩
  · exact ⟨_, rfl, h.testTimeout a.elapsed⟩
  · exact ⟨_, rfl, h.dispatchTimeout a.closes⟩

/-- No assertion fails while a connection to a server is processed. -/
theorem Serves.sdVarlinkProcess (h : v.Serves parse) (methods : VarlinkMethods R) (a : ProcessAnswers R) :
    ∃ x, v.sdVarlinkProcess format parse methods a = some x ∧ x.1.Serves parse :=
  sdVarlinkProcess_keeps (Serves.processSteps format methods a) (fun _ _ hv => Serves.finish hv) h

/-! ## Runs -/

variable (parse) in
/-- A step of a connection to a server: none where an assertion fails. -/
def servingStep (methods : VarlinkMethods R)
    (v : Varlink (Json R)) : ServingStep R → Option (Varlink (Json R))
  | .process a => (v.sdVarlinkProcess format parse methods a).map Prod.fst
  | .action a => some (v.serverAction format a)
  | .connected => some { v with connecting := false }
  | .hangup => some { v with gotPollhup := true }

/-- A connection that was just added to a server. -/
structure IsServed (v : Varlink (Json R)) : Prop where
  new : v.IsNew
  state : v.state = .idleServer
  server : v.server = true
  current : v.current = none

theorem Serves.of_isServed (h : v.IsServed) : v.Serves parse := by
  refine ⟨?_, fun _ => h.server, ?_, ?_⟩
  · unfold served
    rw [h.state, h.current, h.new.handed, h.new.history]
    exact .idle .start
  · rw [h.new.history]
    exact fun e he => absurd he not_mem_nil
  · rw [h.current]
    exact fun _ m hnone => absurd hnone.symm (Option.some_ne_none m)

/-- A step keeps to the grammar, and no assertion fails in it. -/
theorem Serves.servingStep (h : v.Serves parse) (methods : VarlinkMethods R) (a : ServingStep R) :
    ∃ w, v.servingStep format parse methods a = some w ∧ w.Serves parse := by
  cases a with
  | process a =>
    obtain ⟨x, hx, hserves⟩ := h.sdVarlinkProcess format methods a
    refine ⟨x.1, ?_, hserves⟩
    unfold Varlink.servingStep
    simp only
    rw [hx]
    rfl
  | action a => exact ⟨_, rfl, (h.serverAction format a).serves⟩
  | connected | hangup => exact ⟨_, rfl, h.congr rfl rfl rfl rfl rfl⟩

theorem Serves.of_run {steps : List (ServingStep R)} (hnew : v.IsServed)
    (hrun : Run (fun v a w => v.servingStep format parse methods a = some w) v steps w) :
    w.Serves parse := by
  refine hrun.invariant (Serves.of_isServed hnew) fun {u u'} a hserves hstep => ?_
  obtain ⟨x, hx, hnext⟩ := hserves.servingStep format methods a
  rw [hstep] at hx
  cases hx
  exact hnext

end Varlink

end Elogind
