/-
  Elogind.Varlink.Process

  Processing a connection (sd-varlink.c): one after the other, what can be done is tried until something is done.
  Whatever keeps what holds of a connection for each of these keeps it for all of them.
-/

import Elogind.Varlink.Methods

namespace Elogind

open Lib Errno Varlink

/-- What happens while a connection is processed. -/
structure ProcessAnswers (R : Type) where
  queueMemory : Nat → MemoryAnswer
  write : OutputAnswer
  readMemory : MemoryAnswer
  read : InputAnswer
  /-- Whether the timeout has been reached. -/
  elapsed : Bool
  /-- Whether the callback for replies closes the connection. -/
  closes : Bool
  method : MethodAnswers R
  /-- How the deferred event source could not be enabled or disabled. -/
  deferred : Option Errno

/-- Nothing happens. -/
def ProcessAnswers.quiet {R : Type} : ProcessAnswers R :=
  ⟨fun _ => .none, .again, .none, .again, false, false, ⟨none, [], none, .some 0 fun _ => 0, false⟩, none⟩

/-- So many bytes can be written. -/
def ProcessAnswers.writing {R : Type} (n : Nat) : ProcessAnswers R :=
  { quiet with queueMemory := fun _ => .some 0 fun _ => 0, write := .accepted n }

/-- These bytes can be read. -/
def ProcessAnswers.reading {R : Type} (b : Bytes) : ProcessAnswers R :=
  { quiet with readMemory := .some 0 fun _ => 0, read := .received b [] }

namespace Varlink

/-! ## Steps of processing -/

section

variable {J : Type}

/-- Do the first of these that does anything. -/
def firstDone : List (Varlink J → Option (Varlink J × Result Bool)) → Varlink J → Option (Varlink J × Result Bool)
  | [], v => some (v, .ok false)
  | f :: fs, v =>
    match f v with
    | some (v, .ok false) => firstDone fs v
    | x => x

/-- What holds at the end of each step holds at the end of the first that does anything, if what holds before each
    step holds after those that do nothing. -/
theorem firstDone_ends {I K : Varlink J → Prop} {fs : List (Varlink J → Option (Varlink J × Result Bool))}
    (hfs : ∀ f ∈ fs, ∀ v, I v → ∃ x, f v = some x ∧ K (finish x) ∧ (x.2 = .ok false → I x.1)) {v : Varlink J}
    (hv : I v) (hk : K v) : ∃ x, firstDone fs v = some x ∧ K (finish x) ∧ (x.2 = .ok false → I x.1) := by
  induction fs generalizing v with
  | nil => exact ⟨_, rfl, hk, fun _ => hv⟩
  | cons f fs ih =>
    obtain ⟨x, hx, hfinish, hnothing⟩ := hfs f List.mem_cons_self v hv
    obtain ⟨w, r⟩ := x
    unfold firstDone
    rw [hx]
    cases r with
    | error er => exact ⟨_, rfl, hfinish, hnothing⟩
    | ok b =>
      cases b with
      | true => exact ⟨_, rfl, hfinish, hnothing⟩
      | false => exact ih (fun g hg => hfs g (List.mem_cons_of_mem f hg)) (hnothing rfl) hfinish

/-- What holds at the end of each step holds at the end of the first that does anything. -/
theorem firstDone_keeps {I : Varlink J → Prop} {fs : List (Varlink J → Option (Varlink J × Result Bool))}
    (hfs : ∀ f ∈ fs, ∀ v, I v → ∃ x, f v = some x ∧ I (finish x)) {v : Varlink J} (hv : I v) :
    ∃ x, firstDone fs v = some x ∧ I (finish x) := by
  have hends : ∀ f ∈ fs, ∀ v, I v → ∃ x, f v = some x ∧ I (finish x) ∧ (x.2 = .ok false → I x.1) := by
    intro f hf v hv
    obtain ⟨⟨w, r⟩, hx, hfinish⟩ := hfs f hf v hv
    refine ⟨_, hx, hfinish, fun hr => ?_⟩
    cases hr
    exact hfinish
  obtain ⟨x, hx, hfinish, -⟩ := firstDone_ends hends hv hv
  exact ⟨x, hx, hfinish⟩

/-- What the first steps leave undone is tried by the others. -/
theorem firstDone_append (fs gs : List (Varlink J → Option (Varlink J × Result Bool))) (v : Varlink J) :
    (∃ w, firstDone fs v = some (w, .ok false) ∧ firstDone (fs ++ gs) v = firstDone gs w) ∨
      (∀ w, firstDone fs v ≠ some (w, .ok false)) ∧ firstDone (fs ++ gs) v = firstDone fs v := by
  induction fs generalizing v with
  | nil => exact .inl ⟨v, rfl, rfl⟩
  | cons f fs ih =>
    rw [List.cons_append, firstDone, firstDone]
    cases hf : f v with
    | none => exact .inr ⟨fun w hw => absurd hw.symm (Option.some_ne_none _), rfl⟩
    | some x =>
      obtain ⟨u, r⟩ := x
      cases r with
      | error er =>
        refine .inr ⟨fun w hw => ?_, rfl⟩
        cases hw
      | ok b =>
        cases b with
        | true =>
          refine .inr ⟨fun w hw => ?_, rfl⟩
          cases hw
        | false => exact ih u

end

variable {R : Type} (format : Json R → Bytes) (parse : Bytes → Result (Json R))

/-- What `sd_varlink_process` tries. -/
def processSteps (methods : VarlinkMethods R) (a : ProcessAnswers R) :
    List (Varlink (Json R) → Option (Varlink (Json R) × Result Bool)) :=
  [fun v => some (v.write format a.queueMemory a.write),
    fun v => (v.dispatchReply a.closes).map fun x => (x.1, .ok x.2),
    fun v => v.dispatchMethod format methods a.method,
    fun v => some (v.parseMessage parse),
    fun v => some (v.read a.readMemory a.read),
    fun v => some (v.testDisconnect.1, .ok v.testDisconnect.2),
    fun v => some ((v.dispatchDisconnect a.closes).1, .ok (v.dispatchDisconnect a.closes).2),
    fun v => some ((v.testTimeout a.elapsed).1, .ok (v.testTimeout a.elapsed).2),
    fun v => some ((v.dispatchTimeout a.closes).1, .ok (v.dispatchTimeout a.closes).2)]

/-- The result of `sd_varlink_process` once its event source was enabled or disabled. -/
def deferredResult (r : Result Bool) (deferred : Option Errno) : Result Bool :=
  match r with
  | .error er => .error er
  | .ok b => deferred.elim (.ok b) .error

/-- `sd_varlink_process` -/
def sdVarlinkProcess (methods : VarlinkMethods R) (v : Varlink (Json R)) (a : ProcessAnswers R) :
    Option (Varlink (Json R) × Result Bool) :=
  if v.state = .disconnected then some (v, .error ENOTCONN)
  else
    (firstDone (processSteps format parse methods a) v).map fun x =>
      (finish (x.1, deferredResult x.2 a.deferred), deferredResult x.2 a.deferred)

variable {format parse}

/-- What holds after the first step that does anything, and after a failure of the connection, holds after
    processing. -/
theorem sdVarlinkProcess_of_firstDone {I : Varlink (Json R) → Prop} {methods : VarlinkMethods R}
    {a : ProcessAnswers R} (hfail : ∀ v er, I v → I (finish (v, .error er))) {v : Varlink (Json R)} (hv : I v)
    (hdone : ∃ x, firstDone (processSteps format parse methods a) v = some x ∧ I (finish x)) :
    ∃ x, v.sdVarlinkProcess format parse methods a = some x ∧ I x.1 := by
  unfold sdVarlinkProcess
  by_cases hclosed : v.state = .disconnected
  · rw [if_pos hclosed]
    exact ⟨_, rfl, hv⟩
  · rw [if_neg hclosed]
    obtain ⟨x, hx, hfinish⟩ := hdone
    obtain ⟨w, r⟩ := x
    rw [hx]
    refine ⟨_, rfl, ?_⟩
    cases r with
    | error er => exact hfinish
    | ok b =>
      cases a.deferred with
      | none => exact hfinish
      | some er => exact hfail w er hfinish

/-- What each step keeps, and the failure of the connection, processing keeps. -/
theorem sdVarlinkProcess_keeps {I : Varlink (Json R) → Prop} {methods : VarlinkMethods R} {a : ProcessAnswers R}
    (hsteps : ∀ f ∈ processSteps format parse methods a, ∀ v, I v → ∃ x, f v = some x ∧ I (finish x))
    (hfail : ∀ v er, I v → I (finish (v, .error er))) {v : Varlink (Json R)} (hv : I v) :
    ∃ x, v.sdVarlinkProcess format parse methods a = some x ∧ I x.1 :=
  sdVarlinkProcess_of_firstDone hfail hv (firstDone_keeps hsteps hv)

/-! ## Reading -/

section

variable {v w : Varlink (Json R)}

theorem write_nothing (hqueue : v.output.queue = []) (hsize : v.output.buffer.size = 0)
    (memory : Nat → MemoryAnswer) (answer : OutputAnswer) : v.write format memory answer = (v, .ok false) := by
  have hwrite : v.output.write format memory answer = (v.output, .ok (some false)) := by
    unfold VarlinkOutput.write VarlinkOutput.formatQueue
    rw [hqueue]
    unfold VarlinkOutput.formatQueueLoop
    simp only
    rw [if_pos hsize]
  unfold write
  split_ifs
  · rfl
  · rfl
  · rfl
  · rw [hwrite]

theorem dispatchReply_nothing (hcurrent : v.current = none) (closes : Bool) :
    v.dispatchReply closes = some (v, false) := by
  unfold dispatchReply
  rw [hcurrent]
  exact ite_self _

theorem dispatchMethod_nothing (hcurrent : v.current = none) (methods : VarlinkMethods R) (a : MethodAnswers R) :
    v.dispatchMethod format methods a = some (v, .ok false) := by
  unfold dispatchMethod
  rw [hcurrent]
  exact ite_self _

theorem parseMessage_nothing (hunscanned : v.input.unscanned = 0) : v.parseMessage parse = (v, .ok false) := by
  unfold parseMessage
  rw [if_pos hunscanned]
  exact ite_self _

/-- Where there is nothing else to be done, a connection reads. -/
theorem sdVarlinkProcess_read {methods : VarlinkMethods R} {a : ProcessAnswers R} (hopen : v.state ≠ .disconnected)
    (hqueue : v.output.queue = []) (hsize : v.output.buffer.size = 0) (hcurrent : v.current = none)
    (hunscanned : v.input.unscanned = 0) (hread : v.read a.readMemory a.read = (w, .ok true))
    (hdeferred : a.deferred = none) : v.sdVarlinkProcess format parse methods a = some (w, .ok true) := by
  have hdone : firstDone (processSteps format parse methods a) v = some (w, .ok true) := by
    unfold processSteps
    rw [firstDone, write_nothing hqueue hsize]
    simp only
    rw [firstDone, dispatchReply_nothing hcurrent]
    simp only [Option.map_some]
    rw [firstDone, dispatchMethod_nothing hcurrent]
    simp only
    rw [firstDone, parseMessage_nothing hunscanned]
    simp only
    rw [firstDone, hread]
  unfold sdVarlinkProcess
  rw [if_neg hopen, hdone, hdeferred]
  rfl

theorem read_of_input {allow : Bool} (hreads : v.state.reads = true) (hconnecting : v.connecting = false)
    (hcurrent : v.current = none) (hunscanned : v.input.unscanned = 0) (hread : v.readDisconnected = false)
    (hallow : v.allowFdPassingInput = allow) {memory : MemoryAnswer} {answer : InputAnswer} {i : VarlinkInput} {r : Bool}
    (hinput : v.input.read allow memory answer = (i, .ok (some r))) :
    v.read memory answer = ({ v with input := i }, .ok r) := by
  unfold read
  rw [hreads, hconnecting, hcurrent, hunscanned, hread, hallow, hinput]
  rfl

/-- The first bytes that can be read are read where there is nothing else to be done. -/
theorem sdVarlinkProcess_reading {methods : VarlinkMethods R} (hreads : v.state.reads = true)
    (hconnecting : v.connecting = false) (hqueue : v.output.queue = []) (hsize : v.output.buffer.size = 0)
    (hcurrent : v.current = none) (hbuffer : v.input.buffer = .empty) (hunscanned : v.input.unscanned = 0)
    (hread : v.readDisconnected = false) {b : Bytes} (hne : b ≠ []) (hlength : b.length ≤ varlinkReadSize) :
    ∃ rest, v.sdVarlinkProcess format parse methods (.reading b) =
      some ({ v with
        input :=
          { v.input with
            buffer := ⟨b ++ rest, 0, b.length⟩
            unscanned := v.input.unscanned + b.length
            received := v.input.received ++ b } }, .ok true) := by
  obtain ⟨rest, hinput⟩ := VarlinkInput.read_empty hbuffer v.allowFdPassingInput (fun _ => 0) hne hlength
  have hopen : v.state ≠ .disconnected := by
    intro hclosed
    rw [hclosed] at hreads
    cases hreads
  exact ⟨rest, sdVarlinkProcess_read hopen hqueue hsize hcurrent hunscanned
    (read_of_input hreads hconnecting hcurrent hunscanned hread rfl hinput) rfl⟩

end

/-! ## The transport -/

section

variable {v w : Varlink (Json R)}

/-- What is neither the state nor in the buffers does not matter to the transport. -/
theorem Transports.congr (h : v.Transports format parse) (hstate : w.state = v.state) (hinput : w.input = v.input)
    (houtput : w.output = v.output) : w.Transports format parse := by
  refine ⟨?_, ?_, ?_, ?_⟩
  · rw [hstate, houtput]
    exact h.output
  · rw [houtput]
    exact h.written
  · rw [hstate, hinput]
    exact h.input
  · rw [hinput]
    exact h.delivered

theorem Transports.clearCurrent (h : v.Transports format parse) : v.clearCurrent.Transports format parse :=
  h.transportStep .clearCurrent

theorem Transports.dispatchLocalError (h : v.Transports format parse) (closes : Bool) :
    (v.dispatchLocalError closes).Transports format parse := by
  unfold Varlink.dispatchLocalError
  split_ifs
  · refine Transports.close ?_
    exact h.congr rfl rfl rfl
  · exact h.congr rfl rfl rfl
  · exact h

theorem Transports.enqueueCall (h : v.Transports format parse) {states : List VarlinkState}
    (hstates : ∀ s ∈ states, s.isAlive = true) (kind : VarlinkMessage) (method : Bytes)
    (parameters : Option (Json R)) (flag : List (Bytes × Json R)) (memory : MemoryAnswer) :
    (v.enqueueCall format states kind method parameters flag memory).1.Transports format parse := by
  unfold Varlink.enqueueCall
  split_ifs with hclosed hstate
  · exact h
  · cases varlinkSanitizeParameters parameters with
    | error er => exact h
    | ok p => exact h.enqueueJson (hstates v.state hstate) kind _ memory
  · exact h

end

end Varlink

end Elogind
