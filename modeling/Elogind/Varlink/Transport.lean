/-
  Elogind.Varlink.Transport

  A connection as a stream of messages in both directions, over whole runs of what is done with it: what is
  above the transport enqueues messages, looks at the one that was received and changes the state.
-/

import Elogind.Varlink.Stream

namespace Elogind

open Lib Errno List VarlinkOutput

/-! ## Texts that were parsed -/

namespace VarlinkInput

variable {J : Type} {parse : Bytes → Result J} {i : VarlinkInput}

/-- The parser got the texts of what was received, one after the other up to the first one that does not parse,
    and all of them if nothing is left to be scanned. -/
structure Delivered (parse : Bytes → Result J) (i : VarlinkInput) : Prop where
  inOrder : i.handed <+: uptoFailure parse (texts i.received)
  complete : i.unscanned = 0 → i.handed = uptoFailure parse (texts i.received)

theorem Receives.delivered (h : i.Receives parse) : i.Delivered parse := by
  have htexts : uptoFailure parse (texts i.received) = i.handed ++ uptoFailure parse (texts i.buffer.contents) := by
    rw [h.stream, texts_zeroEnded h.noZero, uptoFailure_append h.parsed]
  constructor
  · rw [htexts]
    exact prefix_append _ _
  · intro hunscanned
    have hscanned := h.scanned
    have hlength := Window.length_contents h.fits
    rw [hunscanned, Nat.sub_zero, ← hlength, take_length] at hscanned
    rw [htexts, texts_eq_nil hscanned]
    exact (append_nil _).symm

theorem Failed.delivered (h : i.Failed parse) : i.Delivered parse := by
  obtain ⟨ts, t, rest, er, hhanded, hreceived, hzero, hparsed, her⟩ := h.failure
  have htexts : uptoFailure parse (texts i.received) = i.handed := by
    rw [hreceived, texts_zeroEnded hzero, hhanded, append_assoc, uptoFailure_append hparsed]
    show ts ++ uptoFailure parse (t :: texts rest) = _
    rw [uptoFailure_cons her]
  constructor
  · exact ⟨[], by rw [append_nil, htexts]⟩
  · intro _
    exact htexts.symm

/-- After the next text, either all went well or nothing more is parsed. -/
theorem Receives.parseMessage (h : i.Receives parse) :
    (∃ i' r, i.parseMessage parse = (i', .ok r) ∧ i'.Receives parse) ∨
      ∃ i' er, i.parseMessage parse = (i', .error er) ∧ i'.Failed parse := by
  have hlength := Window.length_contents h.fits
  rcases parseMessage_eq h with ⟨hnone, heq⟩ | ⟨text, rest, hcontents, hzero, herror, hok⟩
  · refine .inl ⟨_, _, heq, ⟨⟨h.fits, Nat.zero_le _⟩, ?_, h.stream, h.noZero, h.parsed⟩⟩
    exact fun hmem => hnone (mem_of_mem_take hmem)
  · have hnoZero : ∀ t ∈ i.handed ++ [text], 0 ∉ t := by
      intro t ht
      rcases mem_append.mp ht with ht | ht
      · exact h.noZero t ht
      · rw [mem_singleton.mp ht]
        exact hzero
    have hstream : i.received = zeroEnded (i.handed ++ [text]) ++ rest := by
      rw [h.stream, hcontents, zeroEnded_concat]
      simp only [append_assoc, singleton_append]
    have hsize : text.length + 1 ≤ i.buffer.size := by
      rw [← hlength, hcontents, length_append, length_cons]
      omega
    cases hparse : parse text with
    | error er =>
      refine .inr ⟨_, er, herror er hparse, ⟨⟨Nat.zero_le _, Nat.le_refl 0⟩, rfl, ?_⟩⟩
      exact ⟨i.handed, text, rest, er, rfl, hstream, hnoZero, h.parsed, hparse⟩
    | ok m =>
      have hrest : (i.buffer.consume (text.length + 1)).contents = rest := by
        rw [Window.contents_consume h.fits, hcontents, append_cons]
        exact drop_left' length_append
      refine .inl ⟨_, _, hok m hparse, ⟨⟨Window.fits_consume h.fits hsize, Nat.le_refl _⟩, ?_, ?_, hnoZero, ?_⟩⟩
      · show 0 ∉ (i.buffer.consume (text.length + 1)).contents.take
          (i.buffer.size - (text.length + 1) - (i.buffer.size - (text.length + 1)))
        rw [Nat.sub_self, take_zero]
        exact not_mem_nil
      · show i.received = zeroEnded (i.handed ++ [text]) ++ (i.buffer.consume (text.length + 1)).contents
        rw [hrest, hstream]
      · intro t ht
        rcases mem_append.mp ht with ht | ht
        · exact h.parsed t ht
        · rw [mem_singleton.mp ht]
          exact ⟨m, hparse⟩

end VarlinkInput

/-! ## Steps -/

/-- What is done with the transport of a connection. -/
inductive TransportStep (J : Type) where
  | enqueue (kind : VarlinkMessage) (m : J) (memory : MemoryAnswer)
  | pushFd (fd : Nat) (memory : MemoryAnswer)
  | resetFds
  | write (memory : Nat → MemoryAnswer) (answer : OutputAnswer)
  | read (memory : MemoryAnswer) (answer : InputAnswer)
  | parse
  | clearCurrent
  | setState (s : VarlinkState)
  | connected
  | hangup
  | close

namespace Varlink

variable {J : Type} (format : J → Bytes) (parse : Bytes → Result J)

/-- The end of `sd_varlink_process`. -/
def finish (x : Varlink J × Result Bool) : Varlink J :=
  match x.2 with
  | .ok _ => x.1
  | .error _ => if x.1.state.isAlive then x.1.setState .pendingDisconnect else x.1.close

/-- A step, which does nothing where the functions of a connection do not make it: messages are enqueued in
    states in which the connection is alive, a connection that was closed is not processed, and one that is not
    alive does not come to life again. -/
def transportStep (v : Varlink J) : TransportStep J → Varlink J
  | .enqueue kind m memory => if v.state.isAlive then (v.enqueueJson format kind m memory).1 else v
  | .pushFd fd memory => (v.pushFd fd memory).1
  | .resetFds => { v with output := v.output.resetFds }
  | .write memory answer => finish (v.write format memory answer)
  | .read memory answer => finish (v.read memory answer)
  | .parse => if v.state = .disconnected then v else finish (v.parseMessage parse)
  | .clearCurrent => v.clearCurrent
  | .setState s => if v.state.isAlive || (!s.isAlive && v.state ≠ .disconnected) then v.setState s else v
  | .connected => { v with connecting := false }
  | .hangup => { v with gotPollhup := true }
  | .close => v.close

/-- What `varlink_new` makes, in the state of a client or of a connection to a server. -/
def create (state : VarlinkState) (server fdPassing : Bool) : Varlink J where
  state := state
  server := server
  connecting := false
  nPending := 0
  input := ⟨.empty, 0, [], [], []⟩
  output := ⟨.empty, [], [], [], []⟩
  replyCallback := true
  current := none
  currentContinues := false
  writeDisconnected := false
  readDisconnected := false
  gotPollhup := false
  allowFdPassingInput := fdPassing
  allowFdPassingOutput := fdPassing
  history := []

/-- A connection with nothing in its buffers. -/
structure IsNew (v : Varlink J) : Prop where
  alive : v.state.isAlive = true
  inputBuffer : v.input.buffer = .empty
  unscanned : v.input.unscanned = 0
  received : v.input.received = []
  handed : v.input.handed = []
  outputBuffer : v.output.buffer = .empty
  fds : v.output.fds = []
  queue : v.output.queue = []
  pushedFds : v.output.pushedFds = []
  outputHistory : v.output.history = []
  history : v.history = []

/-! ## Runs -/

/-- The texts are those of the messages in both directions, as long as the connection has its buffers, and
    whatever was written or parsed before stays. -/
structure Transports (v : Varlink J) : Prop where
  output : v.state ≠ .disconnected → v.output.Streams format
  written : v.output.written <+: zeroEnded (v.output.enqueuedTexts format)
  input : v.state ≠ .disconnected → v.input.Receives parse ∨ v.input.Failed parse ∧ v.state.isAlive = false
  delivered : v.input.Delivered parse

variable {format parse} {v w : Varlink J}

theorem isNew_create {s : VarlinkState} (hs : s.isAlive = true) (server fdPassing : Bool) :
    (create s server fdPassing : Varlink J).IsNew :=
  ⟨hs, rfl, rfl, rfl, rfl, rfl, rfl, rfl, rfl, rfl, rfl⟩

theorem disconnected_of_not {s : VarlinkState} (h : s.isAlive = true) : s ≠ .disconnected := by
  rintro rfl
  cases h

theorem Transports.of_new (h : v.IsNew) : v.Transports format parse := by
  have houtput : v.output.Streams format := .empty h.outputBuffer h.queue h.outputHistory
  have hinput : v.input.Receives parse := .empty h.inputBuffer h.unscanned h.received h.handed
  exact ⟨fun _ => houtput, houtput.written_initial, fun _ => .inl hinput, hinput.delivered⟩

/-- What is enqueued, written or pushed leaves the other direction alone. -/
theorem Transports.of_output (h : v.Transports format parse) {o : VarlinkOutput J}
    (ho : v.state ≠ .disconnected → o.Streams format)
    (hclosed : v.state = .disconnected → o.written = v.output.written ∧ o.enqueuedTexts format = v.output.enqueuedTexts format)
    (hw : w.input = v.input) (hstate : w.state = v.state) (hout : w.output = o) : w.Transports format parse := by
  refine ⟨?_, ?_, ?_, ?_⟩
  · rw [hstate, hout]
    exact ho
  · rw [hout]
    by_cases hdisconnected : v.state = .disconnected
    · rw [(hclosed hdisconnected).1, (hclosed hdisconnected).2]
      exact h.written
    · exact (ho hdisconnected).written_initial
  · rw [hw, hstate]
    exact h.input
  · rw [hw]
    exact h.delivered

/-- A state in which there is no more than there was before. -/
theorem Transports.setState (h : v.Transports format parse) {s : VarlinkState}
    (hs : v.state.isAlive = true ∨ s.isAlive = false ∧ v.state ≠ .disconnected) :
    (v.setState s).Transports format parse := by
  have hconnected : v.state ≠ .disconnected := by
    rcases hs with halive | ⟨-, hne⟩
    · exact disconnected_of_not halive
    · exact hne
  refine ⟨fun _ => h.output hconnected, h.written, fun _ => ?_, h.delivered⟩
  rcases h.input hconnected with hreceives | ⟨hfailed, hdead⟩
  · exact .inl hreceives
  · rcases hs with halive | ⟨hdead', -⟩
    · rw [hdead] at halive
      cases halive
    · exact .inr ⟨hfailed, hdead'⟩

theorem close_state (v : Varlink J) : v.close.state = .disconnected := by
  unfold Varlink.close
  by_cases hclosed : v.state = .disconnected
  · rw [if_pos hclosed]
    exact hclosed
  · rw [if_neg hclosed]
    rfl

theorem written_clear (o : VarlinkOutput J) : o.clear.written = o.written := by
  unfold clear written
  rw [flatMap_append, flatMap_singleton]
  exact append_nil _

theorem enqueuedTexts_clear (o : VarlinkOutput J) : o.clear.enqueuedTexts format = o.enqueuedTexts format := by
  unfold clear enqueuedTexts
  rw [flatMap_append, flatMap_singleton]
  exact append_nil _

theorem Transports.close (h : v.Transports format parse) : v.close.Transports format parse := by
  unfold Varlink.close
  split_ifs with hclosed
  · exact h
  · refine ⟨fun hne => absurd rfl hne, ?_, fun hne => absurd rfl hne, ⟨h.delivered.inOrder, h.delivered.complete⟩⟩
    show v.output.clear.written <+: zeroEnded (v.output.clear.enqueuedTexts format)
    rw [written_clear, enqueuedTexts_clear]
    exact h.written

/-- The end of `sd_varlink_process` keeps what holds of the connection before it. -/
theorem Transports.finish {x : Varlink J × Result Bool} (h : x.1.Transports format parse) :
    (finish x).Transports format parse := by
  unfold Varlink.finish
  cases x.2 with
  | ok b => exact h
  | error er =>
    split_ifs with halive
    · exact h.setState (.inl halive)
    · exact h.close

theorem Transports.write (h : v.Transports format parse) (memory : Nat → MemoryAnswer) (answer : OutputAnswer) :
    (v.write format memory answer).1.Transports format parse := by
  unfold Varlink.write
  split_ifs with halive hconnecting hwrite
  · exact h
  · exact h
  · exact h
  · have hconnected : v.state ≠ .disconnected := by
      refine disconnected_of_not ?_
      simpa using halive
    have hstreams := (h.output hconnected).write memory answer
    cases hresult : v.output.write format memory answer with
    | mk o r =>
      rw [hresult] at hstreams
      cases r with
      | error er => exact h.of_output (fun _ => hstreams) (fun hclosed => absurd hclosed hconnected) rfl rfl rfl
      | ok r =>
        cases r with
        | none | some b =>
          exact h.of_output (fun _ => hstreams) (fun hclosed => absurd hclosed hconnected) rfl rfl rfl

theorem Transports.enqueueJson (h : v.Transports format parse) (halive : v.state.isAlive = true)
    (kind : VarlinkMessage) (m : J) (memory : MemoryAnswer) :
    (v.enqueueJson format kind m memory).1.Transports format parse := by
  have hconnected := disconnected_of_not halive
  have hstreams := (h.output hconnected).enqueueJson kind m memory
  unfold Varlink.enqueueJson
  cases hresult : v.output.enqueueJson format kind m memory with
  | mk o r =>
    rw [hresult] at hstreams
    cases r with
    | error er | ok u =>
      exact h.of_output (fun _ => hstreams) (fun hclosed => absurd hclosed hconnected) rfl rfl rfl

theorem Transports.pushFd (h : v.Transports format parse) (fd : Nat) (memory : MemoryAnswer) :
    (v.pushFd fd memory).1.Transports format parse := by
  unfold Varlink.pushFd
  split_ifs with hallow
  · exact h
  · refine h.of_output (fun hconnected => (h.output hconnected).pushFd fd memory) (fun _ => ?_) rfl rfl rfl
    cases memory with
    | none => exact ⟨rfl, rfl⟩
    | some slack junk =>
      unfold VarlinkOutput.pushFd VarlinkOutput.written VarlinkOutput.enqueuedTexts
      simp only [flatMap_append, flatMap_singleton]
      exact ⟨append_nil _, append_nil _⟩

theorem Transports.resetFds (h : v.Transports format parse) :
    ({ v with output := v.output.resetFds } : Varlink J).Transports format parse := by
  refine h.of_output (fun hconnected => (h.output hconnected).resetFds) (fun _ => ?_) rfl rfl rfl
  unfold VarlinkOutput.resetFds VarlinkOutput.written VarlinkOutput.enqueuedTexts
  simp only [flatMap_append, flatMap_singleton]
  exact ⟨append_nil _, append_nil _⟩

theorem alive_of_reads {s : VarlinkState} (h : s.reads = true) : s.isAlive = true := by
  cases s
  all_goals first
    | rfl
    | cases h

theorem Transports.receives (h : v.Transports format parse) (hreads : v.state.reads = true) :
    v.input.Receives parse := by
  have halive := alive_of_reads hreads
  rcases h.input (disconnected_of_not halive) with hreceives | ⟨-, hdead⟩
  · exact hreceives
  · rw [halive] at hdead
    cases hdead

theorem Transports.read (h : v.Transports format parse) (memory : MemoryAnswer) (answer : InputAnswer) :
    (v.read memory answer).1.Transports format parse := by
  unfold Varlink.read
  split_ifs with hreads hconnecting hcurrent hunscanned hread
  · exact h
  · exact h
  · exact h
  · exact h
  · exact h
  · have hreceives := h.receives (by simpa using hreads)
    have hnext := hreceives.read v.allowFdPassingInput memory answer
    cases hresult : v.input.read v.allowFdPassingInput memory answer with
    | mk i r =>
      rw [hresult] at hnext
      cases r with
      | error er => exact ⟨h.output, h.written, fun _ => .inl hnext, hnext.delivered⟩
      | ok r =>
        cases r with
        | none | some b => exact ⟨h.output, h.written, fun _ => .inl hnext, hnext.delivered⟩

/-- After a text that does not parse, the connection is not alive any more. -/
theorem Transports.parsing (h : v.Transports format parse) (hconnected : v.state ≠ .disconnected) :
    (Varlink.finish (v.parseMessage parse)).Transports format parse := by
  unfold Varlink.parseMessage
  split_ifs with hcurrent hunscanned
  · exact h
  · exact h
  · rcases h.input hconnected with hreceives | ⟨hfailed, -⟩
    · rcases hreceives.parseMessage with ⟨i, r, hresult, hnext⟩ | ⟨i, er, hresult, hnext⟩
      · rw [hresult]
        cases r with
        | none | some m => exact ⟨h.output, h.written, fun _ => .inl hnext, hnext.delivered⟩
      · rw [hresult]
        unfold Varlink.finish
        split_ifs with halive
        · exact ⟨fun _ => h.output hconnected, h.written, fun _ => .inr ⟨hnext, rfl⟩, hnext.delivered⟩
        · have hdead : v.state.isAlive = false := by simpa using halive
          have hfailed : ({ v with input := i } : Varlink J).Transports format parse :=
            ⟨h.output, h.written, fun _ => .inr ⟨hnext, hdead⟩, hnext.delivered⟩
          exact hfailed.close
    · exact absurd hfailed.flushed hunscanned

/-- A step keeps the texts in both directions. -/
theorem Transports.transportStep (h : v.Transports format parse) (a : TransportStep J) :
    (v.transportStep format parse a).Transports format parse := by
  cases a with
  | enqueue kind m memory =>
    unfold Varlink.transportStep
    simp only
    split_ifs with halive
    · exact h.enqueueJson halive kind m memory
    · exact h
  | pushFd fd memory => exact h.pushFd fd memory
  | resetFds => exact h.resetFds
  | write memory answer => exact (h.write memory answer).finish
  | read memory answer => exact (h.read memory answer).finish
  | parse =>
    unfold Varlink.transportStep
    simp only
    split_ifs with hdisconnected
    · exact h
    · exact h.parsing hdisconnected
  | clearCurrent =>
    refine ⟨h.output, h.written, fun hconnected => ?_, ⟨h.delivered.inOrder, h.delivered.complete⟩⟩
    rcases h.input hconnected with hreceives | ⟨hfailed, hdead⟩
    · exact .inl ⟨⟨hreceives.fits, hreceives.unscanned⟩, hreceives.scanned, hreceives.stream, hreceives.noZero,
        hreceives.parsed⟩
    · exact .inr ⟨⟨⟨hfailed.fits, hfailed.unscanned⟩, hfailed.flushed, hfailed.failure⟩, hdead⟩
  | setState s =>
    unfold Varlink.transportStep
    simp only
    split_ifs with hs
    · refine h.setState ?_
      simpa using hs
    · exact h
  | connected | hangup => exact ⟨h.output, h.written, h.input, h.delivered⟩
  | close => exact h.close

theorem Transports.of_run {steps : List (TransportStep J)} (hnew : v.IsNew)
    (hrun : Run (fun v a w => v.transportStep format parse a = w) v steps w) : w.Transports format parse :=
  hrun.invariant (Transports.of_new hnew) fun ht hstep => hstep ▸ ht.transportStep _

theorem Transports.bounded (h : v.Transports format parse) (hconnected : v.state ≠ .disconnected) :
    v.input.Bounded := by
  rcases h.input hconnected with hreceives | ⟨hfailed, -⟩
  · exact hreceives.toBounded
  · exact hfailed.toBounded

/-- No text in this stream, finished or not, is as long as the buffer may be. -/
def ShortTexts (r : Bytes) : Prop := ∀ before t behind, r = before ++ t ++ behind → 0 ∉ t → t.length < varlinkBufferMax

/-- Where texts are short, what a connection that reads is sent is read. -/
theorem Transports.read_ok (h : v.Transports format parse) (hshort : ShortTexts v.input.received)
    (hreads : v.state.reads = true) (hconnecting : v.connecting = false) (hcurrent : v.current = none)
    (hunscanned : v.input.unscanned = 0) (hread : v.readDisconnected = false) (slack : Nat) (junk : Nat → UInt8)
    {bytes : Bytes} (hbytes : bytes ≠ []) :
    ∃ w n, v.read (.some slack junk) (.received bytes []) = (w, .ok true) ∧ 0 < n ∧
      w.input.received = v.input.received ++ bytes.take n := by
  have hreceives := h.receives hreads
  have hlength := Window.length_contents hreceives.fits
  have hsize : v.input.buffer.size < varlinkBufferMax := by
    have hscanned := hreceives.scanned
    rw [hunscanned, Nat.sub_zero, ← hlength, take_length] at hscanned
    rw [← hlength]
    refine hshort (zeroEnded v.input.handed) v.input.buffer.contents [] ?_ hscanned
    rw [append_nil]
    exact hreceives.stream
  have hinput : ∃ i n, v.input.read v.allowFdPassingInput (.some slack junk) (.received bytes []) =
      (i, .ok (some true)) ∧ 0 < n ∧ i.received = v.input.received ++ bytes.take n := by
    unfold VarlinkInput.read
    rw [if_neg (Nat.not_le.mpr hsize)]
    rcases VarlinkInput.reserve_eq hreceives.toBounded (.some slack junk) with ⟨er, herror⟩ | ⟨b, hok, -, -, -, hroom⟩
    · unfold VarlinkInput.reserve at herror
      split_ifs at herror
    · rw [hok]
      have hspace : 0 < ({ v.input with buffer := b } : VarlinkInput).room := by
        show 0 < b.memory.length - (b.index + b.size)
        omega
      have htake : bytes.take ({ v.input with buffer := b } : VarlinkInput).room ≠ [] := by
        intro hnil
        rcases take_eq_nil_iff.mp hnil with hzero | hnone
        · omega
        · exact hbytes hnone
      simp only
      rw [if_neg htake, if_neg (fun hfds => hfds.2.1 rfl)]
      exact ⟨_, _, rfl, hspace, rfl⟩
  obtain ⟨i, n, hinput, hn, hreceived⟩ := hinput
  refine ⟨{ v with input := i }, n, ?_, hn, hreceived⟩
  unfold Varlink.read
  rw [hreads, hconnecting, hcurrent, hunscanned, hread, hinput]
  rfl

theorem Transports.unscanned (h : v.Transports format parse) (hconnected : v.state ≠ .disconnected)
    (hunscanned : v.input.unscanned ≠ 0) : v.input.Receives parse := by
  rcases h.input hconnected with hreceives | ⟨hfailed, -⟩
  · exact hreceives
  · exact absurd hfailed.flushed hunscanned

/-- A text that is complete in the buffer is handed to the parser, and becomes the current message if it parses. -/
theorem Transports.parse_text (h : v.Transports format parse) (hconnected : v.state ≠ .disconnected)
    (hcurrent : v.current = none) {text rest : Bytes} (hcontents : v.input.buffer.contents = text ++ 0 :: rest)
    (hzero : 0 ∉ text) (hunscanned : v.input.unscanned ≠ 0) :
    (v.transportStep format parse .parse).input.handed = v.input.handed ++ [text] ∧
      ∀ m, parse text = .ok m → (v.transportStep format parse .parse).current = some m := by
  have hstep : v.transportStep format parse .parse = Varlink.finish (v.parseMessage parse) := if_neg hconnected
  have hreceives := h.unscanned hconnected hunscanned
  rcases VarlinkInput.parseMessage_eq hreceives with ⟨hnone, -⟩ | ⟨text', rest', hcontents', hzero', herror, hok⟩
  · rw [hcontents] at hnone
    exact absurd (mem_append_right text mem_cons_self) hnone
  · -- the first text of the buffer is the one up to its first zero
    have hfirst := texts_cons hzero rest
    rw [← hcontents, hcontents', texts_cons hzero'] at hfirst
    obtain rfl : text' = text := (cons.inj hfirst).1
    rw [hstep]
    unfold Varlink.parseMessage
    rw [if_neg (by rw [hcurrent]; exact Bool.false_ne_true), if_neg hunscanned]
    cases hparse : parse text' with
    | error er =>
      rw [herror er hparse]
      refine ⟨?_, fun m hm => by cases hm⟩
      unfold Varlink.finish Varlink.close
      split_ifs
      all_goals rfl
    | ok m =>
      rw [hok m hparse]
      refine ⟨rfl, ?_⟩
      rintro m' hm
      cases hm
      rfl

/-- What the steps do when nothing is in their way: a message that is enqueued is one more text, the socket takes
    bytes of the buffer, bytes that have come are read, and a complete text is handed to the parser. -/
structure Moves (format : J → Bytes) (parse : Bytes → Result J) (v : Varlink J) : Prop where
  enqueued : ∀ kind m memory, (v.enqueueJson format kind m memory).2 = .ok () →
    (v.enqueueJson format kind m memory).1.output.enqueuedTexts format = v.output.enqueuedTexts format ++ [format m]
  wrote : v.state.isAlive = true → v.connecting = false → v.writeDisconnected = false → v.output.queue = [] →
    ∀ memory n, (v.write format memory (.accepted n)).1.output.written =
      v.output.written ++ v.output.buffer.contents.take n
  read : ShortTexts v.input.received → v.state.reads = true → v.connecting = false → v.current = none →
    v.input.unscanned = 0 → v.readDisconnected = false → ∀ slack junk bytes, bytes ≠ [] →
      ∃ w n, v.read (.some slack junk) (.received bytes []) = (w, .ok true) ∧ 0 < n ∧
        w.input.received = v.input.received ++ bytes.take n
  parsed : v.state ≠ .disconnected → v.current = none → v.input.unscanned ≠ 0 → ∀ text rest,
    v.input.buffer.contents = text ++ 0 :: rest → 0 ∉ text →
      (v.transportStep format parse .parse).input.handed = v.input.handed ++ [text] ∧
        ∀ m, parse text = .ok m → (v.transportStep format parse .parse).current = some m

theorem Transports.moves (h : v.Transports format parse) : v.Moves format parse := by
  refine ⟨?_, ?_, ?_, ?_⟩
  · intro kind m memory hok
    unfold Varlink.enqueueJson VarlinkOutput.enqueueJson at hok ⊢
    split_ifs at hok ⊢ with hdirect
    · cases hformat : v.output.formatJson format m memory with
      | mk o r =>
        have hkept : o.history = v.output.history := by
          rw [← (formatJson_keeps format v.output m memory).1, hformat]
        rw [hformat] at hok
        cases r with
        | error er => cases hok
        | ok u =>
          unfold enqueuedTexts
          simp only [flatMap_append, flatMap_singleton, hkept]
          rfl
    · cases memory with
      | none => cases hok
      | some slack junk =>
        unfold enqueuedTexts
        simp only [flatMap_append, flatMap_singleton]
        rfl
  · intro halive hconnecting hwrite hqueue memory n
    unfold Varlink.write VarlinkOutput.write VarlinkOutput.formatQueue
    rw [hqueue, halive, hconnecting, hwrite, formatQueueLoop]
    simp only [Bool.not_true, Bool.false_eq_true, if_false]
    by_cases hsize : v.output.buffer.size = 0
    · rw [if_pos hsize, Window.contents_of_size_zero hsize, take_nil]
      exact (append_nil _).symm
    · rw [if_neg hsize]
      unfold VarlinkOutput.written
      simp only [flatMap_append, flatMap_singleton, OutputEvent.bytes]
      unfold Window.contents
      rw [take_take, take_take, Nat.min_assoc, Nat.min_self]
  · intro hshort hreads hconnecting hcurrent hunscanned hread slack junk bytes hbytes
    exact h.read_ok hshort hreads hconnecting hcurrent hunscanned hread slack junk hbytes
  · intro hconnected hcurrent hunscanned text rest hcontents hzero
    exact h.parse_text hconnected hcurrent hcontents hzero hunscanned

/-- What a connection writes is the start of the texts of its messages, and what it parses are the texts of what
    it received up to the first one that does not parse, however that was cut into pieces: as long as texts are
    short, nothing of what is sent is refused, and a complete text is parsed (`Moves`).  The windows stay within
    their memory until it is closed. -/
theorem transport {steps : List (TransportStep J)} (hnew : v.IsNew)
    (hrun : Run (fun v a w => v.transportStep format parse a = w) v steps w) :
    w.output.written <+: zeroEnded (w.output.enqueuedTexts format) ∧
    w.input.handed <+: uptoFailure parse (texts w.input.received) ∧
    (w.input.unscanned = 0 → w.input.handed = uptoFailure parse (texts w.input.received)) ∧
    (w.state ≠ .disconnected → w.input.unscanned ≤ w.input.buffer.size ∧
      w.input.buffer.index + w.input.buffer.size ≤ w.input.buffer.memory.length ∧
      w.output.buffer.index + w.output.buffer.size ≤ w.output.buffer.memory.length) ∧
    w.Moves format parse ∧
    ∀ {v' w' : Varlink J} {steps' : List (TransportStep J)}, v'.IsNew →
      Run (fun v a w => v.transportStep format parse a = w) v' steps' w' →
        w'.input.received = w.input.received → w.input.unscanned = 0 → w'.input.unscanned = 0 →
          w'.input.handed = w.input.handed := by
  have h := Transports.of_run hnew hrun
  refine ⟨h.written, h.delivered.inOrder, h.delivered.complete, fun hconnected => ?_, h.moves, ?_⟩
  · have hbounded := h.bounded hconnected
    exact ⟨hbounded.unscanned, hbounded.fits, (h.output hconnected).fits⟩
  · intro v' w' steps' hnew' hrun' hreceived hscanned hscanned'
    have h' := Transports.of_run hnew' hrun'
    rw [h.delivered.complete hscanned, h'.delivered.complete hscanned', hreceived]

/-- The first bytes that come to a connection. -/
theorem exists_read_first {v : Varlink Bytes} (hbuffer : v.input.buffer = .empty) (hreads : v.state = .idleServer)
    (hconnecting : v.connecting = false) (hcurrent : v.current = none) (hunscanned : v.input.unscanned = 0)
    (hread : v.readDisconnected = false) {b : Bytes} (hne : b ≠ []) (hlength : b.length ≤ varlinkReadSize) :
    ∃ rest, v.transportStep id Except.ok (.read (.some 0 fun _ => 0) (.received b [])) =
      { v with input := { v.input with
          buffer := ⟨b ++ rest, 0, b.length⟩
          unscanned := v.input.unscanned + b.length
          received := v.input.received ++ b } } := by
  obtain ⟨rest, hinput⟩ := VarlinkInput.read_empty hbuffer v.allowFdPassingInput (fun _ => 0) hne hlength
  refine ⟨rest, ?_⟩
  show Varlink.finish (v.read _ _) = _
  unfold Varlink.read
  rw [if_neg (by rw [hreads]; decide), if_neg (by rw [hconnecting]; decide), if_neg (by rw [hcurrent]; decide),
    if_neg (by rw [hunscanned]; decide), if_neg (by rw [hread]; decide), hinput]
  rfl

/-- A connection of a server writes two bytes of an object, reads another one and the start of a list, and parses
    the object. -/
theorem transport_two_bytes :
    ∃ v w : Varlink Bytes, v.transportStep id Except.ok .parse = w ∧ w.output.written = [123, 125] ∧
      v.output.written <+: zeroEnded (v.output.enqueuedTexts id) ∧ w.input.received = [123, 125, 0, 91] ∧
      w.input.handed = [[123, 125]] ∧ w.current = some [123, 125] := by
  let v₀ : Varlink Bytes := create .idleServer true false
  let v₁ := (v₀.transportStep id Except.ok (.enqueue .reply [123, 125] (.some 0 fun _ => 0))).transportStep id
    Except.ok (.write (fun _ => .some 0 fun _ => 0) (.accepted 2))
  obtain ⟨rest, hread⟩ := exists_read_first (v := v₁) rfl rfl rfl rfl rfl rfl (b := [123, 125, 0, 91])
    (cons_ne_nil _ _) (by decide)
  have hrun : Run (fun v a w => v.transportStep id Except.ok a = w) v₀
      [.enqueue .reply [123, 125] (.some 0 fun _ => 0), .write (fun _ => .some 0 fun _ => 0) (.accepted 2),
        .read (.some 0 fun _ => 0) (.received [123, 125, 0, 91] [])] _ := .cons rfl (.cons rfl (.single hread))
  obtain ⟨hwritten, -, -, -, hmoves, -⟩ := transport (isNew_create rfl true false) hrun
  obtain ⟨hhanded, hcurrent⟩ := hmoves.parsed (fun h => by cases h) rfl (Nat.succ_ne_zero 3) [123, 125] [91] rfl
    (by decide)
  exact ⟨_, _, rfl, rfl, hwritten, rfl, hhanded, hcurrent _ rfl⟩

/-- However the socket cuts the stream between two connections, the texts that one enqueues reach the parser of
    the other, once each and in their order: a text that is complete in the buffer is the next one, and is parsed.
    When neither has anything left, all of them have reached it. -/
theorem texts_arrive {v₀ w₀ : Varlink J} {steps steps' : List (TransportStep J)} (hv₀ : v₀.IsNew) (hw₀ : w₀.IsNew)
    (hv : Run (fun v a w => v.transportStep format parse a = w) v₀ steps v)
    (hw : Run (fun v a w => v.transportStep format parse a = w) w₀ steps' w)
    (harrived : w.input.received <+: v.output.written)
    (hparsed : ∀ t ∈ v.output.enqueuedTexts format, 0 ∉ t ∧ ∃ m, parse t = .ok m) :
    w.input.handed <+: v.output.enqueuedTexts format ∧
      (w.state ≠ .disconnected → w.current = none → w.input.unscanned ≠ 0 → 0 ∈ w.input.buffer.contents →
        ∃ t m, w.input.handed ++ [t] <+: v.output.enqueuedTexts format ∧ parse t = .ok m ∧
          (w.transportStep format parse .parse).input.handed = w.input.handed ++ [t] ∧
          (w.transportStep format parse .parse).current = some m) ∧
      (v.state ≠ .disconnected → v.output.queue = [] → v.output.buffer.size = 0 →
        w.input.received = v.output.written → w.input.unscanned = 0 →
          w.input.handed = v.output.enqueuedTexts format) := by
  have hsender := Transports.of_run hv₀ hv
  have hreceiver := Transports.of_run hw₀ hw
  have hdelivered := hreceiver.delivered
  have hzero : ∀ t ∈ v.output.enqueuedTexts format, 0 ∉ t := fun t ht => (hparsed t ht).1
  have htexts := texts_prefix hzero (harrived.trans hsender.written)
  -- no text that arrives stops the parser
  have hall : uptoFailure parse (texts w.input.received) = texts w.input.received := by
    have h := uptoFailure_append (fun t ht => (hparsed t (htexts.subset ht)).2) []
    rwa [append_nil, uptoFailure, append_nil] at h
  have hinOrder := hdelivered.inOrder
  rw [hall] at hinOrder
  refine ⟨hinOrder.trans htexts, fun hconnected hcurrent hunscanned hcomplete => ?_,
    fun hopen hqueue hsize hreceived hscanned => ?_⟩
  · obtain ⟨t, rest, hcontents, ht⟩ := eq_append_cons_of_mem hcomplete
    obtain ⟨hhanded, hnext⟩ := hreceiver.parse_text hconnected hcurrent hcontents ht hunscanned
    have hreceives := hreceiver.unscanned hconnected hunscanned
    have hsplit : texts w.input.received = w.input.handed ++ [t] ++ texts rest := by
      rw [hreceives.stream, texts_zeroEnded hreceives.noZero, hcontents, texts_cons ht, ← append_cons]
    have hprefix : w.input.handed ++ [t] <+: v.output.enqueuedTexts format :=
      (hsplit ▸ prefix_append _ _).trans htexts
    have hmem : t ∈ v.output.enqueuedTexts format := hprefix.subset (mem_append_right _ (mem_singleton_self t))
    obtain ⟨-, m, hm⟩ := hparsed t hmem
    exact ⟨t, m, hprefix, hm, hhanded, hnext m hm⟩
  · have hstream := (hsender.output hopen).stream
    rw [hqueue, Window.contents_of_size_zero hsize, append_nil] at hstream
    have hwritten := texts_zeroEnded hzero []
    rw [← hstream] at hwritten
    rw [hdelivered.complete hscanned, hall, hreceived]
    simpa [zeroEnded, texts_eq_nil] using hwritten

/-- An object is written whole and the first byte of a list behind it; what has arrived is read, and the object is
    parsed. -/
theorem texts_arrive_object :
    ∃ v w : Varlink Bytes, v.output.written = [123, 125, 0, 91] ∧ v.output.enqueuedTexts id = [[123, 125], [91, 93]] ∧
      w.input.received = [123, 125, 0, 91] ∧ (w.transportStep id Except.ok .parse).input.handed = [[123, 125]] ∧
      (w.transportStep id Except.ok .parse).current = some [123, 125] := by
  let v₀ : Varlink Bytes := create .idleClient false false
  let v₁ := v₀.transportStep id Except.ok (.enqueue .oneway [123, 125] (.some 0 fun _ => 0))
  let v₂ := v₁.transportStep id Except.ok (.enqueue .call [91, 93] (.some 0 fun _ => 0))
  let v₃ := v₂.transportStep id Except.ok (.write (fun _ => .some 0 fun _ => 0) (.accepted 4))
  have hv : Run (fun v a w => v.transportStep id Except.ok a = w) v₀ _ v₃ :=
    .cons rfl (.cons rfl (.single rfl))
  let w₀ : Varlink Bytes := create .idleServer true false
  obtain ⟨rest, hread⟩ := exists_read_first (v := w₀) rfl rfl rfl rfl rfl rfl (b := [123, 125, 0, 91])
    (cons_ne_nil _ _) (by decide)
  have hw : Run (fun v a w => v.transportStep id Except.ok a = w) w₀ _ _ := .single hread
  have hparsed : ∀ t ∈ [[123, 125], [91, 93]], (0 : UInt8) ∉ t ∧ ∃ m : Bytes, (Except.ok t : Result Bytes) = .ok m :=
    fun t ht => ⟨by revert t; decide, t, rfl⟩
  obtain ⟨-, hnext, -⟩ := texts_arrive (isNew_create rfl false false) (isNew_create rfl true false) hv hw
    (prefix_refl _) hparsed
  obtain ⟨t, m, ⟨rest', henqueued⟩, hm, hhanded, hcurrent⟩ := hnext (fun h => by cases h) rfl (Nat.succ_ne_zero 3)
    (mem_cons_of_mem _ (mem_cons_of_mem _ mem_cons_self))
  obtain rfl : t = [123, 125] := (cons.inj henqueued).1
  obtain rfl := Except.ok.inj hm
  exact ⟨v₃, _, rfl, rfl, rfl, hhanded, hcurrent⟩

end Varlink

end Elogind
