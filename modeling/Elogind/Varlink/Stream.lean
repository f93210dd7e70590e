/-
  Elogind.Varlink.Stream

  What goes over a connection is the texts of its messages, each with a zero behind it.  What was written is
  the start of the texts that were enqueued, and the texts that are parsed are those of what was received,
  however it was cut into pieces on its way.
-/

import Elogind.Lib.Run
import Elogind.Varlink.Connection

namespace Elogind

open Lib Errno List

/-! ## Texts -/

/-- The texts in a stream, each up to its zero, where this is what was read of the first one. -/
def textsFrom : Bytes → Bytes → List Bytes
  | _, [] => []
  | t, c :: r => if c = 0 then t :: textsFrom [] r else textsFrom (t ++ [c]) r

/-- The texts in a stream. -/
def texts (r : Bytes) : List Bytes := textsFrom [] r

/-- The texts up to the first one that does not parse. -/
def uptoFailure {J : Type} (parse : Bytes → Result J) : List Bytes → List Bytes
  | [] => []
  | t :: ts =>
    match parse t with
    | .error _ => [t]
    | .ok _ => t :: uptoFailure parse ts

/-- These texts with a zero behind each. -/
def zeroEnded (ts : List Bytes) : Bytes := ts.flatMap fun t => t ++ [0]

theorem textsFrom_append {r : Bytes} (hr : 0 ∉ r) (t rest : Bytes) :
    textsFrom t (r ++ rest) = textsFrom (t ++ r) rest := by
  induction r generalizing t with
  | nil => rw [nil_append, append_nil]
  | cons c r ih =>
    have hc : c ≠ 0 := fun h => hr (h ▸ mem_cons_self)
    have hrest : 0 ∉ r := fun h => hr (mem_cons_of_mem c h)
    rw [cons_append, textsFrom, if_neg hc, ih hrest, append_assoc]
    rfl

/-- The first text ends at the first zero. -/
theorem texts_cons {t : Bytes} (ht : 0 ∉ t) (rest : Bytes) : texts (t ++ 0 :: rest) = t :: texts rest := by
  unfold texts
  rw [textsFrom_append ht, nil_append, textsFrom, if_pos rfl]

/-- Without a zero there is no text. -/
theorem texts_eq_nil {r : Bytes} (hr : 0 ∉ r) : texts r = [] := by
  have happend := textsFrom_append hr [] []
  rw [append_nil] at happend
  exact happend

theorem texts_zeroEnded {ts : List Bytes} (hts : ∀ t ∈ ts, 0 ∉ t) (rest : Bytes) :
    texts (zeroEnded ts ++ rest) = ts ++ texts rest := by
  induction ts with
  | nil => rfl
  | cons t ts ih =>
    have hfirst : zeroEnded (t :: ts) ++ rest = t ++ 0 :: (zeroEnded ts ++ rest) := by
      unfold zeroEnded
      rw [flatMap_cons, append_assoc, append_assoc]
      rfl
    rw [hfirst, texts_cons (hts t mem_cons_self), ih fun u hu => hts u (mem_cons_of_mem t hu)]
    rfl

theorem zeroEnded_concat (ts : List Bytes) (t : Bytes) : zeroEnded (ts ++ [t]) = zeroEnded ts ++ t ++ [0] := by
  unfold zeroEnded
  rw [flatMap_append, flatMap_singleton, append_assoc]

/-- The texts in the start of a stream are the first ones. -/
theorem texts_prefix {ts : List Bytes} (hts : ∀ t ∈ ts, 0 ∉ t) {r : Bytes} (h : r <+: zeroEnded ts) : texts r <+: ts := by
  induction ts generalizing r with
  | nil =>
    rw [prefix_nil.mp h]
    exact prefix_refl _
  | cons t ts ih =>
    have hzero := hts t mem_cons_self
    have hfirst : zeroEnded (t :: ts) = t ++ [0] ++ zeroEnded ts := flatMap_cons
    rw [hfirst] at h
    rcases prefix_or_prefix_of_prefix h (prefix_append (t ++ [0]) (zeroEnded ts)) with hshort | ⟨rest, rfl⟩
    · rcases prefix_concat_iff.mp hshort with rfl | hpart
      · rw [texts_cons hzero, texts_eq_nil not_mem_nil]
        exact ⟨ts, rfl⟩
      · rw [texts_eq_nil fun hmem => hzero (hpart.mem hmem)]
        exact nil_prefix
    · rw [prefix_append_right_inj] at h
      rw [append_assoc, singleton_append, texts_cons hzero]
      exact (prefix_cons_inj t).mpr (ih (fun u hu => hts u (mem_cons_of_mem t hu)) h)

section

variable {J : Type} {parse : Bytes → Result J}

/-- Texts that parse do not stop anything. -/
theorem uptoFailure_append {ts : List Bytes} (hts : ∀ t ∈ ts, ∃ m, parse t = .ok m) (us : List Bytes) :
    uptoFailure parse (ts ++ us) = ts ++ uptoFailure parse us := by
  induction ts with
  | nil => rfl
  | cons t ts ih =>
    obtain ⟨m, hm⟩ := hts t mem_cons_self
    rw [cons_append, uptoFailure, hm]
    show t :: uptoFailure parse (ts ++ us) = _
    rw [ih fun u hu => hts u (mem_cons_of_mem t hu)]
    rfl

theorem uptoFailure_cons {t : Bytes} {er : Errno} (ht : parse t = .error er) (ts : List Bytes) :
    uptoFailure parse (t :: ts) = [t] := by
  rw [uptoFailure, ht]

end

/-! ## Sending -/

/-- The bytes that were written. -/
def OutputEvent.bytes {J : Type} : OutputEvent J → Bytes
  | .wrote bytes _ => bytes
  | _ => []

/-- The text of the message that was enqueued. -/
def OutputEvent.texts {J : Type} (format : J → Bytes) : OutputEvent J → List Bytes
  | .enqueued _ m _ => [format m]
  | _ => []

namespace VarlinkOutput

variable {J : Type} {format : J → Bytes} {o : VarlinkOutput J}

/-- The bytes that the socket accepted. -/
def written (o : VarlinkOutput J) : Bytes := o.history.flatMap OutputEvent.bytes

/-- The texts of the messages that were enqueued. -/
def enqueuedTexts (format : J → Bytes) (o : VarlinkOutput J) : List Bytes :=
  o.history.flatMap (OutputEvent.texts format)

/-- What was written, what is in the buffer and what is in the queue is what was enqueued. -/
structure Streams (format : J → Bytes) (o : VarlinkOutput J) : Prop where
  fits : o.buffer.Fits
  stream : o.written ++ o.buffer.contents ++ zeroEnded (o.queue.map fun q => format q.data) =
    zeroEnded (o.enqueuedTexts format)

theorem Streams.empty (h : o.buffer = .empty) (hqueue : o.queue = []) (hhistory : o.history = []) :
    o.Streams format where
  fits := by
    rw [h]
    exact Window.fits_empty
  stream := by
    unfold written enqueuedTexts
    rw [h, hqueue, hhistory]
    rfl

variable (format o) in
/-- Nothing but the buffer changes where a message is formatted. -/
theorem formatJson_keeps (m : J) (memory : MemoryAnswer) :
    (o.formatJson format m memory).1.history = o.history ∧ (o.formatJson format m memory).1.queue = o.queue ∧
      (o.formatJson format m memory).1.fds = o.fds ∧ (o.formatJson format m memory).1.pushedFds = o.pushedFds := by
  cases memory with
  | none => exact ⟨rfl, rfl, rfl, rfl⟩
  | some slack junk =>
    unfold formatJson
    simp only
    split_ifs
    all_goals exact ⟨rfl, rfl, rfl, rfl⟩

/-- A message is formatted behind the others, or nothing happens. -/
theorem formatJson_eq (hfits : o.buffer.Fits) (m : J) (memory : MemoryAnswer) :
    (∃ er, o.formatJson format m memory = (o, .error er)) ∨
      ∃ b : Window UInt8, o.formatJson format m memory = ({ o with buffer := b }, .ok ()) ∧ b.Fits ∧
        b.contents = o.buffer.contents ++ (format m ++ [0]) := by
  cases memory with
  | none => exact .inl ⟨_, rfl⟩
  | some slack junk =>
    unfold formatJson
    simp only
    split_ifs with hmax hempty hindex
    · exact .inl ⟨_, rfl⟩
    · refine .inr ⟨_, rfl, Window.fits_ofList _, ?_⟩
      rw [Window.contents_ofList, Window.contents_of_size_zero hempty, nil_append]
    · have hroom : o.buffer.index + o.buffer.size + (format m ++ [0]).length ≤
          (o.buffer.enlarge (o.buffer.size + (format m ++ [0]).length) slack junk).memory.length := by
        have hlength :=
          (length_greedyRealloc o.buffer.memory (o.buffer.size + (format m ++ [0]).length) slack junk).1
        rw [hindex, Nat.zero_add]
        exact hlength
      refine .inr ⟨_, rfl, Window.fits_write hroom, ?_⟩
      rw [Window.contents_write hroom, Window.contents_enlarge hfits]
    · have hle : o.buffer.size ≤ o.buffer.size + (format m ++ [0]).length := Nat.le_add_right _ _
      have hroom : 0 + o.buffer.size + (format m ++ [0]).length ≤
          (o.buffer.copyTo (o.buffer.size + (format m ++ [0]).length) slack junk).memory.length := by
        rw [Window.length_copyTo hfits hle]
        omega
      refine .inr ⟨_, rfl, Window.fits_write hroom, ?_⟩
      rw [Window.contents_write hroom, Window.contents_copyTo hfits hle]

theorem formatJson_streams (h : o.Streams format) {m : J} {memory : MemoryAnswer} {o' : VarlinkOutput J}
    (hformat : o.formatJson format m memory = (o', .ok ())) :
    o'.buffer.Fits ∧ o'.buffer.contents = o.buffer.contents ++ (format m ++ [0]) ∧ o'.queue = o.queue ∧
      o'.history = o.history ∧ o'.pushedFds = o.pushedFds ∧ o'.fds = o.fds := by
  rcases formatJson_eq h.fits m memory with ⟨er, herror⟩ | ⟨b, hok, hfits, hcontents⟩
  · rw [herror] at hformat
    cases hformat
  · rw [hok] at hformat
    cases hformat
    exact ⟨hfits, hcontents, rfl, rfl, rfl, rfl⟩

theorem formatJson_error (h : o.Streams format) {m : J} {memory : MemoryAnswer} {o' : VarlinkOutput J} {er : Errno}
    (hformat : o.formatJson format m memory = (o', .error er)) : o' = o := by
  rcases formatJson_eq h.fits m memory with ⟨er', herror⟩ | ⟨b, hok, -⟩
  · rw [herror] at hformat
    cases hformat
    rfl
  · rw [hok] at hformat
    cases hformat

/-- A message is enqueued behind the others, or nothing happens. -/
theorem Streams.enqueueJson (h : o.Streams format) (kind : VarlinkMessage) (m : J) (memory : MemoryAnswer) :
    (o.enqueueJson format kind m memory).1.Streams format := by
  have hstream := h.stream
  unfold VarlinkOutput.enqueueJson
  split_ifs with hdirect
  · cases hformat : o.formatJson format m memory with
    | mk o' r =>
      cases r with
      | error er =>
        rw [formatJson_error h hformat]
        exact h
      | ok u =>
        obtain ⟨hfits, hcontents, hqueue, hhistory, -, -⟩ := formatJson_streams h hformat
        refine ⟨hfits, ?_⟩
        unfold written enqueuedTexts at hstream ⊢
        simp only [flatMap_append, flatMap_singleton, hhistory, hqueue, hcontents, hdirect.2]
        rw [hdirect.2] at hstream
        show _ ++ [] ++ _ ++ zeroEnded [] = zeroEnded (_ ++ [format m])
        rw [zeroEnded_concat, ← hstream]
        show _ ++ [] ++ _ ++ [] = _ ++ [] ++ _ ++ _
        simp only [append_nil, append_assoc]
  · cases memory with
    | none => exact h
    | some slack junk =>
      refine ⟨h.fits, ?_⟩
      unfold written enqueuedTexts at hstream ⊢
      simp only [flatMap_append, flatMap_singleton, map_append, map_singleton]
      show _ ++ [] ++ _ ++ zeroEnded (_ ++ [format m]) = zeroEnded (_ ++ [format m])
      rw [zeroEnded_concat, zeroEnded_concat, ← hstream]
      simp only [append_nil, append_assoc]

/-- The first message of the queue goes to the buffer. -/
theorem Streams.formatted (h : o.Streams format) {q : VarlinkJsonQueueItem J} {queue : List (VarlinkJsonQueueItem J)}
    (hqueue : o.queue = q :: queue) {memory : MemoryAnswer} {o' : VarlinkOutput J}
    (hformat : o.formatJson format q.data memory = (o', .ok ())) :
    ({ o' with fds := q.fds, queue := queue } : VarlinkOutput J).Streams format := by
  obtain ⟨hfits, hcontents, -, hhistory, -, -⟩ := formatJson_streams h hformat
  have hstream := h.stream
  refine ⟨hfits, ?_⟩
  unfold written enqueuedTexts at hstream ⊢
  simp only [hhistory, hcontents, ← hstream, hqueue]
  rw [map_cons]
  unfold zeroEnded
  rw [flatMap_cons]
  simp only [append_assoc]

/-- Messages go from the queue to the buffer in their order. -/
theorem Streams.formatQueueLoop (memory : Nat → MemoryAnswer) (queue : List (VarlinkJsonQueueItem J)) :
    ∀ {o : VarlinkOutput J}, o.Streams format → o.queue = queue →
      (formatQueueLoop format memory queue o).1.Streams format := by
  induction queue with
  | nil =>
    intro o h _
    exact h
  | cons q queue ih =>
    intro o h hqueue
    unfold VarlinkOutput.formatQueueLoop
    split_ifs with hfds
    · exact h
    · cases hformat : o.formatJson format q.data (memory queue.length) with
      | mk o' r =>
        cases r with
        | error er =>
          rw [formatJson_error h hformat]
          exact h
        | ok u => exact ih (h.formatted hqueue hformat) rfl

/-- What the socket accepts is the next part of the stream. -/
theorem Streams.write (h : o.Streams format) (memory : Nat → MemoryAnswer) (answer : OutputAnswer) :
    (o.write format memory answer).1.Streams format := by
  have hqueue := h.formatQueueLoop memory o.queue rfl
  unfold VarlinkOutput.write formatQueue
  cases hformat : VarlinkOutput.formatQueueLoop format memory o.queue o with
  | mk o' r =>
    rw [hformat] at hqueue
    cases r with
    | error er => exact hqueue
    | ok u =>
      simp only
      split_ifs with hempty
      · exact hqueue
      · cases answer with
        | again | disconnected | failed er => exact hqueue
        | accepted n =>
          have hstream := hqueue.stream
          refine ⟨Window.fits_consume hqueue.fits (Nat.min_le_right _ _), ?_⟩
          unfold written enqueuedTexts at hstream ⊢
          simp only [flatMap_append, flatMap_singleton, Window.contents_consume hqueue.fits]
          show _ ++ o'.buffer.contents.take _ ++ _ ++ _ = zeroEnded (_ ++ [])
          rw [append_nil, ← hstream, append_assoc _ (o'.buffer.contents.take _), take_append_drop]

theorem Streams.pushFd (h : o.Streams format) (fd : Nat) (memory : MemoryAnswer) :
    (o.pushFd fd memory).1.Streams format := by
  cases memory with
  | none => exact h
  | some slack junk =>
    have hstream := h.stream
    refine ⟨h.fits, ?_⟩
    unfold written enqueuedTexts VarlinkOutput.pushFd at *
    simp only [flatMap_append, flatMap_singleton]
    show _ ++ [] ++ _ ++ _ = zeroEnded (_ ++ [])
    rw [append_nil, append_nil, hstream]

theorem Streams.resetFds (h : o.Streams format) : o.resetFds.Streams format := by
  have hstream := h.stream
  refine ⟨h.fits, ?_⟩
  unfold written enqueuedTexts VarlinkOutput.resetFds at *
  simp only [flatMap_append, flatMap_singleton]
  show _ ++ [] ++ _ ++ _ = zeroEnded (_ ++ [])
  rw [append_nil, append_nil, hstream]

/-- The bytes that were written are the start of the texts that were enqueued. -/
theorem Streams.written_initial (h : o.Streams format) : o.written <+: zeroEnded (o.enqueuedTexts format) := by
  rw [← h.stream, append_assoc]
  exact prefix_append _ _

end VarlinkOutput

/-! ## Receiving -/

/-- Where the first zero is. -/
theorem exists_of_idxOf {p : Bytes} : ∀ {k : Nat}, p.idxOf? 0 = some k →
    ∃ before behind, p = before ++ 0 :: behind ∧ before.length = k ∧ 0 ∉ before := by
  induction p with
  | nil =>
    intro k h
    cases h
  | cons c p ih =>
    intro k h
    rw [idxOf?_cons] at h
    split_ifs at h with hc
    · cases h
      refine ⟨[], p, ?_, rfl, not_mem_nil⟩
      rw [beq_iff_eq.mp hc]
      rfl
    · obtain ⟨j, hj, rfl⟩ := Option.map_eq_some_iff.mp h
      obtain ⟨before, behind, hp, hlength, hno⟩ := ih hj
      refine ⟨c :: before, behind, ?_, ?_, ?_⟩
      · rw [hp]
        rfl
      · rw [length_cons, hlength]
      · intro hmem
        rcases mem_cons.mp hmem with hzero | hmem
        · exact hc (beq_iff_eq.mpr hzero.symm)
        · exact hno hmem

theorem not_mem_of_idxOf {p : Bytes} (h : p.idxOf? 0 = none) : 0 ∉ p := idxOf?_eq_none_iff.mp h

theorem takeWhile_text {t : Bytes} (ht : 0 ∉ t) (rest : Bytes) :
    (t ++ 0 :: rest).takeWhile (fun c => c ≠ 0) = t := by
  rw [takeWhile_append_of_pos, takeWhile_cons_of_neg, append_nil]
  · simp
  · intro c hc
    simp only [ne_eq, decide_not, Bool.not_eq_true', decide_eq_false_iff_not]
    exact fun hzero => ht (hzero ▸ hc)

namespace VarlinkInput

variable {J : Type} {parse : Bytes → Result J} {i : VarlinkInput}

/-- The window is within its memory, and what is to be scanned is at its end. -/
structure Bounded (i : VarlinkInput) : Prop where
  fits : i.buffer.Fits
  unscanned : i.unscanned ≤ i.buffer.size

/-- What was received is the texts that were parsed, and what is in the buffer behind them. -/
structure Receives (parse : Bytes → Result J) (i : VarlinkInput) : Prop extends Bounded i where
  scanned : 0 ∉ i.buffer.contents.take (i.buffer.size - i.unscanned)
  stream : i.received = zeroEnded i.handed ++ i.buffer.contents
  noZero : ∀ t ∈ i.handed, 0 ∉ t
  parsed : ∀ t ∈ i.handed, ∃ m, parse t = .ok m

/-- The last text that was handed to the parser did not parse. -/
structure Failed (parse : Bytes → Result J) (i : VarlinkInput) : Prop extends Bounded i where
  flushed : i.unscanned = 0
  failure : ∃ ts t rest er, i.handed = ts ++ [t] ∧ i.received = zeroEnded i.handed ++ rest ∧
    (∀ u ∈ i.handed, 0 ∉ u) ∧ (∀ u ∈ ts, ∃ m, parse u = .ok m) ∧ parse t = .error er

theorem Receives.empty (h : i.buffer = .empty) (hunscanned : i.unscanned = 0) (hreceived : i.received = [])
    (hhanded : i.handed = []) : i.Receives parse := by
  refine ⟨⟨?_, ?_⟩, ?_, ?_, ?_, ?_⟩
  · rw [h]
    exact Window.fits_empty
  · rw [hunscanned]
    exact Nat.zero_le _
  · rw [h, Window.contents_empty, take_nil]
    exact not_mem_nil
  · rw [hreceived, hhanded, h]
    rfl
  · rw [hhanded]
    exact fun t ht => absurd ht not_mem_nil
  · rw [hhanded]
    exact fun t ht => absurd ht not_mem_nil

/-- Space is had without a change of what is in the buffer. -/
theorem reserve_eq (h : i.Bounded) (memory : MemoryAnswer) :
    (∃ er, i.reserve memory = .error er) ∨
      ∃ b : Window UInt8, i.reserve memory = .ok { i with buffer := b } ∧ b.Fits ∧ b.contents = i.buffer.contents ∧
        b.size = i.buffer.size ∧
        (i.buffer.size < varlinkBufferMax → b.index + b.size < b.memory.length) := by
  have hsame : ∀ hspace : ¬ i.buffer.memory.length ≤ i.buffer.index + i.buffer.size,
      ∃ b : Window UInt8, (.ok i : Result VarlinkInput) = .ok { i with buffer := b } ∧ b.Fits ∧
        b.contents = i.buffer.contents ∧ b.size = i.buffer.size ∧
        (i.buffer.size < varlinkBufferMax → b.index + b.size < b.memory.length) := fun hspace =>
    ⟨i.buffer, rfl, h.fits, rfl, rfl, fun _ => Nat.lt_of_not_le hspace⟩
  cases memory with
  | none =>
    unfold reserve
    by_cases hspace : i.buffer.memory.length ≤ i.buffer.index + i.buffer.size
    · simp only [if_pos hspace]
      exact .inl ⟨_, rfl⟩
    · simp only [if_neg hspace]
      exact .inr (hsame hspace)
  | some slack junk =>
    unfold reserve
    split_ifs with hspace hindex
    · refine .inr ⟨_, rfl, Window.fits_enlarge h.fits _ _ _, Window.contents_enlarge h.fits _ _ _, rfl, ?_⟩
      intro hmax
      have hlength := (length_greedyRealloc i.buffer.memory
        (i.buffer.size + min (varlinkBufferMax - i.buffer.size) varlinkReadSize) slack junk).1
      have hadd : 0 < min (varlinkBufferMax - i.buffer.size) varlinkReadSize := by
        unfold varlinkReadSize
        omega
      show i.buffer.index + i.buffer.size < (greedyRealloc i.buffer.memory _ slack junk).length
      omega
    · have hle : i.buffer.size ≤ i.buffer.size + min (varlinkBufferMax - i.buffer.size) varlinkReadSize :=
        Nat.le_add_right _ _
      refine .inr ⟨_, rfl, Window.fits_copyTo h.fits hle _ _, Window.contents_copyTo h.fits hle _ _, rfl, ?_⟩
      intro hmax
      have hadd : 0 < min (varlinkBufferMax - i.buffer.size) varlinkReadSize := by
        unfold varlinkReadSize
        omega
      rw [Window.length_copyTo h.fits hle]
      show 0 + i.buffer.size < _
      omega
    · exact .inr (hsame hspace)

/-- What is read is put behind what is in the buffer, or nothing is read. -/
theorem read_eq (h : i.Bounded) (allowFdPassing : Bool) (memory : MemoryAnswer) (answer : InputAnswer) :
    ∃ (b : Window UInt8) (bytes : Bytes) (fds : List Nat) (r : Result (Option Bool)),
      i.read allowFdPassing memory answer =
          ({ i with
              buffer := b
              unscanned := i.unscanned + bytes.length
              fds := fds
              received := i.received ++ bytes }, r) ∧
        b.Fits ∧ b.contents = i.buffer.contents ++ bytes ∧ b.size = i.buffer.size + bytes.length := by
  have hnothing : ∀ (b : Window UInt8) (r : Result (Option Bool)), b.Fits → b.contents = i.buffer.contents →
      b.size = i.buffer.size →
        ∃ (b' : Window UInt8) (bytes : Bytes) (fds : List Nat) (r' : Result (Option Bool)),
          (({ i with buffer := b } : VarlinkInput), r) =
              ({ i with
                  buffer := b'
                  unscanned := i.unscanned + bytes.length
                  fds := fds
                  received := i.received ++ bytes }, r') ∧
            b'.Fits ∧ b'.contents = i.buffer.contents ++ bytes ∧ b'.size = i.buffer.size + bytes.length := by
    intro b r hfits hcontents hsize
    refine ⟨b, [], i.fds, r, ?_, hfits, ?_, hsize⟩
    · rw [append_nil]
      rfl
    · rw [hcontents, append_nil]
  unfold read
  by_cases hmax : i.buffer.size ≥ varlinkBufferMax
  · rw [if_pos hmax]
    exact hnothing i.buffer _ h.fits rfl rfl
  · rw [if_neg hmax]
    rcases reserve_eq h memory with ⟨er, herror⟩ | ⟨b, hok, hfits, hcontents, hsize, -⟩
    · rw [herror]
      exact hnothing i.buffer _ h.fits rfl rfl
    · rw [hok]
      cases answer with
      | again | disconnected | failed er => exact hnothing b _ hfits hcontents hsize
      | received bytes fds =>
        simp only
        by_cases hempty : bytes.take ({ i with buffer := b } : VarlinkInput).room = []
        · rw [if_pos hempty]
          exact hnothing b _ hfits hcontents hsize
        · rw [if_neg hempty]
          by_cases hfds : allowFdPassing = true ∧ fds ≠ [] ∧ b.size ≠ 0
          · rw [if_pos hfds]
            exact hnothing b _ hfits hcontents hsize
          · rw [if_neg hfds]
            have hroom : b.index + b.size +
                (bytes.take ({ i with buffer := b } : VarlinkInput).room).length ≤ b.memory.length := by
              have hle : (bytes.take ({ i with buffer := b } : VarlinkInput).room).length ≤
                  b.memory.length - (b.index + b.size) := length_take_le _ _
              unfold Window.Fits at hfits
              omega
            refine ⟨_, bytes.take ({ i with buffer := b } : VarlinkInput).room, _, _, rfl, Window.fits_write hroom,
              ?_, ?_⟩
            · rw [Window.contents_write hroom, hcontents]
            · show b.size + _ = _
              rw [hsize]

/-- The first bytes that are read are put at the start of new memory. -/
theorem read_empty (h : i.buffer = .empty) (allowFdPassing : Bool) (junk : Nat → UInt8) {b : Bytes}
    (hne : b ≠ []) (hlength : b.length ≤ varlinkReadSize) :
    ∃ rest, i.read allowFdPassing (.some 0 junk) (.received b []) =
      ({ i with
          buffer := ⟨b ++ rest, 0, b.length⟩
          unscanned := i.unscanned + b.length
          received := i.received ++ b }, .ok (some true)) := by
  have hadd : 0 + min (varlinkBufferMax - 0) varlinkReadSize = varlinkReadSize := by decide
  have henlarge : (.empty : Window UInt8).enlarge varlinkReadSize 0 junk = ⟨allocate varlinkReadSize 0 junk, 0, 0⟩ := by
    unfold Window.enlarge Window.empty greedyRealloc
    rw [if_neg (by decide)]
    simp only [length_nil, Nat.sub_zero, nil_append]
  have hreserve : i.reserve (.some 0 junk) =
      .ok { i with buffer := ⟨allocate varlinkReadSize 0 junk, 0, 0⟩ } := by
    have hspace : i.buffer.memory.length ≤ i.buffer.index + i.buffer.size := by
      rw [h]
      exact Nat.le_refl 0
    have hindex : i.buffer.index = 0 := by
      rw [h]
      rfl
    unfold reserve
    simp only
    rw [if_pos hspace, if_pos hindex, h]
    show Except.ok { i with
      buffer := (.empty : Window UInt8).enlarge (0 + min (varlinkBufferMax - 0) varlinkReadSize) 0 junk } = _
    rw [hadd, henlarge]
  have hsize : ¬i.buffer.size ≥ varlinkBufferMax := by
    rw [h]
    show ¬0 ≥ varlinkBufferMax
    decide
  have hallocated : (allocate varlinkReadSize 0 junk).length = varlinkReadSize := length_allocate _ _ _
  unfold read
  rw [if_neg hsize, hreserve]
  generalize allocate varlinkReadSize 0 junk = memory at hallocated
  refine ⟨memory.drop b.length, ?_⟩
  have htake : b.take ({ i with buffer := ⟨memory, 0, 0⟩ } : VarlinkInput).room = b := by
    refine take_of_length_le ?_
    show b.length ≤ memory.length - 0
    omega
  have hwrite : (⟨memory, 0, 0⟩ : Window UInt8).write b = ⟨b ++ memory.drop b.length, 0, b.length⟩ := by
    unfold Window.write overwrite
    simp only [Nat.zero_add, take_zero, nil_append]
  simp only
  rw [htake, if_neg hne, if_neg (fun hfds => hfds.2.1 rfl), hwrite, append_nil, ite_self]

theorem Receives.read (h : i.Receives parse) (allowFdPassing : Bool) (memory : MemoryAnswer) (answer : InputAnswer) :
    (i.read allowFdPassing memory answer).1.Receives parse := by
  obtain ⟨b, bytes, fds, r, hread, hfits, hcontents, hsize⟩ := read_eq h.toBounded allowFdPassing memory answer
  have hunscanned := h.unscanned
  have hscanned : b.size - (i.unscanned + bytes.length) = i.buffer.size - i.unscanned := by omega
  have hlength := Window.length_contents h.fits
  rw [hread]
  refine ⟨⟨hfits, ?_⟩, ?_, ?_, h.noZero, h.parsed⟩
  · show i.unscanned + bytes.length ≤ b.size
    omega
  · show 0 ∉ b.contents.take (b.size - (i.unscanned + bytes.length))
    rw [hscanned, hcontents, take_append_of_le_length (by omega)]
    exact h.scanned
  · show i.received ++ bytes = zeroEnded i.handed ++ b.contents
    rw [hcontents, h.stream, append_assoc]

/-- The next text is the one up to the first zero. -/
theorem parseMessage_eq (h : i.Receives parse) :
    (0 ∉ i.buffer.contents ∧ i.parseMessage parse = ({ i with unscanned := 0 }, .ok none)) ∨
      ∃ text rest, i.buffer.contents = text ++ 0 :: rest ∧ 0 ∉ text ∧
        (∀ er, parse text = .error er →
          i.parseMessage parse =
            ({ i with
                handed := i.handed ++ [text]
                buffer := { i.buffer with index := 0, size := 0 }
                unscanned := 0 }, .error er)) ∧
        ∀ m, parse text = .ok m →
          i.parseMessage parse =
            ({ i with
                handed := i.handed ++ [text]
                buffer := i.buffer.consume (text.length + 1)
                unscanned := i.buffer.size - (text.length + 1) }, .ok (some m)) := by
  have hunscanned := h.unscanned
  have hlength := Window.length_contents h.fits
  have hscan : ((i.buffer.memory.drop i.buffer.index).drop (i.buffer.size - i.unscanned)).take i.unscanned =
      i.buffer.contents.drop (i.buffer.size - i.unscanned) := by
    unfold Window.contents
    rw [drop_take]
    congr 1
    omega
  have hsplit := take_append_drop (i.buffer.size - i.unscanned) i.buffer.contents
  have hbefore : (i.buffer.contents.take (i.buffer.size - i.unscanned)).length = i.buffer.size - i.unscanned := by
    rw [length_take]
    omega
  unfold parseMessage
  simp only [hscan]
  cases hzero : (i.buffer.contents.drop (i.buffer.size - i.unscanned)).idxOf? 0 with
  | none =>
    refine .inl ⟨?_, rfl⟩
    rw [← hsplit]
    exact not_mem_append h.scanned (not_mem_of_idxOf hzero)
  | some k =>
    obtain ⟨before, behind, hp, hk, hno⟩ := exists_of_idxOf hzero
    have htext : (i.buffer.memory.drop i.buffer.index).takeWhile (fun c => c ≠ 0) =
        i.buffer.contents.take (i.buffer.size - i.unscanned) ++ before := by
      have hmemory : i.buffer.memory.drop i.buffer.index =
          i.buffer.contents.take (i.buffer.size - i.unscanned) ++ before ++
            0 :: (behind ++ i.buffer.memory.drop (i.buffer.index + i.buffer.size)) := by
        rw [Window.drop_memory, ← cons_append, ← append_assoc, append_assoc _ before, ← hp, hsplit]
      rw [hmemory]
      exact takeWhile_text (not_mem_append h.scanned hno) _
    have hsz : i.buffer.size - i.unscanned + k + 1 =
        (i.buffer.contents.take (i.buffer.size - i.unscanned) ++ before).length + 1 := by
      rw [length_append, hbefore, hk]
    refine .inr ⟨i.buffer.contents.take (i.buffer.size - i.unscanned) ++ before, behind, ?_, ?_, ?_, ?_⟩
    · rw [append_assoc, ← hp, hsplit]
    · exact not_mem_append h.scanned hno
    · intro er her
      simp only [htext, her]
    · intro m hm
      simp only [htext, hm, hsz]

end VarlinkInput

/-! ## Texts at hand -/

namespace VarlinkInput

/-- Memory has nothing to do with the texts that were parsed. -/
theorem handed_reserve {i i' : VarlinkInput} {memory : MemoryAnswer} (h : i.reserve memory = .ok i') :
    i'.handed = i.handed := by
  cases memory with
  | none =>
    unfold reserve at h
    split_ifs at h
    cases h
    rfl
  | some slack junk =>
    unfold reserve at h
    split_ifs at h
    all_goals
      cases h
      rfl

/-- What is read is not parsed yet. -/
theorem handed_read (i : VarlinkInput) (allowFdPassing : Bool) (memory : MemoryAnswer) (answer : InputAnswer) :
    (i.read allowFdPassing memory answer).1.handed = i.handed := by
  unfold read
  by_cases hfull : i.buffer.size ≥ varlinkBufferMax
  · rw [if_pos hfull]
  · rw [if_neg hfull]
    cases hreserve : i.reserve memory with
    | error er => rfl
    | ok i' =>
      have hhanded := handed_reserve hreserve
      cases answer with
      | again | disconnected | failed er => exact hhanded
      | received bytes fds =>
        simp only
        split_ifs
        all_goals exact hhanded

variable {J : Type} {parse : Bytes → Result J} {i i' : VarlinkInput}

theorem handed_parseMessage (parse : Bytes → Result J) (i : VarlinkInput) :
    i.handed <+: (i.parseMessage parse).1.handed := by
  unfold parseMessage
  simp only
  split
  · exact prefix_refl _
  · split
    all_goals exact prefix_append _ _

theorem received_parseMessage (parse : Bytes → Result J) (i : VarlinkInput) :
    (i.parseMessage parse).1.received = i.received := by
  unfold parseMessage
  simp only
  split
  · rfl
  · split
    · rfl
    · rfl

theorem handed_of_parseMessage_none (h : i.parseMessage parse = (i', .ok none)) : i'.handed = i.handed := by
  unfold parseMessage at h
  simp only at h
  split at h
  · cases h
    rfl
  · split at h
    all_goals cases h

/-- A message that was parsed is the next text. -/
theorem handed_of_parseMessage_some {m : J} (h : i.parseMessage parse = (i', .ok (some m))) :
    ∃ text, parse text = .ok m ∧ i'.handed = i.handed ++ [text] := by
  unfold parseMessage at h
  simp only at h
  split at h
  · cases h
  · split at h
    · cases h
    · next m' hparse =>
      cases h
      exact ⟨_, hparse, rfl⟩

end VarlinkInput

end Elogind
