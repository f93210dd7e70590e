/-
  Elogind.Varlink.Descriptors

  Descriptors that are passed along with messages.  A ledger over what happened says which descriptors belong to
  which message, where in the stream each message starts and where the socket was given descriptors.  They travel
  with their messages in every run in which no error is sent while there are descriptors, and in which a message
  with descriptors is formatted into an empty buffer only.
-/

import Elogind.Varlink.Methods

namespace Elogind

open Lib Errno List Varlink

/-! ## Ledgers -/

/-- What was pushed, enqueued and written. -/
structure DescriptorLedger where
  /-- What was pushed since the last message was enqueued. -/
  pending : List Nat
  /-- Where in the stream the next message starts. -/
  offset : Nat
  /-- Where the messages start, and the descriptors that belong to each. -/
  messages : List (Nat × List Nat)
  /-- How much of the stream was written. -/
  written : Nat
  /-- Where in the stream the writes start, and the descriptors with each. -/
  carried : List (Nat × List Nat)

/-- One more thing that happened: no descriptors belong to an error. -/
def DescriptorLedger.record {J : Type} (format : J → Bytes) (l : DescriptorLedger) : OutputEvent J → DescriptorLedger
  | .pushed fd => { l with pending := l.pending ++ [fd] }
  | .enqueued kind m _ =>
    { l with
      pending := []
      offset := l.offset + ((format m).length + 1)
      messages := l.messages ++ [(l.offset, if kind = .error then [] else l.pending)] }
  | .wrote bytes fds =>
    { l with written := l.written + bytes.length, carried := l.carried ++ [(l.written, fds)] }
  | .closed _ => l

/-- The descriptors that were pushed, sent and closed. -/
def OutputEvent.pushedFds {J : Type} : OutputEvent J → List Nat
  | .pushed fd => [fd]
  | _ => []

def OutputEvent.sentFds {J : Type} : OutputEvent J → List Nat
  | .wrote _ fds => fds
  | _ => []

def OutputEvent.closedFds {J : Type} : OutputEvent J → List Nat
  | .closed fds => fds
  | _ => []

namespace VarlinkOutput

variable {J : Type} (format : J → Bytes)

def ledger (o : VarlinkOutput J) : DescriptorLedger :=
  o.history.foldl (DescriptorLedger.record format) ⟨[], 0, [], 0, []⟩

/-- Every descriptor that was pushed is in one place. -/
def Places (o : VarlinkOutput J) : Prop :=
  (o.history.flatMap OutputEvent.pushedFds).Perm
    (o.pushedFds ++ o.queue.flatMap VarlinkJsonQueueItem.fds ++ o.fds ++
      o.history.flatMap OutputEvent.sentFds ++ o.history.flatMap OutputEvent.closedFds)

/-- Every write that carries descriptors starts where the message starts that they belong to, and the one that
    starts such a message carries them.  Every descriptor that was pushed is in one place. -/
structure Travels (o : VarlinkOutput J) : Prop where
  carried : ∀ x ∈ (o.ledger format).carried, x.2 ≠ [] → x ∈ (o.ledger format).messages
  sent : ∀ x ∈ (o.ledger format).messages, x.2 ≠ [] → x.1 < (o.ledger format).written →
    x ∈ (o.ledger format).carried
  places : o.Places

/-- Where these messages start, when the first one starts here, and their descriptors. -/
def starts : Nat → List (VarlinkJsonQueueItem J) → List (Nat × List Nat)
  | _, [] => []
  | n, q :: queue => (n, q.fds) :: starts (n + ((format q.data).length + 1)) queue

/-- The messages that were formatted: those with descriptors started a write with these, or will start the next
    one. -/
structure Formatted (l : DescriptorLedger) (fds : List Nat) (formatted : List (Nat × List Nat)) : Prop where
  carried : ∀ x ∈ l.carried, x.2 ≠ [] → x ∈ formatted
  sent : ∀ x ∈ formatted, x.2 ≠ [] → x ∈ l.carried ∨ x = (l.written, fds)
  next : fds ≠ [] → (l.written, fds) ∈ formatted

/-- Up to here, descriptors travelled with their messages. -/
structure Carries (o : VarlinkOutput J) : Prop where
  streams : o.Streams format
  pending : (o.ledger format).pending = o.pushedFds
  offset : (o.ledger format).offset =
    (o.ledger format).written + o.buffer.size + (zeroEnded (o.queue.map fun q => format q.data)).length
  messages : ∃ formatted,
    (o.ledger format).messages = formatted ++ starts format ((o.ledger format).written + o.buffer.size) o.queue ∧
      Formatted (o.ledger format) o.fds formatted

variable {format} {o o' : VarlinkOutput J}

theorem ledger_concat {e : OutputEvent J} (h : o'.history = o.history ++ [e]) :
    o'.ledger format = (o.ledger format).record format e := by
  unfold ledger
  rw [h, foldl_append]
  rfl

theorem ledger_congr (h : o'.history = o.history) : o'.ledger format = o.ledger format := by
  unfold ledger
  rw [h]

theorem length_zeroEnded_concat (ts : List Bytes) (t : Bytes) :
    (zeroEnded (ts ++ [t])).length = (zeroEnded ts).length + (t.length + 1) := by
  rw [zeroEnded_concat, length_append, length_append, length_singleton, Nat.add_assoc]

theorem length_zeroEnded_cons (t : Bytes) (ts : List Bytes) :
    (zeroEnded (t :: ts)).length = t.length + 1 + (zeroEnded ts).length := by
  unfold zeroEnded
  rw [flatMap_cons, length_append, length_append, length_singleton]

/-- One more message starts where the others end. -/
theorem starts_concat (n : Nat) (queue : List (VarlinkJsonQueueItem J)) (q : VarlinkJsonQueueItem J) :
    starts format n (queue ++ [q]) =
      starts format n queue ++ [(n + (zeroEnded (queue.map fun q => format q.data)).length, q.fds)] := by
  induction queue generalizing n with
  | nil => rfl
  | cons p queue ih =>
    rw [cons_append, starts, starts, ih, map_cons, length_zeroEnded_cons, Nat.add_assoc n]
    rfl

theorem le_of_mem_starts {queue : List (VarlinkJsonQueueItem J)} {n : Nat} {x : Nat × List Nat}
    (h : x ∈ starts format n queue) : n ≤ x.1 := by
  induction queue generalizing n with
  | nil => exact absurd h not_mem_nil
  | cons q queue ih =>
    rcases mem_cons.mp h with rfl | h
    · exact Nat.le_refl _
    · have hle := ih h
      omega

theorem Carries.empty (h : o.buffer = .empty) (hqueue : o.queue = []) (hfds : o.fds = []) (hpushed : o.pushedFds = [])
    (hhistory : o.history = []) : o.Carries format := by
  have hledger : o.ledger format = ⟨[], 0, [], 0, []⟩ := by
    unfold ledger
    rw [hhistory]
    rfl
  refine ⟨.empty h hqueue hhistory, ?_, ?_, [], ?_, ?_⟩
  · rw [hledger, hpushed]
  · rw [hledger, h, hqueue]
    rfl
  · rw [hledger, hqueue]
    rfl
  · rw [hledger, hfds]
    exact ⟨fun x hx => absurd hx not_mem_nil, fun x hx => absurd hx not_mem_nil, fun hne => absurd rfl hne⟩

/-- Descriptors that travel with their messages did so. -/
theorem Carries.travels (h : o.Carries format) (hplaces : o.Places) : o.Travels format := by
  obtain ⟨formatted, hmessages, hformatted⟩ := h.messages
  refine ⟨fun x hx hne => ?_, fun x hx hne hlt => ?_, hplaces⟩
  · rw [hmessages]
    exact mem_append_left _ (hformatted.carried x hx hne)
  · rw [hmessages] at hx
    rcases mem_append.mp hx with hx | hx
    · rcases hformatted.sent x hx hne with hcarried | rfl
      · exact hcarried
      · exact absurd hlt (Nat.lt_irrefl _)
    · have hle := le_of_mem_starts hx
      omega

/-! ## Steps -/

theorem Carries.pushFd (h : o.Carries format) (fd : Nat) (memory : MemoryAnswer) :
    (o.pushFd fd memory).1.Carries format := by
  cases memory with
  | none => exact h
  | some slack junk =>
    have hledger : (o.pushFd fd (.some slack junk)).1.ledger format = _ := ledger_concat rfl
    refine ⟨h.streams.pushFd fd _, ?_, ?_, ?_⟩
    · rw [hledger]
      show (o.ledger format).pending ++ [fd] = o.pushedFds ++ [fd]
      rw [h.pending]
    · rw [hledger]
      exact h.offset
    · rw [hledger]
      obtain ⟨formatted, hmessages, hformatted⟩ := h.messages
      exact ⟨formatted, hmessages, ⟨hformatted.carried, hformatted.sent, hformatted.next⟩⟩

/-- Without descriptors to be sent there are none to be closed. -/
theorem Carries.resetFds (h : o.Carries format) (hfds : o.fds = []) : o.resetFds.Carries format := by
  have hledger : o.resetFds.ledger format = _ := ledger_concat rfl
  refine ⟨h.streams.resetFds, ?_, ?_, ?_⟩
  · rw [hledger]
    exact h.pending
  · rw [hledger]
    exact h.offset
  · rw [hledger]
    obtain ⟨formatted, hmessages, hformatted⟩ := h.messages
    rw [hfds] at hformatted
    exact ⟨formatted, hmessages, hformatted⟩

theorem size_formatJson (h : o.Streams format) {m : J} {memory : MemoryAnswer}
    (hformat : o.formatJson format m memory = (o', .ok ())) :
    o'.buffer.size = o.buffer.size + ((format m).length + 1) := by
  obtain ⟨hfits, hcontents, -⟩ := formatJson_streams h hformat
  rw [← Window.length_contents hfits, hcontents, length_append, Window.length_contents h.fits,
    length_append, length_singleton]

/-- A message is enqueued with what was pushed before it, and an error where nothing was. -/
theorem Carries.enqueueJson (h : o.Carries format) {kind : VarlinkMessage}
    (hkind : kind = .error → o.pushedFds = []) (m : J) (memory : MemoryAnswer) :
    (o.enqueueJson format kind m memory).1.Carries format := by
  have hpending : (if kind = .error then [] else (o.ledger format).pending) = o.pushedFds := by
    split_ifs with herror
    · exact (hkind herror).symm
    · exact h.pending
  have hstreams := h.streams.enqueueJson kind m memory
  obtain ⟨formatted, hmessages, hformatted⟩ := h.messages
  have hoffset := h.offset
  unfold VarlinkOutput.enqueueJson at hstreams ⊢
  by_cases hdirect : o.pushedFds = [] ∧ o.queue = []
  · rw [if_pos hdirect] at hstreams ⊢
    -- the message goes into the buffer at once
    cases hformat : o.formatJson format m memory with
    | mk o' r =>
      rw [hformat] at hstreams
      cases r with
      | error er =>
        rw [formatJson_error h.streams hformat]
        exact h
      | ok u =>
        obtain ⟨-, -, hqueue, hhistory, hpushed, hfds⟩ := formatJson_streams h.streams hformat
        have hsize := size_formatJson h.streams hformat
        have hledger : ({ o' with history := o'.history ++ [.enqueued kind m []] } : VarlinkOutput J).ledger format =
            (o.ledger format).record format (.enqueued kind m []) := ledger_concat (by rw [hhistory])
        rw [hdirect.2] at hoffset hmessages
        rw [hdirect.1] at hpending
        refine ⟨hstreams, ?_, ?_, formatted ++ [((o.ledger format).offset, [])], ?_, ?_⟩
        · rw [hledger]
          show [] = o'.pushedFds
          rw [hpushed, hdirect.1]
        · rw [hledger]
          show (o.ledger format).offset + _ = (o.ledger format).written + o'.buffer.size + _
          rw [hsize, hoffset]
          show _ + 0 + _ = _ + (zeroEnded (o'.queue.map _)).length
          rw [hqueue, hdirect.2]
          show _ = _ + 0
          omega
        · rw [hledger]
          show (o.ledger format).messages ++ [((o.ledger format).offset, ite _ _ _)] =
            _ ++ starts format _ o'.queue
          rw [hqueue, hdirect.2, hpending, hmessages]
          show formatted ++ [] ++ _ = _ ++ []
          rw [append_nil, append_nil]
        · rw [hledger]
          show Formatted _ o'.fds _
          rw [hfds]
          refine ⟨fun x hx hne => mem_append_left _ (hformatted.carried x hx hne), fun x hx hne => ?_,
            fun hne => mem_append_left _ (hformatted.next hne)⟩
          rcases mem_append.mp hx with hx | hx
          · exact hformatted.sent x hx hne
          · rw [mem_singleton.mp hx] at hne
            exact absurd rfl hne
  · rw [if_neg hdirect] at hstreams ⊢
    cases memory with
    | none => exact h
    | some slack junk =>
      -- the message waits in the queue, with the descriptors pushed so far
      have hledger : ({ o with
          queue := o.queue ++ [⟨m, o.pushedFds⟩]
          pushedFds := []
          history := o.history ++ [.enqueued kind m o.pushedFds] } : VarlinkOutput J).ledger format =
            (o.ledger format).record format (.enqueued kind m o.pushedFds) := ledger_concat rfl
      refine ⟨hstreams, ?_, ?_, formatted, ?_, ?_⟩
      · rw [hledger]
        rfl
      · rw [hledger]
        show (o.ledger format).offset + _ = _ + _ + (zeroEnded (map _ (o.queue ++ [_]))).length
        rw [map_append, map_singleton, length_zeroEnded_concat, hoffset, Nat.add_assoc]
        rfl
      · rw [hledger]
        show (o.ledger format).messages ++ [((o.ledger format).offset, ite _ _ _)] =
          formatted ++ starts format ((o.ledger format).written + o.buffer.size) (o.queue ++ [_])
        rw [starts_concat, hpending, hmessages, hoffset, append_assoc]
      · rw [hledger]
        exact ⟨hformatted.carried, hformatted.sent, hformatted.next⟩

/-- A message with descriptors is not formatted behind others that are not written yet. -/
def Separate (o : VarlinkOutput J) : Prop :=
  o.fds ≠ [] ∨ (∀ q ∈ o.queue, q.fds = []) ∨ o.buffer.size = 0 ∧ ∃ q queue, o.queue = q :: queue ∧ q.fds ≠ []

/-- A message from the queue is formatted where it starts. -/
theorem Carries.formatted (h : o.Carries format) (hfds : o.fds = []) {q : VarlinkJsonQueueItem J}
    {queue : List (VarlinkJsonQueueItem J)} (hqueue : o.queue = q :: queue) (hempty : q.fds ≠ [] → o.buffer.size = 0)
    {memory : MemoryAnswer} (hformat : o.formatJson format q.data memory = (o', .ok ())) :
    ({ o' with fds := q.fds, queue := queue } : VarlinkOutput J).Carries format := by
  obtain ⟨-, -, -, hhistory, hpushed, -⟩ := formatJson_streams h.streams hformat
  have hsize := size_formatJson h.streams hformat
  have hledger : ({ o' with fds := q.fds, queue := queue } : VarlinkOutput J).ledger format = o.ledger format :=
    ledger_congr hhistory
  obtain ⟨formatted, hmessages, hformatted⟩ := h.messages
  have hoffset := h.offset
  rw [hqueue] at hmessages hoffset
  rw [map_cons, length_zeroEnded_cons] at hoffset
  refine ⟨h.streams.formatted hqueue hformat, ?_, ?_,
    formatted ++ [((o.ledger format).written + o.buffer.size, q.fds)], ?_, ?_⟩
  · rw [hledger]
    show _ = o'.pushedFds
    rw [hpushed]
    exact h.pending
  · rw [hledger, hoffset]
    show _ = (o.ledger format).written + o'.buffer.size + _
    rw [hsize]
    simp only [Nat.add_assoc]
  · rw [hledger, hmessages]
    show formatted ++ (_ :: starts format _ queue) = _ ++ [_] ++ starts format (_ + o'.buffer.size) queue
    rw [hsize, append_assoc, Nat.add_assoc _ o.buffer.size]
    rfl
  · rw [hledger]
    refine ⟨fun x hx hne => mem_append_left _ (hformatted.carried x hx hne), fun x hx hne => ?_, fun hne => ?_⟩
    · rcases mem_append.mp hx with hx | hx
      · rcases hformatted.sent x hx hne with hcarried | rfl
        · exact .inl hcarried
        · exact absurd hfds hne
      · rw [mem_singleton.mp hx] at hne ⊢
        refine .inr ?_
        rw [hempty hne, Nat.add_zero]
    · refine mem_append_right _ ?_
      rw [hempty hne, Nat.add_zero]
      exact mem_singleton_self _

/-- Where messages with descriptors are kept apart, formatting the queue keeps them apart. -/
theorem Carries.formatQueueLoop (memory : Nat → MemoryAnswer) (queue : List (VarlinkJsonQueueItem J)) :
    ∀ {o : VarlinkOutput J}, o.Carries format → o.Separate → o.queue = queue →
      (formatQueueLoop format memory queue o).1.Carries format := by
  induction queue with
  | nil =>
    intro o h _ _
    exact h
  | cons q queue ih =>
    intro o h hseparate hqueue
    unfold VarlinkOutput.formatQueueLoop
    by_cases hfds : o.fds ≠ []
    · rw [if_pos hfds]
      exact h
    · rw [if_neg hfds]
      have hnone : o.fds = [] := not_not.mp hfds
      cases hformat : o.formatJson format q.data (memory queue.length) with
      | mk o' r =>
        cases r with
        | error er =>
          rw [formatJson_error h.streams hformat]
          exact h
        | ok u =>
          -- the rest of the queue is formatted only if this message has no descriptors
          have hempty : q.fds ≠ [] → o.buffer.size = 0 := by
            intro hne
            rcases hseparate with hsome | hall | ⟨hsize, -⟩
            · exact absurd hnone hsome
            · exact absurd (hall q (hqueue ▸ mem_cons_self)) hne
            · exact hsize
          refine ih (h.formatted hnone hqueue hempty hformat) ?_ rfl
          by_cases hne : q.fds = []
          · refine .inr (.inl fun p hp => ?_)
            rcases hseparate with hsome | hall | ⟨-, q', queue', hqueue', hne'⟩
            · exact absurd hnone hsome
            · exact hall p (hqueue ▸ mem_cons_of_mem q hp)
            · rw [hqueue] at hqueue'
              cases hqueue'
              exact absurd hne hne'
          · exact .inl hne

/-- What the socket accepts carries the descriptors of the message it starts with. -/
theorem Carries.write (h : o.Carries format) (hseparate : o.Separate) (memory : Nat → MemoryAnswer)
    (answer : OutputAnswer) : (o.write format memory answer).1.Carries format := by
  have hqueue := h.formatQueueLoop memory o.queue hseparate rfl
  have hstreams := h.streams.write memory answer
  unfold VarlinkOutput.write formatQueue at hstreams ⊢
  cases hformat : VarlinkOutput.formatQueueLoop format memory o.queue o with
  | mk o' r =>
    rw [hformat] at hqueue hstreams
    replace hqueue : o'.Carries format := hqueue
    cases r with
    | error er => exact hqueue
    | ok u =>
      simp only at hstreams ⊢
      by_cases hempty : o'.buffer.size = 0
      · rw [if_pos hempty]
        exact hqueue
      · rw [if_neg hempty] at hstreams ⊢
        cases answer with
        | again | disconnected | failed er => exact hqueue
        | accepted n =>
          simp only at hstreams ⊢
          generalize ho : ({ o' with
            buffer := o'.buffer.consume (min n o'.buffer.size)
            fds := []
            history := o'.history ++ [.wrote (o'.buffer.contents.take (min n o'.buffer.size)) o'.fds] } :
              VarlinkOutput J) = w at hstreams ⊢
          have hledger : w.ledger format = (o'.ledger format).record format
              (.wrote (o'.buffer.contents.take (min n o'.buffer.size)) o'.fds) := ledger_concat (by rw [← ho])
          have hlength : (o'.buffer.contents.take (min n o'.buffer.size)).length = min n o'.buffer.size := by
            rw [length_take, Window.length_contents hqueue.streams.fits]
            omega
          have hwritten : (w.ledger format).written + w.buffer.size = (o'.ledger format).written + o'.buffer.size := by
            rw [hledger, ← ho]
            show (o'.ledger format).written + (o'.buffer.contents.take _).length +
              (o'.buffer.size - min n o'.buffer.size) = _
            omega
          obtain ⟨formatted, hmessages, hformatted⟩ := hqueue.messages
          refine ⟨hstreams, ?_, ?_, formatted, ?_, ?_⟩
          · rw [hledger, ← ho]
            exact hqueue.pending
          · rw [hwritten, hledger, ← ho]
            exact hqueue.offset
          · rw [hwritten, hledger, ← ho]
            exact hmessages
          · rw [hledger, ← ho]
            refine ⟨fun x hx hne => ?_, fun x hx hne => ?_, fun hne => absurd rfl hne⟩
            · rcases mem_append.mp hx with hx | hx
              · exact hformatted.carried x hx hne
              · rw [mem_singleton.mp hx] at hne ⊢
                exact hformatted.next hne
            · refine .inl (mem_append.mpr ?_)
              rcases hformatted.sent x hx hne with hcarried | rfl
              · exact .inl hcarried
              · exact .inr (mem_singleton_self _)

/-! ## Places -/

theorem Places.empty (hqueue : o.queue = []) (hfds : o.fds = []) (hpushed : o.pushedFds = [])
    (hhistory : o.history = []) : o.Places := by
  unfold Places
  rw [hqueue, hfds, hpushed, hhistory]
  exact .refl _

theorem Places.iff : o.Places ↔ ∀ fd, (o.history.flatMap OutputEvent.pushedFds).count fd =
    o.pushedFds.count fd + (o.queue.flatMap VarlinkJsonQueueItem.fds).count fd + o.fds.count fd +
      (o.history.flatMap OutputEvent.sentFds).count fd + (o.history.flatMap OutputEvent.closedFds).count fd := by
  unfold Places
  rw [perm_iff_count]
  simp only [count_append]

/-- What is moved by something that happens is still in one place. -/
theorem Places.concat (h : o.Places) (e : OutputEvent J) (hhistory : o'.history = o.history ++ [e])
    (hmoved : ∀ fd, o'.pushedFds.count fd + (o'.queue.flatMap VarlinkJsonQueueItem.fds).count fd + o'.fds.count fd +
        e.sentFds.count fd + e.closedFds.count fd =
      o.pushedFds.count fd + (o.queue.flatMap VarlinkJsonQueueItem.fds).count fd + o.fds.count fd +
        e.pushedFds.count fd) : o'.Places := by
  rw [Places.iff] at h ⊢
  intro fd
  have hcount := h fd
  have hfd := hmoved fd
  rw [hhistory]
  simp only [flatMap_append, flatMap_singleton, count_append]
  omega

theorem Places.congr (h : o.Places) (hhistory : o'.history = o.history) (hpushed : o'.pushedFds = o.pushedFds)
    (hplaces : ∀ fd, (o'.queue.flatMap VarlinkJsonQueueItem.fds).count fd + o'.fds.count fd =
      (o.queue.flatMap VarlinkJsonQueueItem.fds).count fd + o.fds.count fd) : o'.Places := by
  rw [Places.iff] at h ⊢
  intro fd
  have hfd := h fd
  have hmoved := hplaces fd
  rw [hhistory, hpushed]
  omega

theorem Places.pushFd (h : o.Places) (fd : Nat) (memory : MemoryAnswer) : (o.pushFd fd memory).1.Places := by
  cases memory with
  | none => exact h
  | some slack junk =>
    refine h.concat (.pushed fd) rfl fun fd' => ?_
    show (o.pushedFds ++ [fd]).count fd' + (o.queue.flatMap VarlinkJsonQueueItem.fds).count fd' + o.fds.count fd' +
      0 + 0 = _ + _ + _ + [fd].count fd'
    rw [count_append]
    omega

theorem Places.resetFds (h : o.Places) : o.resetFds.Places := by
  refine h.concat (.closed o.fds) rfl fun fd => ?_
  show o.pushedFds.count fd + (o.queue.flatMap VarlinkJsonQueueItem.fds).count fd + 0 + 0 + o.fds.count fd =
    _ + _ + _ + 0
  omega

theorem Places.enqueueJson (h : o.Places) (kind : VarlinkMessage) (m : J) (memory : MemoryAnswer) :
    (o.enqueueJson format kind m memory).1.Places := by
  unfold VarlinkOutput.enqueueJson
  by_cases hdirect : o.pushedFds = [] ∧ o.queue = []
  · rw [if_pos hdirect]
    obtain ⟨hhistory, hqueue, hfds, hpushed⟩ := formatJson_keeps format o m memory
    cases hformat : o.formatJson format m memory with
    | mk o' r =>
      rw [hformat] at hhistory hqueue hfds hpushed
      have hformatted : o'.Places := h.congr hhistory hpushed fun fd => by rw [hqueue, hfds]
      cases r with
      | error er => exact hformatted
      | ok u =>
        exact hformatted.concat (.enqueued kind m []) rfl fun fd => rfl
  · rw [if_neg hdirect]
    cases memory with
    | none => exact h
    | some slack junk =>
      refine h.concat (.enqueued kind m o.pushedFds) rfl fun fd => ?_
      show 0 + ((o.queue ++ [(⟨m, o.pushedFds⟩ : VarlinkJsonQueueItem J)]).flatMap VarlinkJsonQueueItem.fds).count fd + o.fds.count fd + 0 + 0 =
        o.pushedFds.count fd + _ + _ + 0
      rw [flatMap_append, flatMap_singleton, count_append]
      show 0 + (_ + o.pushedFds.count fd) + _ + 0 + 0 = _
      omega

variable (format) in
/-- The descriptors of a message go with it from the queue. -/
theorem Places.formatQueueLoop (memory : Nat → MemoryAnswer) (queue : List (VarlinkJsonQueueItem J)) :
    ∀ {o : VarlinkOutput J}, o.Places → o.queue = queue → (formatQueueLoop format memory queue o).1.Places := by
  induction queue with
  | nil =>
    intro o h _
    exact h
  | cons q queue ih =>
    intro o h hqueue
    unfold VarlinkOutput.formatQueueLoop
    by_cases hfds : o.fds ≠ []
    · rw [if_pos hfds]
      exact h
    · rw [if_neg hfds]
      obtain ⟨hhistory, hqueue', hfds', hpushed⟩ :=
        formatJson_keeps format o q.data (memory queue.length)
      cases hformat : o.formatJson format q.data (memory queue.length) with
      | mk o' r =>
        rw [hformat] at hhistory hqueue' hfds' hpushed
        cases r with
        | error er => exact h.congr hhistory hpushed fun fd => by rw [hqueue', hfds']
        | ok u =>
          refine ih (h.congr hhistory hpushed fun fd => ?_) rfl
          rw [hqueue, not_not.mp hfds, flatMap_cons, count_append]
          show (queue.flatMap VarlinkJsonQueueItem.fds).count fd + q.fds.count fd = _ + _ + 0
          omega

variable (format) in
theorem Places.write (h : o.Places) (memory : Nat → MemoryAnswer) (answer : OutputAnswer) :
    (o.write format memory answer).1.Places := by
  have hqueue := h.formatQueueLoop format memory o.queue rfl
  unfold VarlinkOutput.write formatQueue
  cases hformat : VarlinkOutput.formatQueueLoop format memory o.queue o with
  | mk o' r =>
    rw [hformat] at hqueue
    replace hqueue : o'.Places := hqueue
    cases r with
    | error er => exact hqueue
    | ok u =>
      simp only
      split_ifs
      · exact hqueue
      · cases answer with
        | again | disconnected | failed er => exact hqueue
        | accepted n =>
          refine hqueue.concat (.wrote _ o'.fds) rfl fun fd => ?_
          show o'.pushedFds.count fd + (o'.queue.flatMap VarlinkJsonQueueItem.fds).count fd + 0 + o'.fds.count fd + 0 =
            _ + _ + _ + 0
          omega

end VarlinkOutput

/-! ## Runs -/

/-- What is done with descriptors and messages. -/
inductive DescriptorStep (R : Type) where
  | pushFd (fd : Nat) (memory : MemoryAnswer)
  | send (method : Bytes) (parameters : Option (Json R)) (memory : MemoryAnswer)
  | invoke (method : Bytes) (parameters : Option (Json R)) (memory : MemoryAnswer)
  | observe (method : Bytes) (parameters : Option (Json R)) (memory : MemoryAnswer)
  | reply (parameters : Option (Json R)) (memory : MemoryAnswer)
  | notify (parameters : Option (Json R)) (memory : MemoryAnswer)
  | error (errorId : Bytes) (parameters : Option (Json R)) (memory : MemoryAnswer)
  | write (memory : Nat → MemoryAnswer) (answer : OutputAnswer)
  /-- Something that is not about sending. -/
  | other

namespace Varlink

variable {R : Type} (format : Json R → Bytes)

def descriptorStep (v : Varlink (Json R)) : DescriptorStep R → Varlink (Json R) → Prop
  | .pushFd fd memory, w => w = (v.pushFd fd memory).1
  | .send method parameters memory, w => w = (v.sdVarlinkSend format method parameters memory).1
  | .invoke method parameters memory, w => w = (v.sdVarlinkInvoke format method parameters memory).1
  | .observe method parameters memory, w => w = (v.sdVarlinkObserve format method parameters memory).1
  | .reply parameters memory, w => w = (v.sdVarlinkReply format parameters memory).1
  | .notify parameters memory, w => w = (v.sdVarlinkNotify format parameters memory).1
  | .error errorId parameters memory, w => w = (v.sdVarlinkError format errorId parameters memory).1
  | .write memory answer, w => w = (v.write format memory answer).1
  | .other, w => w.output = v.output

/-- An error is sent where there are no descriptors, and a message with descriptors is not formatted behind
    others that are not written yet. -/
def Careful (v : Varlink (Json R)) : DescriptorStep R → Prop
  | .error _ _ _ => answerable v.state = true → v.output.fds = [] ∧ v.output.pushedFds = []
  | .notify _ _ =>
    v.state = .processingMethod ∨ v.state = .pendingMethod → v.output.fds = [] ∧ v.output.pushedFds = []
  | .write _ _ =>
    v.state.isAlive = true → v.connecting = false → v.writeDisconnected = false → v.output.Separate
  | _ => True

variable {format} {v w : Varlink (Json R)}

/-- A message that is no error is enqueued, or nothing is. -/
def Enqueues (format : Json R → Bytes) (v w : Varlink (Json R)) : Prop :=
  w.output = v.output ∨
    ∃ kind m memory, kind ≠ .error ∧ w.output = (v.output.enqueueJson format kind m memory).1

theorem output_enqueueJson (v : Varlink (Json R)) (kind : VarlinkMessage) (m : Json R) (memory : MemoryAnswer) :
    (v.enqueueJson format kind m memory).1.output = (v.output.enqueueJson format kind m memory).1 := by
  unfold enqueueJson
  cases v.output.enqueueJson format kind m memory with
  | mk o r =>
    cases r with
    | error er | ok u => rfl

theorem enqueues_enqueueCall {states : List VarlinkState} {kind : VarlinkMessage} (hkind : kind ≠ .error)
    (method : Bytes) (parameters : Option (Json R)) (flag : List (Bytes × Json R)) (memory : MemoryAnswer) :
    Enqueues format v (v.enqueueCall format states kind method parameters flag memory).1 := by
  unfold enqueueCall
  split_ifs
  · exact .inl rfl
  · cases varlinkSanitizeParameters parameters with
    | error er => exact .inl rfl
    | ok p => exact .inr ⟨kind, _, memory, hkind, output_enqueueJson v kind _ memory⟩
  · exact .inl rfl

theorem output_await (x : Varlink (Json R) × Result Unit) (state : VarlinkState) :
    (await x state).1.output = x.1.output := by
  obtain ⟨v, r⟩ := x
  cases r with
  | error er | ok u => rfl

theorem output_answered (v : Varlink (Json R)) : v.answered.output = v.output := by
  unfold answered
  split_ifs
  · rfl
  · rfl

theorem enqueues_sdVarlinkReply (parameters : Option (Json R)) (memory : MemoryAnswer) :
    Enqueues format v (v.sdVarlinkReply format parameters memory).1 := by
  unfold sdVarlinkReply
  split_ifs
  · exact .inl rfl
  · exact .inl rfl
  · cases varlinkSanitizeParameters parameters with
    | error er => exact .inl rfl
    | ok p =>
      refine .inr ⟨.reply, .object [(ascii "parameters", p)], memory, by decide, ?_⟩
      rw [← output_enqueueJson]
      simp only
      cases v.enqueueJson format .reply (.object [(ascii "parameters", p)]) memory with
      | mk w r =>
        cases r with
        | error er => rfl
        | ok u => exact output_answered w

/-- An error closes descriptors and is enqueued perhaps, in states in which calls are answered. -/
theorem output_sdVarlinkError (v : Varlink (Json R)) (errorId : Bytes) (parameters : Option (Json R))
    (memory : MemoryAnswer) :
    (v.sdVarlinkError format errorId parameters memory).1.output = v.output ∨ answerable v.state = true ∧
      ((v.sdVarlinkError format errorId parameters memory).1.output = v.output.resetFds ∨
        ∃ m, (v.sdVarlinkError format errorId parameters memory).1.output =
          (v.output.resetFds.enqueueJson format .error m memory).1) := by
  unfold sdVarlinkError
  by_cases hclosed : v.state = .disconnected
  · rw [if_pos hclosed]
    exact .inl rfl
  · rw [if_neg hclosed]
    by_cases hs : answerable v.state = true
    · rw [if_neg (by rw [hs]; exact Bool.false_ne_true)]
      refine .inr ⟨hs, ?_⟩
      cases varlinkSanitizeParameters parameters with
      | error er => exact .inl rfl
      | ok p =>
        refine .inr ⟨.object [(ascii "error", .ofString errorId), (ascii "parameters", p)], ?_⟩
        have houtput := @output_enqueueJson R format { v with output := v.output.resetFds } .error
          (.object [(ascii "error", .ofString errorId), (ascii "parameters", p)]) memory
        show _ = (({ v with output := v.output.resetFds } : Varlink (Json R)).output.enqueueJson _ _ _ _).1
        rw [← houtput]
        simp only
        cases ({ v with output := v.output.resetFds } : Varlink (Json R)).enqueueJson format .error
            (.object [(ascii "error", .ofString errorId), (ascii "parameters", p)]) memory with
        | mk w r =>
          cases r with
          | error er => rfl
          | ok u => exact output_answered w
    · rw [if_pos (by simpa using hs)]
      exact .inl rfl

/-- Descriptors travelled with their messages, and each is in one place. -/
structure CarriesPlaced (format : Json R → Bytes) (v : Varlink (Json R)) : Prop where
  carries : v.output.Carries format
  places : v.output.Places

theorem CarriesPlaced.congr (h : v.CarriesPlaced format) (houtput : w.output = v.output) : w.CarriesPlaced format :=
  ⟨houtput ▸ h.carries, houtput ▸ h.places⟩

theorem CarriesPlaced.enqueues (h : v.CarriesPlaced format) (henqueues : Enqueues format v w) :
    w.CarriesPlaced format := by
  rcases henqueues with heq | ⟨kind, m, memory, hkind, heq⟩
  · exact h.congr heq
  · constructor
    · rw [heq]
      exact h.carries.enqueueJson (fun herror => absurd herror hkind) m memory
    · rw [heq]
      exact h.places.enqueueJson kind m memory

theorem CarriesPlaced.sdVarlinkError (h : v.CarriesPlaced format) (errorId : Bytes) (parameters : Option (Json R))
    (memory : MemoryAnswer)
    (hcareful : answerable v.state = true → v.output.fds = [] ∧ v.output.pushedFds = []) :
    (v.sdVarlinkError format errorId parameters memory).1.CarriesPlaced format := by
  rcases output_sdVarlinkError v errorId parameters memory with heq | ⟨hs, heq | ⟨m, heq⟩⟩
  · exact h.congr heq
  · constructor
    · rw [heq]
      exact h.carries.resetFds (hcareful hs).1
    · rw [heq]
      exact h.places.resetFds
  · have hreset := h.carries.resetFds (hcareful hs).1
    constructor
    · rw [heq]
      exact hreset.enqueueJson (fun _ => (hcareful hs).2) m memory
    · rw [heq]
      exact h.places.resetFds.enqueueJson .error m memory

theorem CarriesPlaced.sdVarlinkNotify (h : v.CarriesPlaced format) (parameters : Option (Json R))
    (memory : MemoryAnswer)
    (hcareful : v.state = .processingMethod ∨ v.state = .pendingMethod →
      v.output.fds = [] ∧ v.output.pushedFds = []) :
    (v.sdVarlinkNotify format parameters memory).1.CarriesPlaced format := by
  unfold Varlink.sdVarlinkNotify
  by_cases hclosed : v.state = .disconnected
  · rw [if_pos hclosed]
    exact h
  · rw [if_neg hclosed]
    by_cases hplain : v.state = .processingMethod ∨ v.state = .pendingMethod
    · rw [if_pos hplain]
      exact h.sdVarlinkError varlinkErrorExpectedMore none memory fun _ => hcareful hplain
    · rw [if_neg hplain]
      by_cases hbusy : v.state ≠ .processingMethodMore ∧ v.state ≠ .pendingMethodMore
      · rw [if_pos hbusy]
        exact h
      · rw [if_neg hbusy]
        cases varlinkSanitizeParameters parameters with
        | error er => exact h
        | ok p => exact h.enqueues (.inr ⟨.notification, _, memory, by decide, output_enqueueJson v _ _ memory⟩)

theorem CarriesPlaced.write (h : v.CarriesPlaced format) (memory : Nat → MemoryAnswer) (answer : OutputAnswer)
    (hcareful : v.state.isAlive = true → v.connecting = false → v.writeDisconnected = false → v.output.Separate) :
    (v.write format memory answer).1.CarriesPlaced format := by
  unfold Varlink.write
  split_ifs with halive hconnecting hdisconnected
  · exact h
  · exact h
  · exact h
  · have hseparate := hcareful (by simpa using halive) (by simpa using hconnecting) (by simpa using hdisconnected)
    have hcarries := h.carries.write hseparate memory answer
    have hplaces := h.places.write format memory answer
    cases hwrite : v.output.write format memory answer with
    | mk o r =>
      rw [hwrite] at hcarries hplaces
      cases r with
      | error er => exact ⟨hcarries, hplaces⟩
      | ok b =>
        cases b with
        | none | some b => exact ⟨hcarries, hplaces⟩

/-- A careful step keeps descriptors with their messages. -/
theorem CarriesPlaced.descriptorStep (h : v.CarriesPlaced format) {a : DescriptorStep R} (hcareful : v.Careful a)
    (hstep : v.descriptorStep format a w) : w.CarriesPlaced format := by
  cases a with
  | pushFd fd memory =>
    cases hstep
    unfold pushFd
    split_ifs
    · exact h
    · exact ⟨h.carries.pushFd fd memory, h.places.pushFd fd memory⟩
  | send method parameters memory =>
    cases hstep
    exact h.enqueues (enqueues_enqueueCall (by decide) method parameters _ memory)
  | invoke method parameters memory | observe method parameters memory =>
    cases hstep
    refine CarriesPlaced.congr ?_ (output_await _ _)
    exact h.enqueues (enqueues_enqueueCall (by decide) method parameters _ memory)
  | reply parameters memory =>
    cases hstep
    exact h.enqueues (enqueues_sdVarlinkReply parameters memory)
  | notify parameters memory =>
    cases hstep
    exact h.sdVarlinkNotify parameters memory hcareful
  | error errorId parameters memory =>
    cases hstep
    exact h.sdVarlinkError errorId parameters memory hcareful
  | write memory answer =>
    cases hstep
    exact h.write memory answer hcareful
  | other => exact h.congr hstep

theorem CarriesPlaced.of_new (h : v.IsNew) : v.CarriesPlaced format :=
  ⟨.empty h.outputBuffer h.queue h.fds h.pushedFds h.outputHistory,
    .empty h.queue h.fds h.pushedFds h.outputHistory⟩

/-- In every run in which errors are sent only where there are no descriptors, and messages with descriptors are
    formatted only into an empty buffer (`Careful`), descriptors travel with their own message (`Travels`), and
    what is written is the start of the texts of the messages. -/
theorem descriptors_travel {steps : List (DescriptorStep R)} (hnew : v.IsNew)
    (hrun : Run (fun v a w => v.Careful a ∧ v.descriptorStep format a w) v steps w) :
    w.output.Travels format ∧ w.output.written <+: zeroEnded (w.output.enqueuedTexts format) := by
  have h : w.CarriesPlaced format :=
    hrun.invariant (.of_new hnew) fun h hstep => h.descriptorStep hstep.1 hstep.2
  exact ⟨h.carries.travels h.places, h.carries.streams.written_initial⟩

/-- A descriptor is sent with the call that it was pushed for. -/
theorem descriptors_travel_with_call :
    ∃ w : Varlink (Json Unit),
      Run (fun v a w => v.Careful a ∧ v.descriptorStep (fun _ => ascii "\x7b\x7d") a w) (create .idleClient false true)
        [.pushFd 7 (.some 0 fun _ => 0), .send (ascii "a.B") none (.some 0 fun _ => 0),
          .write (fun _ => .some 0 fun _ => 0) (.accepted 2)] w ∧
        (w.output.ledger fun _ => ascii "\x7b\x7d").carried = [(0, [7])] ∧
        w.output.Travels fun _ => ascii "\x7b\x7d" := by
  have hrun : Run (fun (v : Varlink (Json Unit)) a w => v.Careful a ∧
      v.descriptorStep (fun _ => ascii "\x7b\x7d") a w) (create .idleClient false true)
      [.pushFd 7 (.some 0 fun _ => 0), .send (ascii "a.B") none (.some 0 fun _ => 0),
        .write (fun _ => .some 0 fun _ => 0) (.accepted 2)] _ :=
    .cons ⟨trivial, rfl⟩ (.cons ⟨trivial, rfl⟩
      (.cons ⟨fun _ _ _ => .inr (.inr ⟨rfl, _, _, rfl, by decide⟩), rfl⟩ (.nil _)))
  exact ⟨_, hrun, rfl, (descriptors_travel (isNew_create rfl false true) hrun).1⟩

/-- A call is not written yet when the next one is formatted behind it, whose descriptor is then sent with the
    first; and an error takes the descriptor that was pushed for a reply. -/
theorem descriptors_go_astray :
    (∃ w : Varlink (Json Unit),
      Run (fun v a w => v.descriptorStep (fun _ => ascii "\x7b\x7d") a w) (create .idleClient false true)
        [.send (ascii "a.B") none (.some 0 fun _ => 0), .pushFd 7 (.some 0 fun _ => 0),
          .send (ascii "a.C") none (.some 0 fun _ => 0), .write (fun _ => .some 0 fun _ => 0) (.accepted 6)] w ∧
        ¬w.output.Travels fun _ => ascii "\x7b\x7d") ∧
    ∃ w : Varlink (Json Unit),
      Run (fun v a w => v.descriptorStep (fun _ => ascii "\x7b\x7d") a w) (create .processingMethod true true)
        [.pushFd 7 (.some 0 fun _ => 0), .error (ascii "a.E") none (.some 0 fun _ => 0),
          .write (fun _ => .some 0 fun _ => 0) (.accepted 3)] w ∧
        ¬w.output.Travels fun _ => ascii "\x7b\x7d" := by
  constructor
  · refine ⟨_, .cons rfl (.cons rfl (.cons rfl (.cons rfl (.nil _)))), fun htravels => ?_⟩
    have hcarried := htravels.carried (0, [7]) (by decide) (by decide)
    exact absurd hcarried (by decide)
  · refine ⟨_, .cons rfl (.cons rfl (.cons rfl (.nil _))), fun htravels => ?_⟩
    have hcarried := htravels.carried (0, [7]) (by decide) (by decide)
    exact absurd hcarried (by decide)

end Varlink

end Elogind
