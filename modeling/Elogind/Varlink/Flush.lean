/-
  Elogind.Varlink.Flush

  Flushing a connection (`sd_varlink_flush`).  The loop ends when the output buffer is empty, whatever is still in the
  output queue, so this says which states it leaves nothing behind in.
-/

import Elogind.Varlink.Transport

namespace Elogind

open Lib Errno VarlinkOutput List

/-! ## The loop -/

/-- What `fd_wait_for_event` returns: an error after which it is called again, another error, or which of `POLLOUT` and
    `POLLHUP` there were. -/
inductive PollAnswer where
  | transient
  | failed (er : Errno)
  | ready (pollout pollhup : Bool)

/-- What memory, the socket and the poll answer in a round of the loop. -/
structure FlushRound where
  memory : Nat → MemoryAnswer
  answer : OutputAnswer
  poll : PollAnswer

namespace Varlink

variable {J : Type} (format : J → Bytes)

/-- `handle_revents` -/
def handleRevents (v : Varlink J) (pollout pollhup : Bool) : Varlink J :=
  if v.connecting then if pollout || pollhup then { v with connecting := false } else v
  else if pollhup then { v with gotPollhup := true } else v

/-- The loop in `sd_varlink_flush`, as far as there are answers for its rounds. -/
def flushLoop : List FlushRound → Bool → Varlink J → Option (Varlink J × Result Bool)
  | rounds, ret, v =>
    if v.output.buffer.size = 0 then some (v, .ok ret)
    else if v.writeDisconnected then some (v, .error ECONNRESET)
    else
      match rounds with
      | [] => none
      | round :: rounds =>
        match v.write format round.memory round.answer with
        | (v, .error er) => some (v, .error er)
        | (v, .ok true) => flushLoop rounds true v
        | (v, .ok false) =>
          match round.poll with
          | .transient => flushLoop rounds ret v
          | .failed er => some (v, .error er)
          | .ready pollout pollhup => flushLoop rounds ret (v.handleRevents pollout pollhup)

/-- `sd_varlink_flush` -/
def flush (rounds : List FlushRound) (v : Varlink J) : Option (Varlink J × Result Bool) :=
  if v.state = .disconnected then some (v, .error ENOTCONN) else v.flushLoop format rounds false

end Varlink

/-! ## What is formatted together -/

namespace VarlinkOutput

variable {J : Type} (format : J → Bytes)

/-- The messages of a queue that are formatted together when these descriptors are not written yet: up to the first one
    with descriptors of its own. -/
def batchOf : List Nat → List (VarlinkJsonQueueItem J) → List (VarlinkJsonQueueItem J)
  | _, [] => []
  | fds, q :: queue => if fds ≠ [] then [] else q :: batchOf q.fds queue

/-- The size of messages as text. -/
def textSize (queue : List (VarlinkJsonQueueItem J)) : Nat := (queue.map fun q => (format q.data).length + 1).sum

/-- The next messages that are formatted are all that there are, or they are too large for the buffer. -/
def NothingBehind (o : VarlinkOutput J) : Prop :=
  batchOf o.fds o.queue = o.queue ∨
    batchOf o.fds o.queue ≠ [] ∧ varlinkBufferMax < o.buffer.size + textSize format (batchOf o.fds o.queue)

/-- Nothing is left to be written. -/
def Drained (o : VarlinkOutput J) : Prop := o.buffer.size = 0 ∧ o.queue = []

/-- How much is left to be written. -/
def pending (o : VarlinkOutput J) : Nat := o.buffer.size + textSize format o.queue

variable {format} {o o' : VarlinkOutput J}

theorem formatJson_ok {m : J} {memory : MemoryAnswer} (h : o.formatJson format m memory = (o', .ok ())) :
    o'.buffer.size = o.buffer.size + ((format m).length + 1) ∧ o'.buffer.size ≤ varlinkBufferMax := by
  cases memory with
  | none => cases h
  | some slack junk =>
    unfold formatJson at h
    simp only [length_append, length_singleton] at h
    have hlength : (format m ++ [0]).length = (format m).length + 1 := length_append
    have hbound : ∀ n : Nat, n = o.buffer.size + ((format m).length + 1) →
        ¬ o.buffer.size + ((format m).length + 1) > varlinkBufferMax →
        n = o.buffer.size + ((format m).length + 1) ∧ n ≤ varlinkBufferMax := by
      intro n hn hmax
      exact ⟨hn, by omega⟩
    split_ifs at h with hmax hempty hindex
    · cases h
    · obtain rfl := (Prod.mk.inj h).1
      apply hbound _ _ hmax
      rw [hempty, Nat.zero_add]
      exact hlength
    · obtain rfl := (Prod.mk.inj h).1
      exact hbound _ (congrArg (o.buffer.size + ·) hlength) hmax
    · obtain rfl := (Prod.mk.inj h).1
      exact hbound _ (congrArg (o.buffer.size + ·) hlength) hmax

theorem formatJson_succeeds {m : J} (slack : Nat) (junk : Nat → UInt8)
    (h : o.buffer.size + ((format m).length + 1) ≤ varlinkBufferMax) :
    ∃ o', o.formatJson format m (.some slack junk) = (o', .ok ()) := by
  unfold formatJson
  simp only [length_append, length_singleton]
  rw [if_neg (by omega)]
  split_ifs
  · exact ⟨_, rfl⟩
  · exact ⟨_, rfl⟩
  · exact ⟨_, rfl⟩

/-- Where the queue is formatted, its next messages are taken from it, and they fit into the buffer. -/
theorem formatQueueLoop_ok {memory : Nat → MemoryAnswer} {queue : List (VarlinkJsonQueueItem J)}
    (hqueue : o.queue = queue) (h : formatQueueLoop format memory queue o = (o', .ok ())) :
    queue = batchOf o.fds queue ++ o'.queue ∧
      o'.buffer.size = o.buffer.size + textSize format (batchOf o.fds queue) ∧
      (batchOf o.fds queue ≠ [] → o'.buffer.size ≤ varlinkBufferMax) := by
  induction queue generalizing o with
  | nil =>
    obtain rfl := (Prod.mk.inj h).1
    exact ⟨hqueue.symm, rfl, fun hne => absurd rfl hne⟩
  | cons q queue ih =>
    rw [formatQueueLoop] at h
    by_cases hfds : o.fds ≠ []
    · rw [if_pos hfds] at h
      obtain rfl := (Prod.mk.inj h).1
      have hbatch : batchOf o.fds (q :: queue) = [] := if_pos hfds
      rw [hbatch, hqueue]
      exact ⟨rfl, rfl, fun hne => absurd rfl hne⟩
    · rw [if_neg hfds] at h
      have hbatch : batchOf o.fds (q :: queue) = q :: batchOf q.fds queue := if_neg hfds
      rw [hbatch]
      cases hformat : o.formatJson format q.data (memory queue.length) with
      | mk o₁ r =>
        rw [hformat] at h
        cases r with
        | error er => cases h
        | ok u =>
          obtain ⟨hsize, hmax⟩ := formatJson_ok hformat
          obtain ⟨hsplit, hrest, hfits⟩ := @ih { o₁ with fds := q.fds, queue := queue } rfl h
          refine ⟨congrArg (q :: ·) hsplit, ?_, fun _ => ?_⟩
          · rw [hrest]
            show o₁.buffer.size + _ = _
            rw [hsize]
            unfold textSize
            rw [map_cons, sum_cons, Nat.add_assoc]
          · by_cases hnil : batchOf q.fds queue = []
            · rw [hrest, hnil]
              exact hmax
            · exact hfits hnil

/-- Where there is memory, messages that fit into the buffer are formatted. -/
theorem formatQueueLoop_succeeds {memory : Nat → MemoryAnswer} (hmemory : ∀ n, ∃ slack junk, memory n = .some slack junk)
    (queue : List (VarlinkJsonQueueItem J))
    (hfits : batchOf o.fds queue ≠ [] → o.buffer.size + textSize format (batchOf o.fds queue) ≤ varlinkBufferMax) :
    ∃ o', formatQueueLoop format memory queue o = (o', .ok ()) := by
  induction queue generalizing o with
  | nil => exact ⟨o, rfl⟩
  | cons q queue ih =>
    rw [formatQueueLoop]
    by_cases hfds : o.fds ≠ []
    · rw [if_pos hfds]
      exact ⟨o, rfl⟩
    · have hbatch : batchOf o.fds (q :: queue) = q :: batchOf q.fds queue := if_neg hfds
      rw [hbatch] at hfits
      have hall := hfits (cons_ne_nil _ _)
      unfold textSize at hall
      rw [map_cons, sum_cons] at hall
      obtain ⟨slack, junk, hsome⟩ := hmemory queue.length
      obtain ⟨o₁, hformat⟩ := @formatJson_succeeds J format o q.data slack junk (by omega)
      obtain ⟨hsize, -⟩ := formatJson_ok hformat
      rw [if_neg hfds, hsome, hformat]
      apply ih
      intro _
      show o₁.buffer.size + textSize format (batchOf q.fds queue) ≤ varlinkBufferMax
      unfold textSize
      omega

/-- Formatting the queue moves what is left to be written, and that is all of it if nothing stays behind. -/
theorem formatQueue_ok {memory : Nat → MemoryAnswer} (h : o.formatQueue format memory = (o', .ok ())) :
    o'.pending format = o.pending format ∧ (o.queue = [] ∨ o.NothingBehind format → o'.queue = []) := by
  obtain ⟨hsplit, hsize, hmax⟩ := formatQueueLoop_ok rfl h
  refine ⟨?_, ?_⟩
  · unfold pending textSize at *
    rw [hsize, Nat.add_assoc, ← sum_append, ← map_append, ← hsplit]
  · rintro (hnil | hall | ⟨hne, hlarge⟩)
    · rw [hnil] at hsplit
      exact (append_eq_nil_iff.mp hsplit.symm).2
    · rw [hall] at hsplit
      exact append_right_eq_self.mp hsplit.symm
    · have hfits := hmax hne
      omega

end VarlinkOutput

/-! ## Flushing -/

namespace Varlink

variable {J : Type} {format : J → Bytes} {v v' : Varlink J}

/-- Nothing stays behind in the queue when the buffer gets empty, or the loop does not get that far. -/
def KeepsUp (format : J → Bytes) (v : Varlink J) : Prop :=
  v.output.queue = [] ∨ v.output.buffer.size ≠ 0 ∧
    (v.state.isAlive = false ∨ v.writeDisconnected = true ∨ v.output.NothingBehind format)

/-- The states that flushing leaves with nothing to be written, whenever it succeeds. -/
def FlushDrains (format : J → Bytes) (v : Varlink J) : Prop := v.state = .disconnected ∨ v.KeepsUp format

/-- What a write does: nothing where it may not write, or it formats the queue and then takes from the buffer. -/
theorem write_ok {memory : Nat → MemoryAnswer} {answer : OutputAnswer} {r : Bool}
    (h : v.write format memory answer = (v', .ok r)) :
    v' = v ∧ r = false ∧ (v.state.isAlive = false ∨ v.connecting = true ∨ v.writeDisconnected = true) ∨
      v.state.isAlive = true ∧ v.writeDisconnected = false ∧
      ∃ o, v.output.formatQueue format memory = (o, .ok ()) ∧ v'.output.queue = o.queue ∧
        ∀ n, answer = .accepted n → r = true → v'.output.buffer.size = o.buffer.size - min n o.buffer.size ∧
          o.buffer.size ≠ 0 := by
  unfold write at h
  by_cases halive : v.state.isAlive = false
  · rw [halive] at h
    cases h
    exact .inl ⟨rfl, rfl, .inl halive⟩
  rw [Bool.not_eq_false] at halive
  rw [halive] at h
  by_cases hconnecting : v.connecting = true
  · rw [hconnecting] at h
    cases h
    exact .inl ⟨rfl, rfl, .inr (.inl hconnecting)⟩
  rw [Bool.not_eq_true] at hconnecting
  rw [hconnecting] at h
  by_cases hdisconnected : v.writeDisconnected = true
  · rw [hdisconnected] at h
    cases h
    exact .inl ⟨rfl, rfl, .inr (.inr hdisconnected)⟩
  rw [Bool.not_eq_true] at hdisconnected
  rw [hdisconnected] at h
  right
  unfold VarlinkOutput.write at h
  cases hformat : v.output.formatQueue format memory with
  | mk o r' =>
    rw [hformat] at h
    cases r' with
    | error er => cases h
    | ok u =>
      refine ⟨halive, hdisconnected, o, rfl, ?_⟩
      simp only at h
      by_cases hempty : o.buffer.size = 0
      · rw [if_pos hempty] at h
        cases h
        exact ⟨rfl, fun n _ hr => by cases hr⟩
      · rw [if_neg hempty] at h
        cases answer with
        | again | disconnected =>
          cases h
          exact ⟨rfl, fun n hn => by cases hn⟩
        | failed er => cases h
        | accepted n =>
          cases h
          refine ⟨rfl, fun m hm _ => ?_⟩
          cases hm
          exact ⟨rfl, hempty⟩

theorem KeepsUp.write {memory : Nat → MemoryAnswer} {answer : OutputAnswer} {r : Bool} (hkeeps : v.KeepsUp format)
    (h : v.write format memory answer = (v', .ok r)) : v'.KeepsUp format := by
  rcases write_ok h with ⟨rfl, -, -⟩ | ⟨halive, hconnected, o, hformat, hqueue, -⟩
  · exact hkeeps
  · left
    rw [hqueue]
    apply (formatQueue_ok hformat).2
    rcases hkeeps with hnil | ⟨-, hdead | hdisconnected | hbehind⟩
    · exact .inl hnil
    · rw [halive] at hdead
      cases hdead
    · rw [hconnected] at hdisconnected
      cases hdisconnected
    · exact .inr hbehind

/-- What the poll tells does not matter for what is written. -/
theorem handleRevents_rest (v : Varlink J) (pollout pollhup : Bool) :
    (v.handleRevents pollout pollhup).output = v.output ∧ (v.handleRevents pollout pollhup).state = v.state ∧
      (v.handleRevents pollout pollhup).writeDisconnected = v.writeDisconnected := by
  unfold handleRevents
  split_ifs
  all_goals exact ⟨rfl, rfl, rfl⟩

theorem KeepsUp.handleRevents (hkeeps : v.KeepsUp format) (pollout pollhup : Bool) :
    (v.handleRevents pollout pollhup).KeepsUp format := by
  obtain ⟨houtput, hstate, hdisconnected⟩ := handleRevents_rest v pollout pollhup
  unfold KeepsUp
  rw [houtput, hstate, hdisconnected]
  exact hkeeps

/-- From a state in which nothing stays behind, the loop only succeeds with nothing left. -/
theorem KeepsUp.flushLoop (rounds : List FlushRound) {ret r : Bool} (hkeeps : v.KeepsUp format)
    (h : v.flushLoop format rounds ret = some (v', .ok r)) : v'.output.Drained := by
  induction rounds generalizing v ret with
  | nil =>
    rw [Varlink.flushLoop] at h
    split_ifs at h with hempty
    · cases h
      exact ⟨hempty, hkeeps.resolve_right fun hne => hne.1 hempty⟩
    · cases h
  | cons round rounds ih =>
    rw [Varlink.flushLoop] at h
    split_ifs at h with hempty
    · cases h
      exact ⟨hempty, hkeeps.resolve_right fun hne => hne.1 hempty⟩
    · cases h
    · cases hwrite : v.write format round.memory round.answer with
      | mk w s =>
        rw [hwrite] at h
        cases s with
        | error er => cases h
        | ok b =>
          have hkeeps' := hkeeps.write hwrite
          cases b with
          | true => exact ih hkeeps' h
          | false =>
            cases hpoll : round.poll with
            | transient =>
              rw [hpoll] at h
              exact ih hkeeps' h
            | failed er =>
              rw [hpoll] at h
              cases h
            | ready pollout pollhup =>
              rw [hpoll] at h
              exact ih (hkeeps'.handleRevents pollout pollhup) h

theorem flushLoop_wrote {round : FlushRound} (hempty : v.output.buffer.size ≠ 0)
    (hconnected : v.writeDisconnected = false) (hwrite : v.write format round.memory round.answer = (v', .ok true))
    (rounds : List FlushRound) (ret : Bool) :
    v.flushLoop format (round :: rounds) ret = v'.flushLoop format rounds true := by
  rw [Varlink.flushLoop, if_neg hempty, hconnected]
  simp only [Bool.false_eq_true, if_false, hwrite]

theorem flushLoop_waited {round : FlushRound} {pollout pollhup : Bool} (hempty : v.output.buffer.size ≠ 0)
    (hconnected : v.writeDisconnected = false) (hwrite : v.write format round.memory round.answer = (v', .ok false))
    (hpoll : round.poll = .ready pollout pollhup) (rounds : List FlushRound) (ret : Bool) :
    v.flushLoop format (round :: rounds) ret = (v'.handleRevents pollout pollhup).flushLoop format rounds ret := by
  rw [Varlink.flushLoop, if_neg hempty, hconnected]
  simp only [Bool.false_eq_true, if_false, hwrite, hpoll]

/-- A round in which memory can be had and the socket accepts so much. -/
def writingRound (n : Nat) : FlushRound := ⟨fun _ => .some 0 fun _ => 0, .accepted n, .transient⟩

/-- Where something stays behind, a single write of everything ends the loop. -/
theorem flushLoop_leaves (hempty : v.output.buffer.size ≠ 0) (halive : v.state.isAlive = true)
    (hconnecting : v.connecting = false) (hdisconnected : v.writeDisconnected = false)
    (hbehind : ¬ v.output.NothingBehind format) (ret : Bool) :
    ∃ n v', v.flushLoop format [writingRound n] ret = some (v', .ok true) ∧ v'.output.queue ≠ [] := by
  unfold NothingBehind at hbehind
  rw [not_or, not_and, Nat.not_lt] at hbehind
  obtain ⟨o, hformat⟩ := @formatQueueLoop_succeeds J format v.output (fun _ => .some 0 fun _ => 0)
    (fun _ => ⟨_, _, rfl⟩) v.output.queue hbehind.2
  obtain ⟨hsplit, hsize, -⟩ := formatQueueLoop_ok rfl hformat
  have hne : o.buffer.size ≠ 0 := by omega
  have hqueue : o.queue ≠ [] := by
    intro hnil
    rw [hnil, append_nil] at hsplit
    exact hbehind.1 hsplit.symm
  obtain ⟨w, hwrite, hwQueue, hwSize⟩ : ∃ w, v.write format (writingRound o.buffer.size).memory
      (writingRound o.buffer.size).answer = (w, .ok true) ∧ w.output.queue = o.queue ∧ w.output.buffer.size = 0 := by
    have hqueueFormat : v.output.formatQueue format (writingRound o.buffer.size).memory = (o, .ok ()) := hformat
    unfold write VarlinkOutput.write
    rw [halive, hconnecting, hdisconnected, hqueueFormat]
    simp only [Bool.not_true, Bool.false_eq_true, if_false, if_neg hne]
    refine ⟨_, rfl, rfl, ?_⟩
    show o.buffer.size - min o.buffer.size o.buffer.size = 0
    omega
  refine ⟨o.buffer.size, w, ?_, hwQueue ▸ hqueue⟩
  rw [flushLoop_wrote hempty hdisconnected hwrite, Varlink.flushLoop, if_pos hwSize]

/-- Flushing leaves nothing to be written whenever it succeeds, from these states and from no others. -/
theorem flush_drains_iff_keepsUp (format : J → Bytes) (v : Varlink J) :
    (∀ rounds v' r, v.flush format rounds = some (v', .ok r) → v'.output.Drained) ↔ v.FlushDrains format := by
  constructor
  · intro hdrains
    by_contra hnot
    unfold FlushDrains KeepsUp at hnot
    simp only [not_or, not_and, Bool.not_eq_false, Bool.not_eq_true] at hnot
    obtain ⟨hstate, hqueue, hbehind⟩ := hnot
    by_cases hempty : v.output.buffer.size = 0
    · have hflush : v.flush format [] = some (v, .ok false) := by
        unfold flush
        rw [if_neg hstate, flushLoop, if_pos hempty]
      exact hqueue (hdrains [] v false hflush).2
    · obtain ⟨halive, hdisconnected, hbehind⟩ := hbehind hempty
      -- A connection that is still being made is first told that it is.
      obtain ⟨n, v', hloop, hleft⟩ := flushLoop_leaves
        (v := { v with connecting := false }) hempty halive rfl hdisconnected hbehind false
      cases hconnecting : v.connecting with
      | false =>
        have hsame : ({ v with connecting := false } : Varlink J) = v := by
          rw [← hconnecting]
        rw [hsame] at hloop
        have hflush : v.flush format [writingRound n] = some (v', .ok true) := by
          unfold flush
          rw [if_neg hstate, hloop]
        exact hleft (hdrains _ v' true hflush).2
      | true =>
        have hflush : v.flush format [⟨fun _ => .none, .again, .ready true false⟩, writingRound n] =
            some (v', .ok true) := by
          have hwrite : v.write format (fun _ => .none) .again = (v, .ok false) := by
            unfold write
            rw [halive, hconnecting]
            rfl
          have hrevents : v.handleRevents true false = { v with connecting := false } := by
            unfold handleRevents
            rw [hconnecting]
            rfl
          unfold flush
          rw [if_neg hstate, flushLoop_waited hempty hdisconnected hwrite rfl, hrevents, hloop]
        exact hleft (hdrains _ v' true hflush).2
  · rintro (hstate | hkeeps) rounds v' r hflush
    · unfold flush at hflush
      rw [if_pos hstate] at hflush
      cases hflush
    · unfold flush at hflush
      split_ifs at hflush
      · cases hflush
      · exact hkeeps.flushLoop rounds hflush

/-- A round in which the socket accepts something shortens what is left to be written. -/
theorem write_shortens {memory : Nat → MemoryAnswer} {n : Nat} (hn : 0 < n)
    (h : v.write format memory (.accepted n) = (v', .ok true)) :
    v'.output.pending format < v.output.pending format := by
  rcases write_ok h with ⟨-, hfalse, -⟩ | ⟨-, -, o, hformat, hqueue, haccepted⟩
  · cases hfalse
  · obtain ⟨hsize, hne⟩ := haccepted n rfl rfl
    rw [← (formatQueue_ok hformat).1]
    unfold pending
    rw [hqueue, hsize]
    omega

/-- Flushing leaves nothing to be written (`Drained`) whenever it succeeds, whatever memory, the socket and the poll
    answer in the `rounds`, exactly if nothing can stay behind in the output queue when the output buffer gets empty
    (`FlushDrains`); and each round in which the socket accepts something shortens what is `pending`. -/
theorem flush_drains_iff (format : J → Bytes) (v : Varlink J) :
    ((∀ rounds v' r, v.flush format rounds = some (v', .ok r) → v'.output.Drained) ↔ v.FlushDrains format) ∧
      ∀ memory n v', 0 < n → v.write format memory (.accepted n) = (v', .ok true) →
        v'.output.pending format < v.output.pending format :=
  ⟨flush_drains_iff_keepsUp format v, fun _ _ _ => write_shortens⟩

/-- A connection with a message, which a socket that takes some bytes at a time drains. -/
theorem flush_drains_message :
    let v := ((create .idleClient false true).enqueueJson id .oneway (ascii "message") (.some 0 fun _ => 0)).1
    (∀ rounds v' r, v.flush id rounds = some (v', .ok r) → v'.output.Drained) ∧
      (v.flush id [⟨fun _ => .none, .accepted 3, .transient⟩, ⟨fun _ => .none, .again, .ready true false⟩,
        ⟨fun _ => .none, .accepted 5, .transient⟩]).any (fun r => r.2.toOption = some true) = true :=
  ⟨(flush_drains_iff id _).1.mpr (.inr (.inl rfl)), by decide⟩

/-- The first message that is sent with a descriptor is still in the queue after flushing. -/
theorem flush_leaves_message :
    ∃ v : Varlink Bytes,
      v = (((create .idleClient false true).pushFd 3 (.some 0 fun _ => 0)).1.enqueueJson id .oneway (ascii "message")
        (.some 0 fun _ => 0)).1 ∧
      v.flush id [] = some (v, .ok false) ∧ ¬ v.output.Drained := by
  refine ⟨_, rfl, rfl, ?_⟩
  intro hdrained
  cases hdrained.2

end Varlink

end Elogind
