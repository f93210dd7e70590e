/-
  Elogind.Varlink.Answers

  A server answers each call exactly once.  What it did with its calls so far is told by a grammar: a call is
  dispatched, perhaps several times, notifications are sent for it if it asked for more, and it ends with a
  reply or an error, before the next one is dispatched.
-/

import Elogind.Varlink.Process

namespace Elogind

open Lib Errno List

/-! ## Answers -/

section

variable {J : Type}

/-- What happened to the `n`-th call so far, if it is not answered yet. -/
inductive Answering (n : Nat) : VarlinkMessage → List (VarlinkEvent J) → Prop where
  | dispatched {kind : VarlinkMessage} (hkind : kind = .call ∨ kind = .more) :
      Answering n kind [.dispatched n kind]
  | again {kind : VarlinkMessage} {es : List (VarlinkEvent J)} (h : Answering n kind es) :
      Answering n kind (es ++ [.dispatched n kind])
  | notified {es : List (VarlinkEvent J)} (h : Answering n .more es) (m : J) :
      Answering n .more (es ++ [.enqueued .notification m])

/-- The first `n` calls were answered, each before the next one was dispatched, and those that want no answer
    got none. -/
inductive Answered : Nat → List (VarlinkEvent J) → Prop where
  | start : Answered 0 []
  | oneway {n : Nat} {h : List (VarlinkEvent J)} (hn : Answered n h) :
      Answered (n + 1) (h ++ [.dispatched (n + 1) .oneway])
  | replied {n : Nat} {kind : VarlinkMessage} {h es : List (VarlinkEvent J)} (hn : Answered n h)
      (hes : Answering (n + 1) kind es) (m : J) : Answered (n + 1) (h ++ (es ++ [.enqueued .reply m]))
  | failed {n : Nat} {kind : VarlinkMessage} {h es : List (VarlinkEvent J)} (hn : Answered n h)
      (hes : Answering (n + 1) kind es) (m : J) : Answered (n + 1) (h ++ (es ++ [.enqueued .error m]))

/-- All calls were answered but the last one perhaps. -/
def Orderly (h : List (VarlinkEvent J)) : Prop :=
  (∃ n, Answered n h) ∨ ∃ n kind h' es, h = h' ++ es ∧ Answered n h' ∧ Answering (n + 1) kind es

/-- What happens to calls, and not to the connection. -/
def VarlinkEvent.isServed : VarlinkEvent J → Bool
  | .enqueued _ _ => true
  | .dispatched _ _ => true
  | .handedOut _ => false
  | .localError => false

/-- What happened to the calls. -/
def served (v : Varlink J) : List (VarlinkEvent J) := v.history.filter VarlinkEvent.isServed

end

/-! ## States -/

section

variable {R : Type}

/-- How far a server is with its calls in a state, with this message at hand, after so many were received. -/
inductive Phase : VarlinkState → Option (Json R) → Nat → List (VarlinkEvent (Json R)) → Prop where
  | idle {n : Nat} {h : List (VarlinkEvent (Json R))} (hn : Answered n h) : Phase .idleServer none n h
  | received {n : Nat} {h : List (VarlinkEvent (Json R))} (m : Json R) (hn : Answered n h) :
      Phase .idleServer (some m) (n + 1) h
  | again {n : Nat} {h es : List (VarlinkEvent (Json R))} {m : Json R} {c : Bytes × Option (Json R)}
      {kind : VarlinkMessage} (hm : methodCallOf m = some (c.1, c.2, kind)) (hn : Answered n h)
      (hes : Answering (n + 1) kind es) : Phase .idleServer (some m) (n + 1) (h ++ es)
  | processing {n : Nat} {h es : List (VarlinkEvent (Json R))} {m : Json R} {c : Bytes × Option (Json R)}
      (hm : methodCallOf m = some (c.1, c.2, .call)) (hn : Answered n h) (hes : Answering (n + 1) .call es) :
      Phase .processingMethod (some m) (n + 1) (h ++ es)
  | processingMore {n : Nat} {h es : List (VarlinkEvent (Json R))} {m : Json R} {c : Bytes × Option (Json R)}
      (hm : methodCallOf m = some (c.1, c.2, .more)) (hn : Answered n h) (hes : Answering (n + 1) .more es) :
      Phase .processingMethodMore (some m) (n + 1) (h ++ es)
  | oneway {n : Nat} {h : List (VarlinkEvent (Json R))} (m : Json R) (hn : Answered n h) :
      Phase .processingMethodOneway (some m) n h
  | processed {n : Nat} {h : List (VarlinkEvent (Json R))} (m : Json R) (hn : Answered n h) :
      Phase .processedMethod (some m) n h
  | pending {n : Nat} {h es : List (VarlinkEvent (Json R))} {m : Json R} {c : Bytes × Option (Json R)}
      (hm : methodCallOf m = some (c.1, c.2, .call)) (hn : Answered n h) (hes : Answering (n + 1) .call es) :
      Phase .pendingMethod (some m) (n + 1) (h ++ es)
  | pendingMore {n : Nat} {h es : List (VarlinkEvent (Json R))} {m : Json R} {c : Bytes × Option (Json R)}
      (hm : methodCallOf m = some (c.1, c.2, .more)) (hn : Answered n h) (hes : Answering (n + 1) .more es) :
      Phase .pendingMethodMore (some m) (n + 1) (h ++ es)
  | dead {s : VarlinkState} {current : Option (Json R)} {n : Nat} {h : List (VarlinkEvent (Json R))}
      (hs : s.isAlive = false) (hh : Orderly h) : Phase s current n h

/-- However far it is, all calls were answered but the last one perhaps. -/
theorem Phase.orderly {s : VarlinkState} {current : Option (Json R)} {n : Nat}
    {h : List (VarlinkEvent (Json R))} (hphase : Phase s current n h) : Orderly h := by
  cases hphase with
  | idle hn | received m hn | oneway m hn | processed m hn => exact .inl ⟨_, hn⟩
  | again hm hn hes | processing hm hn hes | processingMore hm hn hes | pending hm hn hes
  | pendingMore hm hn hes => exact .inr ⟨_, _, _, _, rfl, hn, hes⟩
  | dead hs hh => exact hh

namespace Varlink

/-- What happened to a call was done for one of the texts that were parsed, or is a reply of its kind. -/
def EventOf (parse : Bytes → Result (Json R)) (handed : List Bytes) : VarlinkEvent (Json R) → Prop
  | .enqueued kind m => ∃ r, replyOf m = some r ∧ r.kind = kind
  | .dispatched n kind =>
    ∃ text m method parameters, handed[n - 1]? = some text ∧ parse text = .ok m ∧
      methodCallOf m = some (method, parameters, kind)
  | .handedOut _ => True
  | .localError => True

/-- How far a connection to a server is with its calls. -/
structure Serves (parse : Bytes → Result (Json R)) (v : Varlink (Json R)) : Prop where
  phase : Phase v.state v.current v.input.handed.length (served v)
  server : v.state.isAlive = true → v.server = true
  events : ∀ e ∈ v.history, EventOf parse v.input.handed e
  /-- The message at hand is the last text. -/
  last : v.state.isAlive = true → ∀ m, v.current = some m →
    ∃ text, v.input.handed[v.input.handed.length - 1]? = some text ∧ parse text = .ok m

variable (format : Json R → Bytes) {parse : Bytes → Result (Json R)} {v w : Varlink (Json R)}

/-- More texts make no difference to what happened. -/
theorem EventOf.mono {ts us : List Bytes} {e : VarlinkEvent (Json R)} (h : EventOf parse ts e) (hinitial : ts <+: us) :
    EventOf parse us e := by
  cases e with
  | dispatched n kind =>
    obtain ⟨text, m, method, parameters, hget, hparse, hm⟩ := h
    refine ⟨text, m, method, parameters, ?_, hparse, hm⟩
    obtain ⟨rest, rfl⟩ := hinitial
    rw [List.getElem?_append_left (List.getElem?_eq_some_iff.mp hget).1]
    exact hget
  | enqueued kind m => exact h
  | handedOut r | localError => trivial

/-- What does not count for calls. -/
theorem Serves.congr (h : v.Serves parse) (hstate : w.state = v.state) (hcurrent : w.current = v.current)
    (hhanded : w.input.handed = v.input.handed) (hhistory : w.history = v.history) (hserver : w.server = v.server) :
    w.Serves parse := by
  constructor
  · unfold served
    rw [hstate, hcurrent, hhanded, hhistory]
    exact h.phase
  · rw [hstate, hserver]
    exact h.server
  · rw [hhistory, hhanded]
    exact h.events
  · rw [hstate, hcurrent, hhanded]
    exact h.last

/-- A connection that ends leaves its calls as they are. -/
theorem Serves.dead (h : v.Serves parse) (hstate : w.state.isAlive = false)
    (hhanded : v.input.handed <+: w.input.handed) (hhistory : w.history = v.history) : w.Serves parse := by
  have hnot : ¬w.state.isAlive = true := by
    rw [hstate]
    exact Bool.false_ne_true
  refine ⟨.dead hstate ?_, fun halive => absurd halive hnot, ?_, fun halive => absurd halive hnot⟩
  · unfold served
    rw [hhistory]
    exact h.phase.orderly
  · rw [hhistory]
    exact fun e he => (h.events e he).mono hhanded

theorem Serves.close (h : v.Serves parse) : v.close.Serves parse := by
  unfold Varlink.close
  split_ifs
  · exact h
  · exact h.dead rfl (prefix_refl _) rfl

theorem Serves.dispatchLocalError (h : v.Serves parse) (hdead : v.state.isAlive = false) (closes : Bool) :
    (v.dispatchLocalError closes).Serves parse := by
  have hnot : ¬v.state.isAlive = true := by
    rw [hdead]
    exact Bool.false_ne_true
  have hlocal : ({ v with history := v.history ++ [.localError] } : Varlink (Json R)).Serves parse := by
    refine ⟨.dead hdead ?_, h.server, ?_, fun halive => absurd halive hnot⟩
    · unfold served
      rw [filter_append]
      show Orderly (served v ++ [])
      rw [append_nil]
      exact h.phase.orderly
    · intro e he
      rcases mem_append.mp he with he | he
      · exact h.events e he
      · rw [mem_singleton.mp he]
        trivial
  unfold Varlink.dispatchLocalError
  split_ifs
  · exact hlocal.close
  · exact hlocal
  · exact h

/-- The end of `sd_varlink_process` leaves the calls as they are. -/
theorem Serves.finish {x : Varlink (Json R) × Result Bool} (h : x.1.Serves parse) : (Varlink.finish x).Serves parse := by
  unfold Varlink.finish
  cases x.2 with
  | ok b => exact h
  | error er =>
    split_ifs
    · exact h.dead rfl (prefix_refl _) rfl
    · exact h.close

/-! ## Answering -/

/-- A message is enqueued, or nothing happens to the calls. -/
theorem enqueueJson_cases (v : Varlink (Json R)) (kind : VarlinkMessage) (m : Json R) (memory : MemoryAnswer) :
    (∃ o er, v.enqueueJson format kind m memory = ({ v with output := o }, .error er)) ∨
      ∃ o, v.enqueueJson format kind m memory =
        ({ v with output := o, history := v.history ++ [.enqueued kind m] }, .ok ()) := by
  unfold enqueueJson
  cases v.output.enqueueJson format kind m memory with
  | mk o r =>
    cases r with
    | error er => exact .inl ⟨o, er, rfl⟩
    | ok u => exact .inr ⟨o, rfl⟩

theorem served_enqueued (v : Varlink (Json R)) (o : VarlinkOutput (Json R)) (kind : VarlinkMessage) (m : Json R) :
    served { v with output := o, history := v.history ++ [.enqueued kind m] } = served v ++ [.enqueued kind m] := by
  unfold served
  rw [filter_append]
  rfl

/-- The states of a connection while a method is called. -/
def inMethod (s : VarlinkState) : Bool :=
  s = .processingMethod || s = .processingMethodMore || s = .processingMethodOneway || s = .processedMethod ||
    s = .disconnected

/-- The states in which a call may be answered. -/
theorem answerable_cases {s : VarlinkState} (h : answerable s = true) :
    s = .processingMethod ∨ s = .processingMethodMore ∨ s = .pendingMethod ∨ s = .pendingMethodMore := by
  cases s with
  | processingMethod => exact .inl rfl
  | processingMethodMore => exact .inr (.inl rfl)
  | pendingMethod => exact .inr (.inr (.inl rfl))
  | pendingMethodMore => exact .inr (.inr (.inr rfl))
  | _ => cases h

variable {kind : VarlinkMessage} {m p : Json R} {parameters : Option (Json R)}

/-- Where a call may be answered there is one, and a final message answers it. -/
theorem phase_answered {s : VarlinkState} {current : Option (Json R)} {n : Nat}
    {h : List (VarlinkEvent (Json R))} (hphase : Phase s current n h) (hs : answerable s = true)
    (hkind : kind = .reply ∨ kind = .error) (m : Json R) :
    Answered n (h ++ [.enqueued kind m]) ∧ ∃ c, current = some c := by
  have hfinal : ∀ {n : Nat} {k : VarlinkMessage} {h es : List (VarlinkEvent (Json R))}, Answered n h →
      Answering (n + 1) k es → Answered (n + 1) (h ++ es ++ [.enqueued kind m]) := by
    intro n k h es hn hes
    rw [append_assoc]
    rcases hkind with rfl | rfl
    · exact .replied hn hes m
    · exact .failed hn hes m
  cases hphase with
  | processing hm hn hes | processingMore hm hn hes | pending hm hn hes | pendingMore hm hn hes =>
    exact ⟨hfinal hn hes, _, rfl⟩
  | dead hdead hh =>
    rcases answerable_cases hs with rfl | rfl | rfl | rfl
    all_goals cases hdead
  | idle hn | received m hn | again hm hn hes | oneway m hn | processed m hn => cases hs

/-- What is done with a call keeps how far the connection is with its calls, and in the callback it keeps the
    states that the callback may leave. -/
structure Keeps (parse : Bytes → Result (Json R)) (v w : Varlink (Json R)) : Prop where
  serves : w.Serves parse
  inMethod : Varlink.inMethod v.state = true → Varlink.inMethod w.state = true

theorem Serves.keeps (h : v.Serves parse) : Keeps parse v v := ⟨h, id⟩

theorem Keeps.trans {u v w : Varlink (Json R)} (h : Keeps parse u v) (h' : Keeps parse v w) : Keeps parse u w :=
  ⟨h'.serves, fun hin => h'.inMethod (h.inMethod hin)⟩

/-- What is enqueued is a reply of its kind. -/
theorem Serves.enqueued (h : v.Serves parse) (hm : ∃ r, replyOf m = some r ∧ r.kind = kind) :
    ∀ e ∈ v.history ++ [.enqueued kind m], EventOf parse v.input.handed e := by
  intro e he
  rcases mem_append.mp he with he | he
  · exact h.events e he
  · rw [mem_singleton.mp he]
    exact hm

theorem Serves.answered (h : v.Serves parse) (hs : answerable v.state = true)
    (hkind : kind = .reply ∨ kind = .error) (o : VarlinkOutput (Json R))
    (hm : ∃ r, replyOf m = some r ∧ r.kind = kind) :
    Keeps parse v (answered { v with output := o, history := v.history ++ [.enqueued kind m] }) := by
  obtain ⟨hanswered, c, hcurrent⟩ := phase_answered h.phase hs hkind m
  have hserved := served_enqueued v o kind m
  have halive : v.state.isAlive = true := by
    rcases answerable_cases hs with heq | heq | heq | heq
    all_goals rw [heq]; rfl
  unfold Varlink.answered
  by_cases hpending : v.state = .pendingMethod ∨ v.state = .pendingMethodMore
  · rw [if_pos hpending]
    refine ⟨⟨?_, fun _ => h.server halive, h.enqueued hm, fun _ m hnone => absurd hnone.symm (Option.some_ne_none m)⟩, fun hin => ?_⟩
    · show Phase .idleServer none v.input.handed.length
        (served { v with output := o, history := v.history ++ [.enqueued kind m] })
      rw [hserved]
      exact .idle hanswered
    · rcases hpending with heq | heq
      all_goals
        rw [heq] at hin
        cases hin
  · rw [if_neg hpending]
    refine ⟨⟨?_, fun _ => h.server halive, h.enqueued hm, fun _ => h.last halive⟩, fun _ => rfl⟩
    show Phase .processedMethod v.current v.input.handed.length
      (served { v with output := o, history := v.history ++ [.enqueued kind m] })
    rw [hserved, hcurrent]
    exact .processed c hanswered

theorem isParameters_of_sanitize (hp : varlinkSanitizeParameters parameters = .ok p) :
    p.isParameters = true := by
  unfold varlinkSanitizeParameters at hp
  split at hp
  · cases hp
    rfl
  · cases hp
    rfl
  · cases hp
    rfl
  · cases hp

theorem replyFields_parameters {r : VarlinkReply (Json R)} (hr : r.parameters = none)
    (hp : p.isParameters = true) (fields : List (Bytes × Json R)) :
    replyFields r ((ascii "parameters", p) :: fields) = replyFields { r with parameters := some p } fields := by
  have hsome : ¬r.parameters.isSome = true := by
    rw [hr]
    exact Bool.false_ne_true
  rw [replyFields, if_neg (by decide), if_pos rfl, if_neg hsome, if_pos hp]

theorem replyOf_reply (hp : varlinkSanitizeParameters parameters = .ok p) :
    ∃ r, replyOf (.object [(ascii "parameters", p)]) = some r ∧ r.kind = .reply := by
  refine ⟨⟨some p, none, false⟩, ?_, rfl⟩
  show replyFields ⟨none, none, false⟩ [(ascii "parameters", p)] = _
  rw [replyFields_parameters rfl (isParameters_of_sanitize hp), replyFields]

theorem replyOf_error (errorId : Bytes) (hp : varlinkSanitizeParameters parameters = .ok p) :
    ∃ r, replyOf (.object [(ascii "error", .ofString errorId), (ascii "parameters", p)]) = some r ∧
      r.kind = .error := by
  refine ⟨⟨some p, some errorId, false⟩, ?_, rfl⟩
  show replyFields ⟨none, none, false⟩ [(ascii "error", .ofString errorId), (ascii "parameters", p)] = _
  show replyFields ⟨none, some errorId, false⟩ [(ascii "parameters", p)] = _
  rw [replyFields_parameters rfl (isParameters_of_sanitize hp), replyFields]

theorem replyOf_notification (hp : varlinkSanitizeParameters parameters = .ok p) :
    ∃ r, replyOf (.object [(ascii "parameters", p), (ascii "continues", .ofBoolean true)]) = some r ∧
      r.kind = .notification := by
  refine ⟨⟨some p, none, true⟩, ?_, rfl⟩
  show replyFields ⟨none, none, false⟩ [(ascii "parameters", p), (ascii "continues", .ofBoolean true)] = _
  rw [replyFields_parameters rfl (isParameters_of_sanitize hp), replyFields, if_neg (by decide), if_neg (by decide),
    if_pos rfl]
  show replyFields ⟨some p, none, true⟩ [] = _
  rw [replyFields]

/-- What is enqueued does not count for calls if it fails. -/
theorem Serves.output (h : v.Serves parse) (o : VarlinkOutput (Json R)) : Keeps parse v { v with output := o } :=
  ⟨h.congr rfl rfl rfl rfl rfl, id⟩

theorem Serves.sdVarlinkReply (h : v.Serves parse) (parameters : Option (Json R)) (memory : MemoryAnswer) :
    Keeps parse v (v.sdVarlinkReply format parameters memory).1 := by
  unfold Varlink.sdVarlinkReply
  split_ifs with hclosed hbusy
  · exact h.keeps
  · exact h.keeps
  · have hs : answerable v.state = true := by simpa using hbusy
    cases hp : varlinkSanitizeParameters parameters with
    | error er => exact h.keeps
    | ok p =>
      rcases enqueueJson_cases format v .reply (.object [(ascii "parameters", p)]) memory with
        ⟨o, er, heq⟩ | ⟨o, heq⟩
      · simp only [heq]
        exact h.output o
      · simp only [heq]
        exact h.answered hs (.inl rfl) o (replyOf_reply hp)

theorem Serves.sdVarlinkError (h : v.Serves parse) (errorId : Bytes) (parameters : Option (Json R))
    (memory : MemoryAnswer) : Keeps parse v (v.sdVarlinkError format errorId parameters memory).1 := by
  unfold Varlink.sdVarlinkError
  split_ifs with hclosed hbusy
  · exact h.keeps
  · exact h.keeps
  · have hs : answerable v.state = true := by simpa using hbusy
    have hreset := h.output v.output.resetFds
    cases hp : varlinkSanitizeParameters parameters with
    | error er => exact hreset
    | ok p =>
      rcases enqueueJson_cases format { v with output := v.output.resetFds } .error
          (.object [(ascii "error", .ofString errorId), (ascii "parameters", p)]) memory with
        ⟨o, er, heq⟩ | ⟨o, heq⟩
      · simp only [heq]
        exact hreset.trans (hreset.serves.output o)
      · simp only [heq]
        exact hreset.trans (hreset.serves.answered hs (.inr rfl) o (replyOf_error errorId hp))

/-- Where notifications are sent, a call that asked for more is not answered yet. -/
theorem Serves.notified (h : v.Serves parse)
    (hs : v.state = .processingMethodMore ∨ v.state = .pendingMethodMore) (o : VarlinkOutput (Json R))
    (hm : ∃ r, replyOf m = some r ∧ r.kind = .notification) :
    Keeps parse v { v with output := o, history := v.history ++ [.enqueued .notification m] } := by
  refine ⟨⟨?_, h.server, h.enqueued hm, h.last⟩, id⟩
  rw [served_enqueued]
  have hphase := h.phase
  show Phase v.state v.current v.input.handed.length _
  generalize v.state = s, v.current = current, v.input.handed.length = n, served v = history at hphase hs ⊢
  rcases hs with rfl | rfl
  · cases hphase with
    | processingMore hm hn hes =>
      rw [append_assoc]
      exact .processingMore hm hn (hes.notified m)
    | dead hdead hh => cases hdead
  · cases hphase with
    | pendingMore hm hn hes =>
      rw [append_assoc]
      exact .pendingMore hm hn (hes.notified m)
    | dead hdead hh => cases hdead

theorem Serves.sdVarlinkNotify (h : v.Serves parse) (parameters : Option (Json R)) (memory : MemoryAnswer) :
    Keeps parse v (v.sdVarlinkNotify format parameters memory).1 := by
  unfold Varlink.sdVarlinkNotify
  by_cases hclosed : v.state = .disconnected
  · rw [if_pos hclosed]
    exact h.keeps
  · rw [if_neg hclosed]
    by_cases hplain : v.state = .processingMethod ∨ v.state = .pendingMethod
    · rw [if_pos hplain]
      exact h.sdVarlinkError format varlinkErrorExpectedMore none memory
    · rw [if_neg hplain]
      by_cases hbusy : v.state ≠ .processingMethodMore ∧ v.state ≠ .pendingMethodMore
      · rw [if_pos hbusy]
        exact h.keeps
      · rw [if_neg hbusy]
        have hs : v.state = .processingMethodMore ∨ v.state = .pendingMethodMore := by
          by_cases hmore : v.state = .processingMethodMore
          · exact .inl hmore
          · exact .inr (by_contra fun hpending => hbusy ⟨hmore, hpending⟩)
        cases hp : varlinkSanitizeParameters parameters with
        | error er => exact h.keeps
        | ok p =>
          rcases enqueueJson_cases format v .notification
              (.object [(ascii "parameters", p), (ascii "continues", .ofBoolean true)]) memory with
            ⟨o, er, heq⟩ | ⟨o, heq⟩
          · simp only [heq]
            exact h.output o
          · simp only [heq]
            exact h.notified hs o (replyOf_notification hp)

/-- A call that is dispatched again is not answered yet. -/
theorem Serves.sdVarlinkDispatchAgain (h : v.Serves parse) (enabled : Option Errno) :
    Keeps parse v (v.sdVarlinkDispatchAgain enabled).1 := by
  unfold Varlink.sdVarlinkDispatchAgain
  by_cases hclosed : v.state = .disconnected
  · rw [if_pos hclosed]
    exact h.keeps
  · rw [if_neg hclosed]
    by_cases hbusy : v.state ≠ .pendingMethod ∧ v.state ≠ .pendingMethodMore
    · rw [if_pos hbusy]
      exact h.keeps
    · rw [if_neg hbusy]
      have hs : v.state = .pendingMethod ∨ v.state = .pendingMethodMore := by
        by_cases hpending : v.state = .pendingMethod
        · exact .inl hpending
        · exact .inr (by_contra fun hmore => hbusy ⟨hpending, hmore⟩)
      have halive : v.state.isAlive = true := by
        rcases hs with heq | heq
        all_goals rw [heq]; rfl
      refine ⟨⟨?_, fun _ => h.server halive, h.events, fun _ => h.last halive⟩, fun hin => ?_⟩
      · have hphase := h.phase
        show Phase .idleServer v.current v.input.handed.length (served v)
        generalize v.state = s, v.current = current, v.input.handed.length = n, served v = history at hphase hs ⊢
        rcases hs with rfl | rfl
        · cases hphase with
          | pending hm hn hes => exact .again hm hn hes
          | dead hdead hh => cases hdead
        · cases hphase with
          | pendingMore hm hn hes => exact .again hm hn hes
          | dead hdead hh => cases hdead
      · rcases hs with heq | heq
        all_goals
          rw [heq] at hin
          cases hin

/-- Whatever is done with a call keeps how far the connection is with its calls. -/
theorem Serves.serverAction (h : v.Serves parse) (a : ServerAction R) : Keeps parse v (v.serverAction format a) := by
  cases a with
  | reply parameters memory => exact h.sdVarlinkReply format parameters memory
  | notify parameters memory => exact h.sdVarlinkNotify format parameters memory
  | error errorId parameters memory => exact h.sdVarlinkError format errorId parameters memory
  | dispatchAgain enabled => exact h.sdVarlinkDispatchAgain enabled
  | pushFd fd memory =>
    show Keeps parse v (v.pushFd fd memory).1
    unfold Varlink.pushFd
    split_ifs
    · exact h.keeps
    · exact h.output _
  | close =>
    refine ⟨h.close, fun _ => ?_⟩
    show Varlink.inMethod v.close.state = true
    rw [close_state]
    rfl

theorem Serves.serverActions (h : v.Serves parse) (actions : List (ServerAction R)) :
    Keeps parse v (actions.foldl (Varlink.serverAction format) v) := by
  induction actions generalizing v with
  | nil => exact h.keeps
  | cons a actions ih =>
    have hfirst := h.serverAction format a
    exact hfirst.trans (ih hfirst.serves)

end Varlink

end

end Elogind
