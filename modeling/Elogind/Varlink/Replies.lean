/-
  Elogind.Varlink.Replies

  What is in a message that is a reply, and what the dispatcher for replies does with one that is expected.
-/

import Elogind.Varlink.Client

namespace Elogind

open Lib Errno

variable {R : Type}

/-! ## Messages -/

theorem byKey_cons_of_ne {key k : Bytes} (e : Json R) (fields : List (Bytes × Json R)) (hne : k ≠ key) :
    (Json.object ((k, e) :: fields)).byKey key = (Json.object fields).byKey key := by
  show (((k, e) :: fields).find? fun f => f.1 = key).map Prod.snd = _
  rw [List.find?_cons_of_neg (by simpa using hne)]
  rfl

/-- A reply has what the fields of its message say. -/
theorem replyFields_eq {acc r : VarlinkReply (Json R)} {fields : List (Bytes × Json R)}
    (h : replyFields acc fields = some r) :
    r.parameters = acc.parameters.or ((Json.object fields).byKey (ascii "parameters")) ∧
      r.error = acc.error.or (((Json.object fields).byKey (ascii "error")).bind Json.asString) ∧
      (((Json.object fields).byKey (ascii "error")).isSome = true → r.error.isSome = true) ∧
      (∀ p, acc.parameters = some p → r.parameters = some p) ∧
      (∀ p, r.parameters = some p → acc.parameters = some p ∨ p.isParameters = true) := by
  induction fields generalizing acc with
  | nil =>
    cases h
    exact ⟨(Option.or_none).symm, (Option.or_none).symm, fun hf => absurd hf Bool.false_ne_true, fun p hp => hp,
      fun p hp => .inl hp⟩
  | cons field fields ih =>
    obtain ⟨k, e⟩ := field
    rw [replyFields] at h
    by_cases herror : k = ascii "error"
    · rw [if_pos herror] at h
      subst herror
      split_ifs at h with hsome
      have hacc : acc.error = none := by simpa using hsome
      cases hstring : e.asString with
      | none =>
        rw [hstring] at h
        cases h
      | some error =>
        rw [hstring] at h
        obtain ⟨hp, he, -, hkeeps, hpar⟩ := ih h
        have herr : r.error = some error := by
          rw [he]
          rfl
        refine ⟨hp, ?_, fun _ => ?_, hkeeps, hpar⟩
        · rw [herr, hacc]
          exact hstring.symm
        · rw [herr]
          rfl
    · rw [byKey_cons_of_ne e fields herror]
      by_cases hparameters : k = ascii "parameters"
      · rw [if_pos hparameters] at h
        subst hparameters
        split_ifs at h with hsome his
        have hacc : acc.parameters = none := by simpa using hsome
        obtain ⟨hp, he, hisome, hkeeps, hpar⟩ := ih h
        have hr : r.parameters = some e := hkeeps e rfl
        refine ⟨?_, he, hisome, fun p hp' => ?_, fun p hp' => .inr ?_⟩
        · rw [hr, hacc]
          rfl
        · rw [hacc] at hp'
          cases hp'
        · rw [hr] at hp'
          cases hp'
          exact his
      · rw [byKey_cons_of_ne e fields hparameters]
        split_ifs at h with hcontinues hsome
        cases hboolean : e.asBoolean with
        | none =>
          rw [hboolean] at h
          cases h
        | some b =>
          rw [hboolean] at h
          have hfields : replyFields { acc with continues := b } fields = some r := h
          have hrest := ih hfields
          exact hrest

theorem replyOf_byKey {m : Json R} {r : VarlinkReply (Json R)} (h : replyOf m = some r) :
    m.byKey (ascii "parameters") = r.parameters ∧ (m.byKey (ascii "error")).bind Json.asString = r.error ∧
      ((m.byKey (ascii "error")).isSome = true → r.error.isSome = true) ∧
      ∀ p, r.parameters = some p → p.isParameters = true := by
  unfold replyOf at h
  split at h
  · obtain ⟨hp, he, hsome, -, hpar⟩ := replyFields_eq h
    refine ⟨hp.symm, he.symm, hsome, fun p hp' => ?_⟩
    rcases hpar p hp' with hnone | his
    · cases hnone
    · exact his
  · cases h

/-- The parameters of a reply are handed out as an object. -/
theorem exists_sanitized {m : Json R} {r : VarlinkReply (Json R)} (h : replyOf m = some r) :
    ∃ fields, varlinkSanitizeParameters r.parameters = .ok (.object fields) := by
  obtain ⟨-, -, -, hpar⟩ := replyOf_byKey h
  cases hp : r.parameters with
  | none => exact ⟨[], rfl⟩
  | some p =>
    have his := hpar p hp
    unfold Json.isParameters at his
    split at his
    · exact ⟨_, rfl⟩
    · exact ⟨[], rfl⟩
    · cases his

/-- A text that is a reply shows it as it is handed to callbacks. -/
theorem shows_sanitized {parse : Bytes → Result (Json R)} {t : Bytes} {m : Json R} {r : VarlinkReply (Json R)}
    (hm : parse t = .ok m) (hr : replyOf m = some r) {fields : List (Bytes × Json R)}
    (hp : varlinkSanitizeParameters r.parameters = .ok (.object fields)) :
    Shows parse t ⟨some (.object fields), r.error, r.continues⟩ := by
  refine ⟨m, r, hm, hr, ?_⟩
  unfold VarlinkReply.sanitized
  rw [hp]
  rfl

/-- A text shows what is read of its message by the names of the fields. -/
theorem shows_byKey {parse : Bytes → Result (Json R)} {t : Bytes} {m : Json R} {r : VarlinkReply (Json R)}
    (hm : parse t = .ok m) (hr : replyOf m = some r) :
    Shows parse t ⟨m.byKey (ascii "parameters"), (m.byKey (ascii "error")).bind Json.asString, r.continues⟩ := by
  obtain ⟨hp, he, -⟩ := replyOf_byKey hr
  rw [hp, he]
  exact ⟨m, r, hm, hr, rfl⟩

/-! ## Answers -/

section

variable {parse : Bytes → Result (Json R)} {kind : VarlinkMessage} {t : Bytes} {ts : List Bytes} {m : Json R}

theorem Answer.ne_nil (h : Answer parse kind ts) : ts ≠ [] := by
  cases h with
  | final | continues => exact List.cons_ne_nil _ _

theorem Answer.parses (h : Answer parse kind ts) : ∀ t ∈ ts, 0 ∉ t ∧ ∃ m, parse t = .ok m := by
  induction h with
  | final hzero hm =>
    intro t ht
    rw [List.mem_singleton.mp ht]
    exact ⟨hzero, _, hm⟩
  | continues hkind hzero hm hr hcontinues herror hts ih =>
    intro t ht
    rcases List.mem_cons.mp ht with rfl | ht
    · exact ⟨hzero, _, hm⟩
    · exact ih t ht

/-- The next text of an answer is the last one, or others follow. -/
theorem Answer.head (h : Answer parse kind (t :: ts)) (hm : parse t = .ok m) :
    ∃ r, replyOf m = some r ∧
      (r.continues = false ∧ ts = [] ∨
        kind = .more ∧ r.continues = true ∧ r.error = none ∧ Answer parse kind ts) := by
  cases h with
  | final hzero hm' hr hfinal =>
    rw [hm] at hm'
    cases hm'
    exact ⟨_, hr, .inl ⟨hfinal, rfl⟩⟩
  | continues hkind hzero hm' hr hcontinues herror hts =>
    rw [hm] at hm'
    cases hm'
    exact ⟨_, hr, .inr ⟨hkind, hcontinues, herror, hts⟩⟩

/-- A plain call is answered by one text. -/
theorem Answer.singleton (h : Answer parse .call (t :: ts)) : ts = [] := by
  cases h with
  | final => rfl
  | continues hkind => cases hkind

/-- A reply that is expected is received. -/
theorem receivedReply_of_head {state : VarlinkState} {r : VarlinkReply (Json R)} (hr : replyOf m = some r)
    (hhead : r.continues = false ∨
      (state = .awaitingReplyMore ∨ state = .collecting) ∧ r.continues = true ∧ r.error = none) :
    Varlink.receivedReply state m = some r := by
  unfold Varlink.receivedReply
  rw [hr, Option.bind_some]
  have hallowed : ¬(state ≠ .awaitingReplyMore ∧ state ≠ .collecting ∧ r.continues = true) := by
    rintro ⟨hmore, hcollecting, hcontinues⟩
    rcases hhead with hfinal | ⟨hstate, -⟩
    · rw [hfinal] at hcontinues
      cases hcontinues
    · rcases hstate with heq | heq
      · exact hmore heq
      · exact hcollecting heq
  have hplain : ¬(r.error.isSome = true ∧ r.continues = true) := by
    rintro ⟨herror, hcontinues⟩
    rcases hhead with hfinal | ⟨-, -, hnone⟩
    · rw [hfinal] at hcontinues
      cases hcontinues
    · rw [hnone] at herror
      cases herror
  rw [if_neg hallowed, if_neg hplain]

end

end Elogind
