/-
  Elogind.Basic.EnvUtil

  Assignments in lists of strings (env-util.c): which entries a pattern matches, and how an assignment is put in the place
  of the first one of its variable.
-/

import Elogind.Basic.Errno
import Elogind.Basic.StringUtil
import Mathlib.Data.List.TakeWhile

namespace Elogind

open Byte Errno List

/-! ## Entries -/

/-- `env_match` -/
def envMatch (t pattern : Bytes) : Bool :=
  if t = pattern then true
  else if !pattern.contains equals then (startswith t pattern).any fun t => t.head? = some equals
  else false

/-- `env_entry_has_name` -/
def envEntryHasName (entry name : Bytes) : Bool := (startswith entry name).any fun t => t.head? = some equals

/-- `strv_env_unset` -/
def strvEnvUnset (p : Bytes) : List Bytes → List Bytes
  | [] => []
  | f :: l => if envMatch f p then strvEnvUnset p l else f :: strvEnvUnset p l

/-- The loop of `strv_env_replace_consume`: nothing where no entry has the name. -/
def strvEnvReplaceLoop (name p : Bytes) : List Bytes → Option (List Bytes)
  | [] => none
  | f :: l => if envEntryHasName f name then some (p :: strvEnvUnset p l) else (strvEnvReplaceLoop name p l).map (f :: ·)

/-- The text before the first equals sign. -/
def assignmentName (p : Bytes) : Bytes := p.takeWhile fun c => c != equals

/-- `strv_env_replace_consume`: the result and the list afterwards, where `alloc` tells whether `strv_consume` has memory
    for one more entry. -/
def strvEnvReplaceConsume (alloc : Bool) (l : List Bytes) (p : Bytes) : Result Nat × List Bytes :=
  if !p.contains equals then (.error EINVAL, l)
  else
    match strvEnvReplaceLoop (assignmentName p) p l with
    | some l => (.ok 0, l)
    | none => if alloc then (.ok 1, l ++ [p]) else (.error ENOMEM, l)

/-! ## Names -/

/-- The entry assigns a value to the variable that `p` assigns one to. -/
def SameVariable (p e : Bytes) : Prop := e.contains equals = true ∧ assignmentName e = assignmentName p

instance (p e : Bytes) : Decidable (SameVariable p e) := inferInstanceAs (Decidable (_ ∧ _))

theorem assignment_eq {p : Bytes} (h : p.contains equals = true) : ∃ v, p = assignmentName p ++ equals :: v := by
  have hsplit := takeWhile_append_dropWhile (p := fun c => c != equals) (l := p)
  cases hdrop : p.dropWhile fun c => c != equals with
  | nil =>
    have hall := dropWhile_eq_nil_iff.mp hdrop equals (contains_iff_mem.mp h)
    cases hall
  | cons c v =>
    have hc : c = equals := by
      have hstop := head?_dropWhile_not (fun c => c != equals) p
      rw [hdrop] at hstop
      simpa using hstop
    refine ⟨v, ?_⟩
    rw [hdrop, hc] at hsplit
    exact hsplit.symm

theorem assignmentName_append {k : Bytes} (hk : equals ∉ k) (v : Bytes) : assignmentName (k ++ equals :: v) = k := by
  unfold assignmentName
  rw [takeWhile_append_of_pos, takeWhile_cons_of_neg (by decide), append_nil]
  intro c hc
  exact bne_iff_ne.mpr fun heq => hk (heq ▸ hc)

theorem not_mem_assignmentName (p : Bytes) : equals ∉ assignmentName p := by
  intro h
  have hne : (equals != equals) = true := mem_takeWhile_imp (p := fun c => c != equals) h
  cases hne

/-- The entries that have the name of an assignment are those for its variable. -/
theorem envEntryHasName_iff (p e : Bytes) : envEntryHasName e (assignmentName p) = true ↔ SameVariable p e := by
  unfold envEntryHasName startswith
  constructor
  · intro h
    by_cases hinitial : (assignmentName p).isPrefixOf e = true
    · rw [if_pos hinitial] at h
      obtain ⟨t, rfl⟩ := isPrefixOf_iff_prefix.mp hinitial
      rw [drop_left] at h
      obtain ⟨v, rfl⟩ := head?_eq_some_iff.mp (of_decide_eq_true h)
      refine ⟨?_, assignmentName_append (not_mem_assignmentName p) v⟩
      exact contains_iff_mem.mpr (mem_append_right _ (.head _))
    · rw [if_neg hinitial] at h
      cases h
  · rintro ⟨hequals, hname⟩
    obtain ⟨v, hv⟩ := assignment_eq hequals
    rw [hname] at hv
    rw [hv, if_pos (List.isPrefixOf_iff_prefix.mpr (prefix_append _ _)), drop_left]
    exact decide_eq_true (p := head? (equals :: v) = some equals) rfl

/-- A pattern with a value matches itself only. -/
theorem strvEnvUnset_eq {p : Bytes} (h : p.contains equals = true) (l : List Bytes) :
    strvEnvUnset p l = l.filter fun e => e ≠ p := by
  induction l with
  | nil => rfl
  | cons f l ih =>
    unfold strvEnvUnset envMatch
    by_cases heq : f = p
    · rw [filter_cons_of_neg (by simpa using heq), if_pos heq, if_pos rfl]
      exact ih
    · have hpattern : ¬ (!p.contains equals) = true := by
        rw [h]
        decide
      rw [filter_cons_of_pos (by simpa using heq), if_neg heq, if_neg hpattern, if_neg Bool.false_ne_true, ih]

/-! ## Replacing -/

/-- In `l'` there is one entry for the variable, which is `p`, where there was the first one in `l`, or at the end; the
    other entries are the same. -/
structure Replaced (p : Bytes) (l l' : List Bytes) : Prop where
  one : l'.filter (fun e => SameVariable p e) = [p]
  others : l'.filter (fun e => ¬ SameVariable p e) = l.filter fun e => ¬ SameVariable p e
  place : l'.findIdx (fun e => SameVariable p e) = l.findIdx fun e => SameVariable p e

/-- The entries behind the first one for the variable. -/
def laterEntries (p : Bytes) (l : List Bytes) : List Bytes := l.drop (l.findIdx (fun e => SameVariable p e) + 1)

theorem strvEnvReplaceLoop_none {p : Bytes} {l : List Bytes} (h : ∀ e ∈ l, ¬ SameVariable p e) :
    strvEnvReplaceLoop (assignmentName p) p l = none := by
  induction l with
  | nil => rfl
  | cons f l ih =>
    unfold strvEnvReplaceLoop
    rw [if_neg fun hname => h f (.head _) ((envEntryHasName_iff p f).mp hname), ih fun e he => h e (.tail _ he)]
    rfl

theorem strvEnvReplaceLoop_some {p f : Bytes} {before after : List Bytes} (hbefore : ∀ e ∈ before, ¬ SameVariable p e)
    (hf : SameVariable p f) :
    strvEnvReplaceLoop (assignmentName p) p (before ++ f :: after) = some (before ++ p :: strvEnvUnset p after) := by
  induction before with
  | nil =>
    rw [nil_append, strvEnvReplaceLoop, if_pos ((envEntryHasName_iff p f).mpr hf)]
    rfl
  | cons e before ih =>
    rw [cons_append, strvEnvReplaceLoop,
      if_neg fun hname => hbefore e (.head _) ((envEntryHasName_iff p e).mp hname), ih fun x hx => hbefore x (.tail _ hx)]
    rfl

section Lists

variable {p f : Bytes} {before after : List Bytes}

theorem filter_before (hbefore : ∀ e ∈ before, ¬ SameVariable p e) : before.filter (fun e => SameVariable p e) = [] :=
  filter_eq_nil_iff.mpr fun e he => by simpa using hbefore e he

theorem findIdx_before (hbefore : ∀ e ∈ before, ¬ SameVariable p e) (hf : SameVariable p f) :
    (before ++ f :: after).findIdx (fun e => SameVariable p e) = before.length := by
  have hnone : before.findIdx (fun e => SameVariable p e) = before.length :=
    findIdx_eq_length_of_false fun e he => decide_eq_false (hbefore e he)
  rw [findIdx_append, if_neg (by omega), findIdx_cons, decide_eq_true hf]
  exact Nat.zero_add _

theorem laterEntries_eq (hbefore : ∀ e ∈ before, ¬ SameVariable p e) (hf : SameVariable p f) :
    laterEntries p (before ++ f :: after) = after := by
  unfold laterEntries
  rw [findIdx_before hbefore hf, drop_length_add_append, drop_one, tail_cons]

/-- In the place of the first entry there is exactly one if those behind it are equal to it. -/
theorem replaced_iff (hp : p.contains equals = true) (hbefore : ∀ e ∈ before, ¬ SameVariable p e)
    (hf : SameVariable p f) :
    Replaced p (before ++ f :: after) (before ++ p :: strvEnvUnset p after) ↔ ∀ e ∈ after, SameVariable p e → e = p := by
  have hself : SameVariable p p := ⟨hp, rfl⟩
  rw [strvEnvUnset_eq hp]
  constructor
  · intro h e he hsame
    by_contra hne
    have hone := h.one
    rw [filter_append, filter_before hbefore, filter_cons_of_pos (by simpa using hself), nil_append] at hone
    have hnil := filter_eq_nil_iff.mp (cons.inj hone).2 e (mem_filter.mpr ⟨he, by simpa using hne⟩)
    exact hnil (decide_eq_true hsame)
  · intro h
    refine ⟨?_, ?_, ?_⟩
    · have hnil : (after.filter fun e => e ≠ p).filter (fun e => SameVariable p e) = [] := by
        refine filter_eq_nil_iff.mpr fun e he => ?_
        obtain ⟨he, hne⟩ := mem_filter.mp he
        rw [decide_eq_true_iff]
        exact fun hsame => of_decide_eq_true hne (h e he hsame)
      rw [filter_append, filter_before hbefore, filter_cons_of_pos (by simpa using hself), hnil]
      rfl
    · have hothers : (after.filter fun e => e ≠ p).filter (fun e => ¬ SameVariable p e) =
          after.filter fun e => ¬ SameVariable p e := by
        rw [filter_filter]
        refine filter_congr fun e _ => ?_
        by_cases heq : e = p
        · simp [heq, hself]
        · simp [heq]
      rw [filter_append, filter_append, filter_cons_of_neg (by simpa using hself),
        filter_cons_of_neg (by simpa using hf), hothers]
    · rw [findIdx_before hbefore hself, findIdx_before hbefore hf]

end Lists

/-- A list has no entry for the variable, or a first one. -/
theorem first_entry (p : Bytes) (l : List Bytes) :
    (∀ e ∈ l, ¬ SameVariable p e) ∨
      ∃ before f after, l = before ++ f :: after ∧ (∀ e ∈ before, ¬ SameVariable p e) ∧ SameVariable p f := by
  cases hfind : l.find? fun e => SameVariable p e with
  | none => exact .inl fun e he => by simpa using find?_eq_none.mp hfind e he
  | some f =>
    obtain ⟨hf, before, after, heq, hbefore⟩ := find?_eq_some_iff_append.mp hfind
    exact .inr ⟨before, f, after, heq, fun e he => by simpa using hbefore e he, of_decide_eq_true hf⟩

/-- An assignment without a former entry is put at the end. -/
theorem replaced_of_none {p : Bytes} {l : List Bytes} (hp : p.contains equals = true)
    (h : ∀ e ∈ l, ¬ SameVariable p e) : Replaced p l (l ++ [p]) := by
  have hself : SameVariable p p := ⟨hp, rfl⟩
  refine ⟨?_, ?_, ?_⟩
  · rw [filter_append, filter_before h, filter_cons_of_pos (by simpa using hself)]
    rfl
  · rw [filter_append, filter_cons_of_neg (by simpa using hself), filter_nil, append_nil]
  · rw [findIdx_before h hself, findIdx_eq_length_of_false fun e he => decide_eq_false (h e he)]

/-- When an assignment has been put into a list, it is the only one of its variable exactly if all entries for the variable
    behind the first one were equal to it. -/
theorem strvEnvReplaceConsume_replaced_iff (alloc : Bool) (l l' : List Bytes) (p : Bytes) (r : Nat)
    (h : strvEnvReplaceConsume alloc l p = (.ok r, l')) :
    Replaced p l l' ↔ ∀ e ∈ laterEntries p l, SameVariable p e → e = p := by
  unfold strvEnvReplaceConsume at h
  by_cases hp : p.contains equals = true
  · rw [if_neg (by rw [hp]; decide)] at h
    rcases first_entry p l with hnone | ⟨before, f, after, rfl, hbefore, hf⟩
    · rw [strvEnvReplaceLoop_none hnone] at h
      cases alloc with
      | false => cases h
      | true =>
        cases h
        refine iff_of_true (replaced_of_none hp hnone) fun e he hsame => ?_
        exact absurd hsame (hnone e (mem_of_mem_drop he))
    · rw [strvEnvReplaceLoop_some hbefore hf] at h
      cases h
      rw [laterEntries_eq hbefore hf]
      exact replaced_iff hp hbefore hf
  · rw [if_pos (by simpa using hp)] at h
    cases h

/-- Two assignments of one variable. -/
def twoAssignments : List Bytes := [ascii "K=1", ascii "K=2"]

/-- The second assignment of the variable stays. -/
theorem strvEnvReplaceConsume_twoAssignments :
    strvEnvReplaceConsume true twoAssignments (ascii "K=3") = (.ok 0, [ascii "K=3", ascii "K=2"]) ∧
      ¬ Replaced (ascii "K=3") twoAssignments [ascii "K=3", ascii "K=2"] := by
  refine ⟨rfl, fun h => ?_⟩
  have hone := h.one
  revert hone
  decide

theorem strvEnvReplaceConsume_twoAssignments_iff :
    Replaced (ascii "K=3") twoAssignments [ascii "K=3", ascii "K=2"] ↔
      ∀ e ∈ laterEntries (ascii "K=3") twoAssignments, SameVariable (ascii "K=3") e → e = ascii "K=3" :=
  strvEnvReplaceConsume_replaced_iff true twoAssignments _ (ascii "K=3") 0 rfl

end Elogind
