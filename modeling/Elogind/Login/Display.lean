/-
  Elogind.Login.Display

  The election of the display of a user (`user_elect_display`, logind-user.c).  The comparison of two sessions is
  lexicographic, and the session that is elected is a least one.
-/

import Elogind.Lib.Elect
import Elogind.Login.User
import Mathlib.Data.Prod.Lex

namespace Elogind

open Lib

/-! ## The comparison -/

/-- The members of a session that `elect_display_compare` reads; the type is missing where it is
    `_SESSION_TYPE_INVALID`. -/
structure DisplayMembers where
  stopping : Bool
  sessionClass : SessionClass
  type : Option SessionType

/-- The class is another one. -/
def DisplayMembers.notClass (s : DisplayMembers) (c : SessionClass) : Bool := s.sessionClass ≠ c

/-- The value of a boolean in a difference. -/
def flag (b : Bool) : Int := if b then 1 else 0

/-- `type_ranks`, which is not read for an invalid type. -/
def typeRank : Option SessionType → Int
  | some t => t.rank
  | none => 0

/-- `elect_display_compare`, on the members of sessions. -/
def compareDisplays : Option DisplayMembers → Option DisplayMembers → Int
  | none, none => 0
  | none, some _ => flag true - flag false
  | some _, none => flag false - flag true
  | some s₁, some s₂ =>
    if s₁.stopping ≠ s₂.stopping then flag s₁.stopping - flag s₂.stopping
    else if s₁.notClass .user ≠ s₂.notClass .user then flag (s₁.notClass .user) - flag (s₂.notClass .user)
    else if s₁.notClass .userEarly ≠ s₂.notClass .userEarly then
      flag (s₁.notClass .userEarly) - flag (s₂.notClass .userEarly)
    else if s₁.type.isNone ≠ s₂.type.isNone then flag s₁.type.isNone - flag s₂.type.isNone
    else if s₁.type ≠ s₂.type then typeRank s₁.type - typeRank s₂.type
    else 0

/-- What the comparison compares, the most significant first. -/
abbrev DisplayKey := Bool ×ₗ Bool ×ₗ Bool ×ₗ Bool ×ₗ Bool ×ₗ Int

/-- The key of a session, or of a null pointer. -/
def displayKey : Option DisplayMembers → DisplayKey
  | none => toLex (true, toLex (false, toLex (false, toLex (false, toLex (false, 0)))))
  | some s =>
    toLex (false, toLex (s.stopping, toLex (s.notClass .user, toLex (s.notClass .userEarly,
      toLex (s.type.isNone, typeRank s.type)))))

/-- A difference of booleans decides, or what comes behind it. -/
theorem flag_lt_iff {κ : Type} [LT κ] {a b : Bool} {c : Int} {x y : κ} (h : c < 0 ↔ x < y) :
    (if a ≠ b then flag a - flag b else c) < 0 ↔ toLex (a, x) < toLex (b, y) := by
  rw [Prod.Lex.toLex_lt_toLex]
  cases a <;> cases b <;> simp [flag, h]

theorem flag_neg {a b : Bool} {c d : Int} (h : d = -c) :
    (if b ≠ a then flag b - flag a else d) = -(if a ≠ b then flag a - flag b else c) := by
  cases a <;> cases b <;> simp [flag, h]

theorem compareDisplays_lt_iff (a b : Option DisplayMembers) : compareDisplays a b < 0 ↔ displayKey a < displayKey b := by
  cases a with
  | none =>
    cases b with
    | none => exact iff_of_false (lt_irrefl 0) (lt_irrefl _)
    | some s =>
      refine iff_of_false (Int.not_lt.mpr Int.one_nonneg) fun hlt => ?_
      unfold displayKey at hlt
      rw [Prod.Lex.toLex_lt_toLex] at hlt
      exact hlt.elim (fun h => absurd h not_lt_bot) fun h => nomatch h.1
  | some s =>
    cases b with
    | none =>
      refine iff_of_true (Int.negSucc_lt_zero 0) ?_
      exact Prod.Lex.toLex_lt_toLex.mpr (.inl Bool.false_lt_true)
    | some t =>
      have hnull (x y : Bool ×ₗ Bool ×ₗ Bool ×ₗ Bool ×ₗ Int) : toLex (false, x) < toLex (false, y) ↔ x < y := by
        rw [Prod.Lex.toLex_lt_toLex]
        simp
      unfold compareDisplays displayKey
      rw [hnull]
      refine flag_lt_iff (flag_lt_iff (flag_lt_iff (flag_lt_iff ?_)))
      by_cases htype : s.type = t.type
      · rw [if_neg (not_not.mpr htype), htype]
        exact iff_of_false (lt_irrefl 0) (lt_irrefl _)
      · rw [if_pos htype]
        exact ⟨Int.lt_of_sub_neg, Int.sub_neg_of_lt⟩

theorem compareDisplays_neg (a b : Option DisplayMembers) : compareDisplays b a = -compareDisplays a b := by
  cases a with
  | none => cases b <;> rfl
  | some s =>
    cases b with
    | none => rfl
    | some t =>
      refine flag_neg (flag_neg (flag_neg (flag_neg ?_)))
      by_cases htype : s.type = t.type
      · rw [if_neg (not_not.mpr htype), if_neg (not_not.mpr htype.symm)]
        rfl
      · rw [if_pos htype, if_pos (Ne.symm htype)]
        omega

theorem compareDisplays_le_iff (a b : Option DisplayMembers) :
    compareDisplays a b ≤ 0 ↔ displayKey a ≤ displayKey b := by
  have hneg := compareDisplays_neg a b
  have hlt := compareDisplays_lt_iff b a
  rw [← not_lt, ← not_lt, ← hlt]
  omega

namespace Manager

/-- The members of a session in memory, where every type is valid. -/
def displayMembers (m : Manager) (s : Ref) : DisplayMembers :=
  ⟨m.session.stopping s, m.session.sessionClass s, some (m.session.type s)⟩

theorem electDisplayCompare_eq (m : Manager) (a b : Option Ref) :
    m.electDisplayCompare a b = compareDisplays (a.map m.displayMembers) (b.map m.displayMembers) := by
  cases a with
  | none => cases b <;> rfl
  | some s =>
    cases b with
    | none => rfl
    | some t =>
      have htypes : (m.session.type s).rank - (m.session.type t).rank =
          if some (m.session.type s) ≠ some (m.session.type t) then (m.session.type s).rank - (m.session.type t).rank
          else 0 := by
        by_cases htype : m.session.type s = m.session.type t
        · rw [if_neg (not_not.mpr (congrArg some htype)), htype, Int.sub_self]
        · rw [if_pos fun h => htype (Option.some.inj h)]
      unfold electDisplayCompare compareDisplays
      dsimp only [Option.map_some]
      rw [htypes]
      rfl

/-! ## The election -/

/-- The candidates among the sessions of a user. -/
def displayCandidates (m : Manager) (u : Ref) : List Ref := (m.user.sessions u).filter m.electDisplayFilter

/-- What is compared of a session. -/
def displayKeyOf (m : Manager) (s : Option Ref) : DisplayKey := displayKey (s.map m.displayMembers)

theorem electDisplayCompare_lt_iff (m : Manager) (a b : Option Ref) :
    m.electDisplayCompare a b < 0 ↔ m.displayKeyOf a < m.displayKeyOf b := by
  rw [electDisplayCompare_eq]
  exact compareDisplays_lt_iff _ _

/-- A round changes the display only. -/
theorem electDisplay_eq (m : Manager) (u s : Ref) :
    (m.electDisplay u s).session = m.session ∧ (m.electDisplay u s).user.sessions = m.user.sessions ∧
      (m.electDisplay u s).user.display u =
        if m.electDisplayFilter s ∧ m.displayKeyOf (some s) < m.displayKeyOf (m.user.display u) then some s
        else m.user.display u := by
  unfold electDisplay
  have hiff : (m.electDisplayFilter s && m.electDisplayCompare (some s) (m.user.display u) < 0) = true ↔
      m.electDisplayFilter s ∧ m.displayKeyOf (some s) < m.displayKeyOf (m.user.display u) := by
    rw [Bool.and_eq_true, decide_eq_true_iff, electDisplayCompare_lt_iff]
  by_cases hbetter : m.electDisplayFilter s ∧ m.displayKeyOf (some s) < m.displayKeyOf (m.user.display u)
  · rw [if_pos (hiff.mpr hbetter), if_pos hbetter]
    exact ⟨rfl, rfl, Function.update_self ..⟩
  · rw [if_neg fun h => hbetter (hiff.mp h), if_neg hbetter]
    exact ⟨rfl, rfl, rfl⟩

/-- The display is what is elected among the candidates. -/
theorem userElectDisplay_eq (m : Manager) (u : Ref) :
    (m.userElectDisplay u).session = m.session ∧
      (m.userElectDisplay u).user.display u =
        elect m.displayKeyOf (m.user.display u) ((m.displayCandidates u).map some) := by
  have hloop : ∀ (l : List Ref) (m' : Manager), m'.session = m.session →
      (l.foldl (electDisplay u) m').session = m.session ∧
        (l.foldl (electDisplay u) m').user.display u =
          elect m.displayKeyOf (m'.user.display u) ((l.filter m.electDisplayFilter).map some) := by
    intro l
    induction l with
    | nil => exact fun m' h => ⟨h, rfl⟩
    | cons s l ih =>
      intro m' h
      obtain ⟨hsession, -, hdisplay⟩ := electDisplay_eq m' u s
      obtain ⟨hsession', hdisplay'⟩ := ih (m'.electDisplay u s) (hsession.trans h)
      refine ⟨hsession', hdisplay'.trans ?_⟩
      have hfilter : m'.electDisplayFilter s = m.electDisplayFilter s := by
        unfold electDisplayFilter
        rw [h]
      have hkey : m'.displayKeyOf = m.displayKeyOf := by
        unfold displayKeyOf displayMembers
        rw [h]
      rw [hdisplay, hfilter, hkey]
      by_cases hcandidate : m.electDisplayFilter s = true
      · rw [List.filter_cons_of_pos hcandidate, List.map_cons, elect_cons]
        simp only [hcandidate, true_and]
      · rw [List.filter_cons_of_neg hcandidate, if_neg fun hboth => hcandidate hboth.1]
  exact hloop _ m rfl

/-- Sessions are compared by a total preorder that puts a null pointer last.  After an election no candidate is strictly
    preferred over the display; where none was over the display before, this one is kept; and there is a display where
    there is a candidate. -/
theorem userElectDisplay_elects :
    ((∀ a b, compareDisplays b a = -compareDisplays a b) ∧
      (∀ a b c, compareDisplays a b ≤ 0 → compareDisplays b c ≤ 0 → compareDisplays a c ≤ 0) ∧
      ∀ s, compareDisplays (some s) none < 0) ∧
    ∀ (m : Manager) (u : Ref),
      (∀ a b, m.electDisplayCompare a b = compareDisplays (a.map m.displayMembers) (b.map m.displayMembers)) ∧
      (∀ s ∈ m.user.sessions u, m.electDisplayFilter s = true →
        ¬ m.electDisplayCompare (some s) ((m.userElectDisplay u).user.display u) < 0) ∧
      ((∀ s ∈ m.user.sessions u, m.electDisplayFilter s = true →
          ¬ m.electDisplayCompare (some s) (m.user.display u) < 0) →
        (m.userElectDisplay u).user.display u = m.user.display u) ∧
      ((∃ s ∈ m.user.sessions u, m.electDisplayFilter s = true) → (m.userElectDisplay u).user.display u ≠ none) := by
  refine ⟨⟨compareDisplays_neg, fun a b c hab hbc => ?_, fun s => ?_⟩, fun m u => ?_⟩
  · rw [compareDisplays_le_iff] at hab hbc ⊢
    exact hab.trans hbc
  · exact Int.negSucc_lt_zero 0
  have hdisplay := (userElectDisplay_eq m u).2
  have hcandidate {s : Ref} (hs : s ∈ m.user.sessions u) (hfilter : m.electDisplayFilter s = true) :
      some s ∈ (m.displayCandidates u).map some :=
    List.mem_map_of_mem (List.mem_filter.mpr ⟨hs, hfilter⟩)
  have hleast {s : Ref} (hs : s ∈ m.user.sessions u) (hfilter : m.electDisplayFilter s = true) :
      ¬ m.electDisplayCompare (some s) ((m.userElectDisplay u).user.display u) < 0 := by
    rw [electDisplayCompare_lt_iff, hdisplay, not_lt]
    exact elect_le _ _ _ _ (hcandidate hs hfilter)
  refine ⟨m.electDisplayCompare_eq, fun s hs hfilter => hleast hs hfilter, fun hkept => ?_, ?_⟩
  · rw [hdisplay]
    refine elect_eq_first fun x hx => ?_
    obtain ⟨s, hs, rfl⟩ := List.mem_map.mp hx
    obtain ⟨hs, hfilter⟩ := List.mem_filter.mp hs
    rw [← electDisplayCompare_lt_iff]
    exact hkept s hs hfilter
  · rintro ⟨s, hs, hfilter⟩ hnone
    refine hleast hs hfilter ?_
    rw [hnone]
    exact Int.negSucc_lt_zero 0

end Manager

end Elogind
