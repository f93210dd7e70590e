/-
  Elogind.Event.SleepBetween

  When the event loop wakes up within a window of time (`sleep_between` of sd-event.c): at the same spot of
  every minute if the window allows it, else of every 10 s, 1 s or 250 ms.
-/

import Mathlib.Data.Nat.ModEq
import Elogind.Basic.Timespan

namespace Elogind

/-- The spot of a unit before `b`, if there is one; the sum is one of 64-bit numbers. -/
def sleepSpot (unit spot b : Nat) : Option Nat :=
  let c := (b / unit * unit + spot) % 2 ^ 64
  if c ≥ b then
    if c < unit then none else some (c - unit)
  else some c

/-- The stages of `sleep_between`, for the units and their spots. -/
def sleepStages (a b : Nat) : List (Nat × Nat) → Nat
  | [] => b
  | (unit, spot) :: rest =>
    match sleepSpot unit spot b with
    | none => b
    | some c => if c ≥ a then c else sleepStages a b rest

/-- The units that are tried, and the spot in each. -/
def sleepUnits (perturb : Nat) : List (Nat × Nat) :=
  [(usecPerMinute, perturb), (usecPerSec * 10, perturb % (usecPerSec * 10)),
    (usecPerSec, perturb % usecPerSec), (usecPerMsec * 250, perturb % (usecPerMsec * 250))]

/-- `sleep_between` -/
def sleepBetween (perturb a b : Nat) : Nat :=
  if a ≤ 0 then 0
  else if a ≥ usecInfinity then usecInfinity
  else if b ≤ (a + 1) % 2 ^ 64 then a
  else sleepStages a b (sleepUnits perturb)

/-! ## The window -/

theorem sleepSpot_le {unit spot b c : Nat} (hspot : spot < unit) (h : sleepSpot unit spot b = some c) :
    c ≤ b := by
  have hfloor : b / unit * unit ≤ b := Nat.div_mul_le_self b unit
  unfold sleepSpot at h
  dsimp only at h
  split at h
  · split at h
    · cases h
    · cases h
      omega
  · cases h
    omega

theorem sleepStages_mem {a b : Nat} (hab : a ≤ b) {units : List (Nat × Nat)}
    (hunits : ∀ u ∈ units, u.2 < u.1) : a ≤ sleepStages a b units ∧ sleepStages a b units ≤ b := by
  induction units with
  | nil => exact ⟨hab, Nat.le_refl b⟩
  | cons u units ih =>
    unfold sleepStages
    split
    · exact ⟨hab, Nat.le_refl b⟩
    · next c hc =>
      split
      · next hge => exact ⟨hge, sleepSpot_le (hunits u (.head _)) hc⟩
      · exact ih fun v hv => hunits v (.tail _ hv)

theorem sleepUnits_lt {perturb : Nat} (hp : perturb < usecPerMinute) :
    ∀ u ∈ sleepUnits perturb, u.2 < u.1 := by
  intro u hu
  simp only [sleepUnits, List.mem_cons, List.not_mem_nil, or_false] at hu
  rcases hu with rfl | rfl | rfl | rfl
  · exact hp
  all_goals exact Nat.mod_lt _ (by decide)

/-! ## The latest spot -/

/-- The instants of the window at a spot of the unit. -/
def spotsIn (unit spot a b : Nat) : Set Nat := { t | a ≤ t ∧ t < b ∧ t % unit = spot % unit }

/-- `c` is the latest instant at a spot of the first unit that has one in the window, and else its end. -/
def LatestSpot (perturb a b : Nat) : List Nat → Nat → Prop
  | [], c => c = b
  | unit :: rest, c =>
    ((spotsIn unit perturb a b).Nonempty → IsGreatest (spotsIn unit perturb a b) c) ∧
      (¬ (spotsIn unit perturb a b).Nonempty → LatestSpot perturb a b rest c)

/-- Away from both ends of time, a stage finds the latest spot before `b`. -/
theorem sleepSpot_greatest {unit spot b : Nat} (hspot : spot < unit) (hle : unit ≤ b)
    (hover : b + unit < 2 ^ 64) :
    ∃ c, sleepSpot unit spot b = some c ∧ c < b ∧ c % unit = spot ∧ ∀ t, t < b → t % unit = spot → t ≤ c := by
  have hpos : 0 < unit := Nat.zero_lt_of_lt hspot
  have hfloor : b / unit * unit ≤ b := Nat.div_mul_le_self b unit
  have hceil : b < b / unit * unit + unit := Nat.lt_div_mul_add hpos
  have hone : unit ≤ b / unit * unit := Nat.le_mul_of_pos_left unit (Nat.div_pos hle hpos)
  have hmod : (b / unit * unit + spot) % 2 ^ 64 = b / unit * unit + spot := Nat.mod_eq_of_lt (by omega)
  -- two instants at the spot that are less than a unit apart are the same
  have hnear : ∀ c, c % unit = spot → b ≤ c + unit → ∀ t, t < b → t % unit = spot → t ≤ c := by
    intro c hc hb t ht hts
    by_contra hlt
    have hlt : c < t := Nat.lt_of_not_le hlt
    have hdvd : unit ∣ t - c := (Nat.modEq_iff_dvd' hlt.le).mp (hc.trans hts.symm)
    have := Nat.le_of_dvd (by omega) hdvd
    omega
  unfold sleepSpot
  rw [hmod]
  dsimp only
  split
  · rw [if_neg (by omega)]
    refine ⟨_, rfl, by omega, ?_, hnear _ ?_ (by omega)⟩
    all_goals
      rw [show b / unit * unit + spot - unit = spot + unit * (b / unit - 1) by
        rw [Nat.mul_sub_one, Nat.mul_comm unit]
        omega, Nat.add_mul_mod_self_left, Nat.mod_eq_of_lt hspot]
  · refine ⟨_, rfl, by omega, ?_, hnear _ ?_ (by omega)⟩
    all_goals rw [Nat.mul_add_mod', Nat.mod_eq_of_lt hspot]

theorem sleepStages_latest {perturb a b : Nat} {units : List Nat}
    (hunits : ∀ u ∈ units, 0 < u ∧ u ≤ b ∧ b + u < 2 ^ 64) :
    LatestSpot perturb a b units (sleepStages a b (units.map fun u => (u, perturb % u))) := by
  induction units with
  | nil => rfl
  | cons u units ih =>
    obtain ⟨hpos, hle, hover⟩ := hunits u (.head _)
    obtain ⟨c, hc, hlt, hspot, hmax⟩ := sleepSpot_greatest (Nat.mod_lt perturb hpos) hle hover
    rw [List.map_cons, sleepStages, hc]
    dsimp only
    split
    · next hge =>
      have hmem : c ∈ spotsIn u perturb a b := ⟨hge, hlt, hspot⟩
      exact ⟨fun _ => ⟨hmem, fun t ht => hmax t ht.2.1 ht.2.2⟩, fun hno => absurd ⟨c, hmem⟩ hno⟩
    · next hlow =>
      -- even the latest instant at a spot is before the window
      have hempty : ¬ (spotsIn u perturb a b).Nonempty := by
        rintro ⟨t, hat, htb, ht⟩
        exact hlow (Nat.le_trans hat (hmax t htb ht))
      exact ⟨fun hno => absurd hno hempty, fun _ => ih fun v hv => hunits v (.tail _ hv)⟩

/-- Waking up stays inside the window; and where neither end of time is near, it is the latest instant of
    the window at the spot of the minute or, if there is none, of 10 s, of 1 s or of 250 ms, and else the end
    of the window. -/
theorem sleepBetween_within {perturb a b : Nat} (hp : perturb < usecPerMinute) (hab : a ≤ b)
    (hb : b < 2 ^ 64) :
    a ≤ sleepBetween perturb a b ∧ sleepBetween perturb a b ≤ b ∧
      (a = 0 → sleepBetween perturb a b = 0) ∧
      (a = usecInfinity → sleepBetween perturb a b = usecInfinity) ∧
      (0 < a → a + 1 < b → usecPerMinute ≤ b → b + usecPerMinute < 2 ^ 64 →
        LatestSpot perturb a b [usecPerMinute, usecPerSec * 10, usecPerSec, usecPerMsec * 250]
          (sleepBetween perturb a b)) := by
  have hstages := sleepStages_mem hab (sleepUnits_lt hp)
  have hinf : usecInfinity = 2 ^ 64 - 1 := rfl
  have hmod : a < usecInfinity → (a + 1) % 2 ^ 64 = a + 1 := fun h => Nat.mod_eq_of_lt (by omega)
  unfold sleepBetween
  refine ⟨?_, ?_, fun h => if_pos (Nat.le_of_eq h), fun h => ?_, fun ha hlt hmin hover => ?_⟩
  · split
    · omega
    · split
      · omega
      · split
        · exact Nat.le_refl a
        · exact hstages.1
  · split
    · exact Nat.zero_le b
    · split
      · omega
      · split
        · exact hab
        · exact hstages.2
  · rw [if_neg (by omega), if_pos (by omega)]
  · rw [if_neg (by omega), if_neg (by omega), hmod (by omega), if_neg (by omega)]
    have hspots : sleepUnits perturb =
        [usecPerMinute, usecPerSec * 10, usecPerSec, usecPerMsec * 250].map fun u => (u, perturb % u) := by
      simp only [sleepUnits, List.map_cons, List.map_nil, Nat.mod_eq_of_lt hp]
    rw [hspots]
    refine sleepStages_latest fun u hu => ?_
    have hunit : 0 < u ∧ u ≤ usecPerMinute := by
      revert u
      decide
    omega

/-- Between 90 s and 150 s, with the spot 5 s after the minute, the loop wakes up at 125 s. -/
theorem sleepBetween_minute :
    sleepBetween 5000000 90000000 150000000 = 125000000 ∧ sleepBetween 5000000 90000000 150000000 ≤ 150000000 :=
  ⟨by decide, (sleepBetween_within (by decide) (by decide) (by decide)).2.1⟩

end Elogind
