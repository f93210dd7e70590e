/-
  Elogind.Login.SeatSessions

  Reading the sessions of a seat and their users from its state file: `sd_seat_get_sessions` (sd-login.c).

  The array for the users has one element for each session.  What is written to it is followed element by
  element, also beyond its end.  There is enough memory.
-/

import Elogind.Basic.EnvFile
import Elogind.Basic.ExtractWord
import Elogind.Basic.ParseUtil

namespace Elogind

open Byte Errno

/-- `WHITESPACE` -/
def whitespace : Bytes := [space, tab, newline, carriageReturn]

/-- `strv_split` at white space.  Its loop ends. -/
def strvSplit (s : Bytes) : Result (List Bytes) :=
  (strvSplitFull s whitespace { retainEscape := true }).getD (.error ENOMEM)

/-- The loop over the users, for at most so many rounds: the elements that are written from the element
    `n` on, and how the loop ends. -/
def readUids : Nat → Option Bytes → Nat → Option (List (Nat × Nat) × Result Unit)
  | 0, _, _ => none
  | k + 1, p, n =>
    match extractFirstWord whitespace {} p with
    | .error e => some ([], .error e)
    | .ok (none, _) => some ([], .ok ())
    | .ok (some word, p') =>
      match parseUid word with
      | .error e => some ([], .error e)
      | .ok uid => (readUids k p' (n + 1)).map fun (writes, r) => ((n, uid) :: writes, r)

/-- What `sd_seat_get_sessions` returns. -/
structure SeatSessions where
  nSessions : Nat
  sessions : Option (List Bytes)
  uids : Option (List Nat)
  deriving DecidableEq, Repr

/-- A call of `sd_seat_get_sessions`: how many elements were allocated, which were written, and what is
    returned. -/
structure SeatRead where
  allocated : Nat
  writes : List (Nat × Nat)
  result : Result SeatSessions
  deriving DecidableEq, Repr

/-- `sd_seat_get_sessions` from the values of `SESSIONS` and `UIDS` on, for a caller who wants the users. -/
def seatSessions (sessionLine uidLine : Option Bytes) : SeatRead :=
  match sessionLine.mapM strvSplit with
  | .error _ => ⟨0, [], .error ENOMEM⟩
  | .ok sessions =>
    let n := (sessions.getD []).length
    match uidLine with
    | none => ⟨n, [], .ok ⟨n, sessions, none⟩⟩
    | some line =>
      match readUids (extractRounds (some line)) (some line) 0 with
      | none => ⟨n, [], .error EINVAL⟩ -- not reached: the loop ends
      | some (writes, .error e) => ⟨n, writes, .error e⟩
      | some (writes, .ok ()) =>
        if writes.length ≠ n then ⟨n, writes, .error EUCLEAN⟩
        else ⟨n, writes, .ok ⟨n, sessions, some (writes.map Prod.snd)⟩⟩

/-- `sd_seat_get_sessions`, for the text of the state file. -/
def sdSeatGetSessions (text : Bytes) : SeatRead :=
  match parseEnvFile text with
  | .error e => ⟨0, [], .error e⟩
  | .ok as => seatSessions (lookup (ascii "SESSIONS") as) (lookup (ascii "UIDS") as)

/-! ## The users at the beginning of a text -/

/-- The text begins with the users `us`. -/
inductive BeginsWithUids : Option Bytes → List Nat → Prop where
  | nil (p : Option Bytes) : BeginsWithUids p []
  | cons {p p' : Option Bytes} {w : Bytes} {u : Nat} {us : List Nat}
      (word : extractFirstWord whitespace {} p = .ok (some w, p')) (uid : parseUid w = .ok u)
      (rest : BeginsWithUids p' us) : BeginsWithUids p (u :: us)

/-- The words of the text are the users `us`. -/
def UidWords (p : Option Bytes) (us : List Nat) : Prop :=
  ∃ n ws, strvSplitLoop whitespace {} n p = some (.ok ws) ∧ ws.map parseUid = us.map .ok

theorem readUids_ends {n : Nat} {p : Option Bytes} (hn : extractRounds p ≤ n) (i : Nat) :
    ∃ writes r, readUids n p i = some (writes, r) := by
  obtain ⟨ws, hws⟩ := @strvSplitLoop_ends whitespace {} _ rfl _ hn
  clear hn
  induction n generalizing p i ws with
  | zero => cases hws
  | succ n ih =>
    rw [strvSplitLoop] at hws
    rw [readUids]
    rcases heq : extractFirstWord whitespace {} p with e | ⟨_ | w, p'⟩
    · exact ⟨[], _, rfl⟩
    · exact ⟨[], _, rfl⟩
    · rw [heq] at hws
      dsimp only at hws ⊢
      split
      · exact ⟨_, _, rfl⟩
      · obtain ⟨r, hr, -⟩ := Option.map_eq_some_iff.mp hws
        obtain ⟨writes, r', hrest⟩ := ih (i + 1) _ hr
        exact ⟨_, _, by rw [hrest, Option.map_some]⟩

/-- The loop writes the users at the beginning of the text to consecutive elements.  It succeeds exactly
    when these are all words of the text. -/
theorem readUids_spec {n : Nat} {p : Option Bytes} {i : Nat} {writes : List (Nat × Nat)} {r : Result Unit}
    (h : readUids n p i = some (writes, r)) :
    writes.map Prod.fst = List.range' i writes.length ∧
      BeginsWithUids p (writes.map Prod.snd) ∧
      (∀ us, BeginsWithUids p us → us.length ≤ writes.length) ∧
      (r = .ok () → UidWords p (writes.map Prod.snd)) ∧
      ∀ us, UidWords p us → r = .ok () ∧ writes.map Prod.snd = us := by
  induction n generalizing p i writes with
  | zero => cases h
  | succ n ih =>
    unfold readUids at h
    -- where the loop stops, the text begins with no user
    have hstop : ∀ us, (∀ w p', extractFirstWord whitespace {} p = .ok (some w, p') → ∀ u, parseUid w ≠ .ok u) →
        BeginsWithUids p us → us.length ≤ ([] : List (Nat × Nat)).length := by
      rintro us hno (_ | ⟨hw, hu, -⟩)
      · exact Nat.le_refl _
      · exact absurd hu (hno _ _ hw _)
    have hsplit : ∀ us, UidWords p us → ∃ k ws, strvSplitLoop whitespace {} (k + 1) p = some (.ok ws) ∧
        ws.map parseUid = us.map .ok := by
      rintro us ⟨_ | k, ws, hws, hus⟩
      · cases hws
      · exact ⟨k, ws, hws, hus⟩
    split at h
    · next e heq =>
      cases h
      refine ⟨rfl, .nil p, fun us => hstop us fun w p' hw => by simp [heq] at hw, nofun, fun us hus => ?_⟩
      obtain ⟨k, ws, hws, -⟩ := hsplit us hus
      simp [strvSplitLoop, heq] at hws
    · next p' heq =>
      cases h
      refine ⟨rfl, .nil p, fun us => hstop us fun w p' hw => by simp [heq] at hw,
        fun _ => ⟨1, [], by simp [strvSplitLoop, heq], rfl⟩, fun us hus => ?_⟩
      obtain ⟨k, ws, hws, hus⟩ := hsplit us hus
      obtain rfl : ws = [] := by simpa [strvSplitLoop, heq, eq_comm] using hws
      exact ⟨rfl, by simpa [eq_comm] using hus⟩
    · next w p' heq =>
      split at h
      · next e huid =>
        cases h
        refine ⟨rfl, .nil p, fun us => hstop us fun w' p'' hw u hu => ?_, nofun, fun us hus => ?_⟩
        · rw [heq] at hw
          cases hw
          rw [huid] at hu
          cases hu
        · obtain ⟨k, ws, hws, hus⟩ := hsplit us hus
          simp only [strvSplitLoop, heq] at hws
          obtain ⟨r', -, hr'⟩ := Option.map_eq_some_iff.mp hws
          cases r' with
          | error e => cases hr'
          | ok rest =>
            cases hr'
            cases us <;> simp [huid] at hus
      · next u huid =>
        obtain ⟨⟨writes', r'⟩, hrest, heq'⟩ := Option.map_eq_some_iff.mp h
        cases heq'
        obtain ⟨hrange, hbegin, hmax, hok, hall⟩ := ih hrest
        refine ⟨?_, .cons heq huid hbegin, ?_, ?_, ?_⟩
        · rw [List.map_cons, List.length_cons, List.range'_succ, hrange]
        · rintro us (_ | ⟨hw, hu, hus⟩)
          · exact Nat.zero_le _
          · rw [heq] at hw
            cases hw
            exact Nat.succ_le_succ (hmax _ hus)
        · intro hr
          obtain ⟨k, ws, hws, hus⟩ := hok hr
          exact ⟨k + 1, w :: ws, by simp [strvSplitLoop, heq, hws, Except.map], by simp [huid, hus]⟩
        · intro us hus
          obtain ⟨k, ws, hws, hus⟩ := hsplit us hus
          simp only [strvSplitLoop, heq] at hws
          obtain ⟨r'', hr'', hmap⟩ := Option.map_eq_some_iff.mp hws
          cases r'' with
          | error e => cases hmap
          | ok rest =>
            cases hmap
            cases us with
            | nil => simp at hus
            | cons v us =>
              simp only [List.map_cons, List.cons.injEq, huid, Except.ok.injEq] at hus
              obtain ⟨hr, hsnd⟩ := hall us ⟨k, rest, hr'', hus.2⟩
              exact ⟨hr, by simp [hsnd, hus.1]⟩

/-! ## What a caller can rely on -/

/-- The elements that are written are inside the array; what is returned are as many users as sessions,
    which are the words of `UIDS`; and where these are as many users as do not fit, the file is unclean. -/
structure SeatRead.Right (r : SeatRead) (uidLine : Option Bytes) : Prop where
  inside : ∀ w ∈ r.writes, w.1 < r.allocated
  uids : ∀ l, r.result = .ok l → l.nSessions = r.allocated ∧ (l.uids.getD []).length = l.nSessions ∧
    ∀ line, uidLine = some line → UidWords (some line) (l.uids.getD [])
  unclean : ∀ e line us, r.result = .error e → uidLine = some line → UidWords (some line) us →
    us.length ≠ r.allocated → e = EUCLEAN

/-- Reading the file is right exactly when `UIDS` does not begin with more users than there are sessions,
    and is missing only where there are none. -/
theorem seatSessions_right_iff {sessions : Option (List Bytes)} {sessionLine : Option Bytes}
    (hs : sessionLine.mapM strvSplit = .ok sessions) (uidLine : Option Bytes) :
    (seatSessions sessionLine uidLine).Right uidLine ↔
      (uidLine = none → (sessions.getD []).length = 0) ∧
      ∀ line us, uidLine = some line → BeginsWithUids (some line) us → us.length ≤ (sessions.getD []).length := by
  unfold seatSessions
  rw [hs]
  cases uidLine with
  | none =>
    constructor
    · intro h
      exact ⟨fun _ => (h.uids _ rfl).2.1.symm, nofun⟩
    · intro h
      refine ⟨nofun, ?_, nofun⟩
      rintro _ ⟨⟩
      exact ⟨rfl, (h.1 rfl).symm, nofun⟩
  | some line =>
    obtain ⟨writes, r, hread⟩ := readUids_ends (Nat.le_refl (extractRounds (some line))) 0
    obtain ⟨hrange, hbegin, hmax, hok, hall⟩ := readUids_spec hread
    -- the elements are consecutive, so the last one is inside exactly when there are not too many
    have hinside : (∀ w ∈ writes, w.1 < (sessions.getD []).length) ↔ writes.length ≤ (sessions.getD []).length := by
      have hfst : (∀ w ∈ writes, w.1 < (sessions.getD []).length) ↔
          ∀ i ∈ writes.map Prod.fst, i < (sessions.getD []).length := by simp
      rw [hfst, hrange]
      simp only [List.mem_range'_1, Nat.zero_le, true_and, Nat.zero_add]
      constructor
      · intro h
        by_contra hlt
        exact absurd (h _ (Nat.lt_of_not_le hlt)) (Nat.lt_irrefl _)
      · exact fun h i hi => Nat.lt_of_lt_of_le hi h
    -- the loop writes as many users as the text begins with
    have hcond : ((some line = none → (sessions.getD []).length = 0) ∧ ∀ line' us, some line = some line' →
        BeginsWithUids (some line') us → us.length ≤ (sessions.getD []).length) ↔
        writes.length ≤ (sessions.getD []).length := by
      constructor
      · intro h
        have := h.2 line _ rfl hbegin
        rwa [List.length_map] at this
      · intro h
        refine ⟨nofun, ?_⟩
        rintro _ us ⟨⟩ hus
        exact Nat.le_trans (hmax us hus) h
    rw [hcond]
    dsimp only
    rw [hread]
    constructor
    · intro h
      refine hinside.mp ?_
      revert h
      cases r with
      | error e => exact fun h => h.inside
      | ok u =>
        dsimp only
        split <;> exact fun h => h.inside
    · intro hle
      cases r with
      | error e =>
        refine ⟨hinside.mpr hle, nofun, ?_⟩
        rintro _ _ us ⟨⟩ ⟨⟩ hus
        cases (hall us hus).1
      | ok u =>
        dsimp only
        split
        · refine ⟨hinside.mpr hle, nofun, ?_⟩
          rintro _ _ _ ⟨⟩
          exact fun _ _ _ => rfl
        · next hlen =>
          refine ⟨hinside.mpr hle, ?_, nofun⟩
          rintro _ ⟨⟩
          refine ⟨rfl, by simpa using hlen, ?_⟩
          rintro _ ⟨⟩
          exact hok rfl

/-- The number of words of `SESSIONS`. -/
def sessionCount (as : List Assignment) : Nat :=
  ((lookup (ascii "SESSIONS") as).elim [] fun line => ((strvSplit line).toOption.getD [])).length

/-- The values are as `sd_seat_get_sessions` needs them: `UIDS` does not begin with more users than there
    are sessions, and is missing only where there are none. -/
def UidsFit (as : List Assignment) : Prop :=
  (lookup (ascii "UIDS") as = none → sessionCount as = 0) ∧
    ∀ line us, lookup (ascii "UIDS") as = some line → BeginsWithUids (some line) us →
      us.length ≤ sessionCount as

/-- With escapes retained there is nothing at which splitting could fail. -/
theorem strvSplit_ok (s : Bytes) : ∃ ws, strvSplit s = .ok ws := by
  have hloop : ∀ (p : Bytes) (t : Bytes), ∃ o,
      extractLoop whitespace { retainEscape := true } none false 0 t p = .ok o := by
    intro p
    induction p with
    | nil => exact fun t => ⟨_, rfl⟩
    | cons c p ih =>
      intro t
      simp only [extractLoop, Bool.or_self, Bool.false_eq_true, and_false, if_false, Bool.not_true]
      split
      · split <;> exact ⟨_, rfl⟩
      · exact ih _
  have hfirst : ∀ p, ∃ o, extractFirstWord whitespace { retainEscape := true } p = .ok o := by
    intro p
    cases p with
    | none => exact ⟨_, rfl⟩
    | some p =>
      simp only [extractFirstWord, Bool.false_eq_true, if_false]
      split
      · exact ⟨_, rfl⟩
      · exact hloop _ _
  have hsplit : ∀ n p r, strvSplitLoop whitespace { retainEscape := true } n p = some r → ∃ ws, r = .ok ws := by
    intro n
    induction n with
    | zero =>
      intro p r h
      cases h
    | succ n ih =>
      intro p r h
      obtain ⟨o, ho⟩ := hfirst p
      unfold strvSplitLoop at h
      rw [ho] at h
      split at h
      · next heq => cases heq
      · cases h
        exact ⟨_, rfl⟩
      · obtain ⟨r', hr', rfl⟩ := Option.map_eq_some_iff.mp h
        obtain ⟨ws, rfl⟩ := ih _ _ hr'
        exact ⟨_, rfl⟩
  obtain ⟨r, hr⟩ := @strvSplitLoop_ends whitespace { retainEscape := true } _ rfl _
    (Nat.le_refl (extractRounds (some s)))
  obtain ⟨ws, rfl⟩ := hsplit _ _ _ hr
  exact ⟨ws, by rw [strvSplit, strvSplitFull, hr]; rfl⟩

/-- For every text of a state file, reading the sessions of the seat stays inside the array and returns the
    users of the sessions exactly when the values fit. -/
theorem seat_sessions_right_iff (text : Bytes) :
    (∀ as, parseEnvFile text = .ok as → (sdSeatGetSessions text).Right (lookup (ascii "UIDS") as)) ↔
      ∀ as, parseEnvFile text = .ok as → UidsFit as := by
  refine forall_congr' fun as => forall_congr' fun hparse => ?_
  unfold sdSeatGetSessions UidsFit sessionCount
  rw [hparse]
  dsimp only
  cases hline : lookup (ascii "SESSIONS") as with
  | none => exact @seatSessions_right_iff none none rfl _
  | some line =>
    obtain ⟨ws, hws⟩ := strvSplit_ok line
    have hmap : (some line).mapM strvSplit = .ok (some ws) := by
      simp only [Option.mapM_some, hws]
      rfl
    rw [seatSessions_right_iff hmap]
    simp [hws, Except.toOption]

/-- One session and two users: the second user is written behind the array. -/
theorem seat_sessions_overrun :
    ¬ (sdSeatGetSessions (ascii "SESSIONS=c1\nUIDS=1000 1001\n")).Right (some (ascii "1000 1001")) := by
  have hwrites : (sdSeatGetSessions (ascii "SESSIONS=c1\nUIDS=1000 1001\n")).writes = [(0, 1000), (1, 1001)] := by
    decide +kernel
  have halloc : (sdSeatGetSessions (ascii "SESSIONS=c1\nUIDS=1000 1001\n")).allocated = 1 := by decide +kernel
  intro h
  have hlt := h.inside (1, 1001) (by rw [hwrites]; exact .tail _ (.head _))
  rw [halloc] at hlt
  exact absurd hlt (Nat.lt_irrefl 1)

end Elogind
