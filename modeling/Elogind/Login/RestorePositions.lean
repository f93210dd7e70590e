/-
  Elogind.Login.RestorePositions

  The positions of sessions on a seat without VTs after a restart.  Loading a
  session first attaches it, which takes the first free position, and then claims
  the position from the state file.  The free position may be one that another file
  asks for; it is given up again before that file is loaded.
-/

import Elogind.Login.RestoreFrame

namespace Elogind

open Function Lib List Manager Places

/-! ## The table of positions -/

section Table

variable {m : Manager} {x s : Ref}

/-- A larger table has the same sessions in it. -/
theorem growPositions_spec {env : Env} {table table' : List (Option Ref)} {need : Nat}
    (h : Manager.growPositions env table need = some table') :
    (∀ (p : Nat) t, table'[p]? = some (some t) ↔ table[p]? = some (some t)) ∧ need ≤ table'.length := by
  unfold growPositions at h
  split at h
  · next henough =>
    cases h
    exact ⟨fun _ _ => Iff.rfl, henough.2⟩
  · split at h
    · cases h
    · next slack _ =>
      cases h
      refine ⟨?_, ?_⟩
      · intro p t
        rcases Nat.lt_or_ge p table.length with hp | hp
        · rw [getElem?_append_left hp]
        · rw [getElem?_append_right hp, getElem?_eq_none hp, getElem?_replicate]
          split <;> simp
      · rw [length_append, length_replicate]
        omega

theorem putPositions_self (m : Manager) (x : Ref) :
    m.seatPutPositions x (m.seat.positions x) = m := by
  unfold seatPutPositions
  rw [update_eq_self]

/-- `seat_evict_position`, as one change of the table. -/
theorem evict_eq (m : Manager) (x s : Ref) :
    m.seatEvictPosition x s =
      (m.sessionPutPosition s 0).seatPutPositions x
        (if m.session.position s ≠ 0 ∧
            (m.seat.positions x)[m.session.position s]? = some (some s) then
          (m.seat.positions x).set (m.session.position s)
            ((m.sessionPutPosition s 0).seatFindPosition x (m.session.position s))
        else m.seat.positions x) := by
  unfold seatEvictPosition
  dsimp only
  split
  · next hzero =>
    rw [if_neg (fun h => h.1 hzero)]
    exact (putPositions_self (m.sessionPutPosition s 0) x).symm
  · next hpos =>
    split
    · next hown => rw [if_pos ⟨hpos, hown⟩]; rfl
    · next hown =>
      rw [if_neg (fun h => hown h.2)]
      exact (putPositions_self (m.sessionPutPosition s 0) x).symm

/-- Every session of the seat but `s` has the position that was saved for it, and
    the table knows these positions; `s` may hold a position that nobody else
    wants. -/
structure PlacedBut (m : Manager) (x : Ref) (saved : Ref → Nat → Prop) (s : Ref) : Prop where
  listed : ∀ t ∈ m.seat.sessions x, t = s ∨ ∃ p, saved t p
  position : ∀ {t p}, saved t p → m.session.position t = p
  other : ∀ {t p}, t ≠ s → 0 < p → ((m.seat.positions x)[p]? = some (some t) ↔ saved t p)
  own : ∀ {p}, 0 < p → (m.seat.positions x)[p]? = some (some s) → p = m.session.position s
  free : ∀ {t}, 0 < m.session.position s → ¬ saved t (m.session.position s)
  new : ∀ {p}, ¬ saved s p

/-- After giving up its position, `s` is nowhere in the table. -/
theorem PlacedBut.evicted {saved : Ref → Nat → Prop} (h : PlacedBut m x saved s) {p : Nat} {t : Ref}
    (hp : 0 < p) :
    ((m.seatEvictPosition x s).seat.positions x)[p]? = some (some t) ↔ saved t p := by
  have htable : (m.seatEvictPosition x s).seat.positions x = _ :=
    (congrArg (fun m => m.seat.positions x) (evict_eq m x s)).trans (update_self ..)
  -- nobody takes the place of `s`
  have hfind : 0 < m.session.position s →
      (m.sessionPutPosition s 0).seatFindPosition x (m.session.position s) = none := by
    intro hpos
    unfold seatFindPosition
    rw [find?_eq_none]
    intro i hi hfound
    simp only [Bool.and_eq_true, decide_eq_true_eq] at hfound
    have hposition : update m.session.position s 0 i = m.session.position s := hfound.1
    by_cases his : i = s
    · subst his
      rw [update_self] at hposition
      omega
    · rw [update_of_ne his] at hposition
      obtain ⟨q, hq⟩ := (h.listed i hi).resolve_left his
      have hqi := h.position hq
      refine h.free hpos (t := i) ?_
      rw [← hposition, hqi]
      exact hq
  rw [htable]
  split
  · next hown =>
    rw [hfind (Nat.pos_of_ne_zero hown.1), getElem?_set]
    by_cases hp' : m.session.position s = p
    · have hnot : ¬ saved t p := by
        rw [← hp']
        exact h.free (Nat.pos_of_ne_zero hown.1)
      split <;> simp [hnot]
    · rw [if_neg hp']
      by_cases hts : t = s
      · subst hts
        refine ⟨fun hin => absurd (h.own hp hin).symm hp', fun hsaved => absurd hsaved h.new⟩
      · exact h.other hts hp
  · next hnot =>
    by_cases hts : t = s
    · subst hts
      refine ⟨fun hin => ?_, fun hsaved => absurd hsaved h.new⟩
      have hpos := h.own hp hin
      exact absurd ⟨by omega, hpos ▸ hin⟩ hnot
    · exact h.other hts hp

/-- What `seat_claim_position` does with the position that is claimed. -/
theorem claim_eq (env : Env) (m : Manager) (x s : Ref) {p q : Nat}
    (hq : m.claimedPosition x s p = q) :
    (m.seatClaimPosition env x s p = m ∧ env.growPositions = none) ∨
    ∃ table, Manager.growPositions env (m.seat.positions x) ((q + 1) % 2 ^ 32) = some table ∧
      m.seatClaimPosition env x s p =
        (((m.seatPutPositions x table).seatEvictPosition x s).sessionPutPosition s
          q).seatPutPositions x
          (if 0 < q then
            (((m.seatPutPositions x table).seatEvictPosition x s).seat.positions x).set q (some s)
          else ((m.seatPutPositions x table).seatEvictPosition x s).seat.positions x) := by
  unfold seatClaimPosition
  dsimp only
  rw [hq]
  cases hgrow : growPositions env (m.seat.positions x) ((q + 1) % 2 ^ 32) with
  | none =>
    refine .inl ⟨rfl, ?_⟩
    unfold growPositions at hgrow
    split at hgrow
    · cases hgrow
    · split at hgrow
      · assumption
      · cases hgrow
  | some table =>
    refine .inr ⟨table, rfl, ?_⟩
    dsimp only
    split
    · rfl
    · exact (putPositions_self
        (((m.seatPutPositions x table).seatEvictPosition x s).sessionPutPosition s q) x).symm

theorem claimedPosition_eq (hx : m.seatHasVts x = false) (s : Ref) (p : Nat) :
    m.claimedPosition x s p = p := by
  unfold claimedPosition
  rw [hx]
  rfl

/-- Claiming a position assigns that of the session and the table of the seat. -/
theorem claim_places (env : Env) (m : Manager) (x s : Ref) (p : Nat) :
    ∃ table q, m.seatClaimPosition env x s p =
      (m.sessionPutPosition s q).seatPutPositions x table := by
  rcases claim_eq env m x s (rfl : m.claimedPosition x s p = _) with ⟨heq, -⟩ | ⟨table, -, heq⟩
  · refine ⟨m.seat.positions x, m.session.position s, ?_⟩
    rw [heq]
    unfold seatPutPositions sessionPutPosition
    rw [update_eq_self, update_eq_self]
  · have hlast : ∀ q table', (((m.seatPutPositions x table).seatEvictPosition x s).sessionPutPosition
        s q).seatPutPositions x table' = (m.sessionPutPosition s q).seatPutPositions x table' := by
      intro q table'
      rw [evict_eq]
      unfold seatPutPositions sessionPutPosition
      dsimp only
      rw [update_idem, update_idem, update_idem]
    exact ⟨_, _, heq.trans (hlast ..)⟩

/-- Claiming a position that nobody else wants. -/
theorem PlacedBut.claim {saved : Ref → Nat → Prop} (h : PlacedBut m x saved s) (env : Env)
    (hx : m.seatHasVts x = false) {p : Nat} (hp : ∀ t, 0 < p → ¬ saved t p) :
    PlacedBut (m.seatClaimPosition env x s p) x saved s ∧
    (env.growPositions ≠ none →
      (m.seatClaimPosition env x s p).session.position s = p ∧
      (0 < p → p + 1 < 2 ^ 32 →
        ((m.seatClaimPosition env x s p).seat.positions x)[p]? = some (some s))) := by
  -- the claim failed for want of memory, or the table has grown
  rcases claim_eq env m x s (claimedPosition_eq hx s p) with ⟨heq, hnone⟩ | ⟨table, hgrow, heq⟩
  · rw [heq]
    exact ⟨h, fun hsome => absurd hnone hsome⟩
  · obtain ⟨htable, hlen⟩ := growPositions_spec hgrow
    have hgrown : PlacedBut (m.seatPutPositions x table) x saved s := by
      have hpositions : (m.seatPutPositions x table).seat.positions x = table := update_self ..
      refine { h with other := ?_, own := ?_ }
      · intro t q ht hq
        rw [hpositions, htable]
        exact h.other ht hq
      · intro q hq hin
        rw [hpositions, htable] at hin
        exact h.own hq hin
    have hevicted : ∀ {q t}, 0 < q →
        ((((m.seatPutPositions x table).seatEvictPosition x s).seat.positions x)[q]? =
          some (some t) ↔ saved t q) := fun hq => hgrown.evicted hq
    have hlength : table.length ≤
        (((m.seatPutPositions x table).seatEvictPosition x s).seat.positions x).length := by
      have hpositions := congrArg (fun m => m.seat.positions x)
        (evict_eq (m.seatPutPositions x table) x s)
      have hself : (m.seatPutPositions x table).seat.positions x = table := update_self ..
      rw [show ((m.seatPutPositions x table).seatEvictPosition x s).seat.positions x = _ from
        hpositions.trans (update_self ..), hself]
      split
      · exact Nat.le_of_eq length_set.symm
      · exact Nat.le_refl _
    have hsame : ((m.seatPutPositions x table).seatEvictPosition x s).session =
        { m.session with position := update m.session.position s 0 } := evict_session ..
    have hlist : ((m.seatPutPositions x table).seatEvictPosition x s).seat.sessions =
        m.seat.sessions := congrArg (fun m => m.seat.sessions) (evict_eq _ x s)
    generalize ((m.seatPutPositions x table).seatEvictPosition x s) = m₁
      at heq hevicted hlength hsame hlist
    rw [heq]
    have hposition : ((m₁.sessionPutPosition s p).seatPutPositions x
        (if 0 < p then (m₁.seat.positions x).set p (some s) else m₁.seat.positions x)
        ).session.position = update m.session.position s p := by
      show update m₁.session.position s p = _
      rw [hsame]
      exact update_idem ..
    have hpositions : ((m₁.sessionPutPosition s p).seatPutPositions x
        (if 0 < p then (m₁.seat.positions x).set p (some s) else m₁.seat.positions x)
        ).seat.positions x =
        if 0 < p then (m₁.seat.positions x).set p (some s) else m₁.seat.positions x :=
      update_self ..
    have hsessions : ((m₁.sessionPutPosition s p).seatPutPositions x
        (if 0 < p then (m₁.seat.positions x).set p (some s) else m₁.seat.positions x)
        ).seat.sessions x = m.seat.sessions x := congrFun hlist x
    have hown : ((m₁.sessionPutPosition s p).seatPutPositions x
        (if 0 < p then (m₁.seat.positions x).set p (some s) else m₁.seat.positions x)
        ).session.position s = p := by
      rw [hposition, update_self]
    -- what the new table holds at a place other than `p`
    have hother : ∀ {q t}, 0 < q → q ≠ p →
        ((if 0 < p then (m₁.seat.positions x).set p (some s)
          else m₁.seat.positions x)[q]? = some (some t) ↔ saved t q) := by
      intro q t hq hne
      split
      · rw [getElem?_set, if_neg (fun h => hne h.symm)]
        exact hevicted hq
      · exact hevicted hq
    refine ⟨⟨?_, ?_, ?_, ?_, ?_, h.new⟩, fun _ => ⟨hown, ?_⟩⟩
    · rw [hsessions]
      exact h.listed
    · -- the other sessions keep their positions and places
      intro t q hsaved
      have hts : t ≠ s := by
        rintro rfl
        exact h.new hsaved
      rw [hposition, update_of_ne hts]
      exact h.position hsaved
    · intro t q ht hq
      rw [hpositions]
      by_cases hqp : q = p
      · subst hqp
        rw [if_pos hq, getElem?_set, if_pos rfl]
        refine ⟨fun hin => ?_, fun hsaved => absurd hsaved (hp t hq)⟩
        split at hin
        · simp only [Option.some.injEq] at hin
          exact absurd hin.symm ht
        · cases hin
      · exact hother hq hqp
    · intro q hq hin
      rw [hpositions] at hin
      rw [hown]
      by_contra hqp
      exact h.new ((hother hq hqp).mp hin)
    · rw [hown]
      exact fun hpos => hp _ hpos
    · intro hpos hsmall
      rw [hpositions, if_pos hpos, getElem?_set, if_pos rfl, if_pos]
      omega

/-- Every session of the seat has the position that was saved for it, and the table
    knows exactly these positions. -/
structure Placed (m : Manager) (x : Ref) (saved : Ref → Nat → Prop) : Prop where
  listed : ∀ t ∈ m.seat.sessions x, ∃ p, saved t p
  seat : ∀ {t p}, saved t p → m.session.seat t = some x
  position : ∀ {t p}, saved t p → m.session.position t = p
  table : ∀ {t p}, 0 < p → ((m.seat.positions x)[p]? = some (some t) ↔ saved t p)

theorem PlacedBut.of_places {m' : Manager} {saved : Ref → Nat → Prop} (h : PlacedBut m x saved s)
    (hp : m'.places = m.places) : PlacedBut m' x saved s := by
  have hsessions : m'.seat.sessions = m.seat.sessions := congrArg Places.seatSessions hp
  have hposition : m'.session.position = m.session.position := congrArg Places.position hp
  have hpositions : m'.seat.positions = m.seat.positions := congrArg positions hp
  constructor
  · rw [hsessions]
    exact h.listed
  · rw [hposition]
    exact h.position
  · rw [hpositions]
    exact h.other
  · rw [hpositions, hposition]
    exact h.own
  · rw [hposition]
    exact h.free
  · exact h.new

theorem Placed.of_places {m' : Manager} {saved : Ref → Nat → Prop} (h : Placed m x saved)
    (hp : m'.places = m.places) : Placed m' x saved := by
  have hsessions : m'.seat.sessions = m.seat.sessions := congrArg Places.seatSessions hp
  have hseat : m'.session.seat = m.session.seat := congrArg sessionSeat hp
  have hposition : m'.session.position = m.session.position := congrArg Places.position hp
  have hpositions : m'.seat.positions = m.seat.positions := congrArg positions hp
  constructor
  · rw [hsessions]
    exact h.listed
  · rw [hseat]
    exact h.seat
  · rw [hposition]
    exact h.position
  · rw [hpositions]
    exact h.table

/-- The first free position is one that nobody wants. -/
theorem seatFreePosition_free (m : Manager) (x t : Ref) :
    (m.seat.positions x)[m.seatFreePosition x]? ≠ some (some t) := by
  unfold seatFreePosition
  rw [Nat.add_comm, ← getElem?_tail]
  intro hin
  obtain ⟨hlt, heq⟩ := List.getElem?_eq_some_iff.mp hin
  have hnone := findIdx_getElem (w := hlt)
  rw [heq] at hnone
  cases hnone

/-- A new session enters the list of the seat and takes a free position. -/
theorem Placed.attach {saved : Ref → Nat → Prop} (h : Placed m x saved) (env : Env)
    (hx : m.seatHasVts x = false) (hs : m.session.position s = 0) (hnew : ∀ p, ¬ saved s p) :
    PlacedBut ((m.seatLinkSession x s).seatAssignPosition env x s) x saved s := by
  have hlink : PlacedBut (m.seatLinkSession x s) x saved s := by
    have hposition : (m.seatLinkSession x s).session.position s = 0 := hs
    refine ⟨?_, h.position, fun _ hp => h.table hp, ?_, ?_, fun {p} => hnew p⟩
    · intro t ht
      have hmem : t ∈ s :: m.seat.sessions x := by
        rw [show (m.seatLinkSession x s).seat.sessions x = s :: m.seat.sessions x from
          update_self ..] at ht
        exact ht
      rcases mem_cons.mp hmem with rfl | hmem
      · exact .inl rfl
      · exact .inr (h.listed t hmem)
    · intro p hp hin
      exact absurd ((h.table hp).mp hin) (hnew p)
    · intro t hpos
      rw [hposition] at hpos
      exact absurd hpos (Nat.lt_irrefl 0)
  unfold seatAssignPosition
  split
  · exact hlink
  · refine (hlink.claim env hx ?_).1
    intro t hpos hsaved
    exact seatFreePosition_free m x t ((h.table hpos).mpr hsaved)

end Table

/-! ## Loading the seat of a session -/

/-- Nothing but the place of the session `s` changes. -/
structure Moves (m m' : Manager) (s : Ref) : Prop where
  sessions : m'.sessions = m.sessions
  sessionId : m'.session.id = m.session.id
  live : m'.session.live = m.session.live
  users : m'.users = m.users
  uid : m'.user.uid = m.user.uid
  seat0 : m'.seat0 = m.seat0
  consoleActive : m'.consoleActive = m.consoleActive
  place : ∀ r, r ≠ s → m'.session.position r = m.session.position r ∧
    m'.session.seat r = m.session.seat r ∧ m'.session.vtnr r = m.session.vtnr r
  seatsOld : m.SeatsOld → m'.SeatsOld
  getSeat : m.SeatsOld → ∀ {id x}, m.getSeat id = some x → m'.getSeat id = some x
  next : m.next ≤ m'.next

namespace Moves

variable {m m' m'' : Manager} {s : Ref}

theorem of_keeps (h : Keeps m m') (s : Ref) : Moves m m' s where
  sessions := congrArg Places.sessions h.places
  sessionId := congrArg Places.sessionId h.places
  live := congrArg sessionLive h.places
  users := congrArg Places.users h.places
  uid := congrArg Places.uid h.places
  seat0 := congrArg Places.seat0 h.places
  consoleActive := congrArg Places.consoleActive h.places
  place r _ := ⟨congrFun (congrArg position h.places) r,
    congrFun (congrArg sessionSeat h.places) r, congrFun (congrArg vtnr h.places) r⟩
  seatsOld := h.seatsOld
  getSeat := h.getSeat
  next := h.next

theorem trans (h : Moves m m' s) (h' : Moves m' m'' s) : Moves m m'' s where
  sessions := h'.sessions.trans h.sessions
  sessionId := h'.sessionId.trans h.sessionId
  live := h'.live.trans h.live
  users := h'.users.trans h.users
  uid := h'.uid.trans h.uid
  seat0 := h'.seat0.trans h.seat0
  consoleActive := h'.consoleActive.trans h.consoleActive
  place r hr := by
    obtain ⟨hp, hx, hv⟩ := h.place r hr
    obtain ⟨hp', hx', hv'⟩ := h'.place r hr
    exact ⟨hp'.trans hp, hx'.trans hx, hv'.trans hv⟩
  seatsOld hold := h'.seatsOld (h.seatsOld hold)
  getSeat hold _ _ hx := h'.getSeat (h.seatsOld hold) (h.getSeat hold hx)
  next := Nat.le_trans h.next h'.next

theorem hasVts (h : Moves m m' s) (x : Ref) : m'.seatHasVts x = m.seatHasVts x := by
  unfold seatHasVts
  rw [h.seat0, h.consoleActive]

theorem putVtnr (m : Manager) (s v : Ref) : Moves m (m.sessionPutVtnr s v) s :=
  ⟨rfl, rfl, rfl, rfl, rfl, rfl, rfl, fun _ hr => ⟨rfl, rfl, update_of_ne hr ..⟩, id,
    fun _ _ _ h => h, Nat.le_refl _⟩

theorem link (m : Manager) (x s : Ref) : Moves m (m.seatLinkSession x s) s :=
  ⟨rfl, rfl, rfl, rfl, rfl, rfl, rfl, fun _ hr => ⟨rfl, update_of_ne hr .., rfl⟩, id,
    fun _ _ _ h => h, Nat.le_refl _⟩

theorem claim (env : Env) (m : Manager) (x s : Ref) (p : Nat) :
    Moves m (m.seatClaimPosition env x s p) s := by
  obtain ⟨table, q, heq⟩ := claim_places env m x s p
  rw [heq]
  exact ⟨rfl, rfl, rfl, rfl, rfl, rfl, rfl, fun _ hr => ⟨update_of_ne hr .., rfl, rfl⟩, id,
    fun _ _ _ h => h, Nat.le_refl _⟩

theorem setActive (env : Env) (m : Manager) (x : Ref) (a : Option Ref) (s : Ref) :
    Moves m (m.seatSetActive env x a) s := by
  have hput : Moves m (m.seatPutActive x a) s :=
    ⟨rfl, rfl, rfl, rfl, rfl, rfl, rfl, fun _ _ => ⟨rfl, rfl, rfl⟩, id, fun _ _ _ h => h,
      Nat.le_refl _⟩
  exact hput.trans (of_keeps (.of_withoutSds (withoutSds_setActive env m x a)) s)

theorem attach (env : Env) (m : Manager) (x s : Ref) : Moves m (m.seatAttachSession env x s).1 s := by
  unfold seatAttachSession
  split
  · exact of_keeps (.refl m) s
  · have hassign : Moves m ((m.seatLinkSession x s).seatAssignPosition env x s) s := by
      unfold seatAssignPosition
      split
      · exact link m x s
      · exact (link m x s).trans (claim ..)
    dsimp only
    split
    · exact hassign
    · exact hassign.trans (setActive ..)

theorem clearVtnr (m : Manager) (s : Ref) : Moves m (m.sessionClearVtnr s) s := by
  unfold sessionClearVtnr
  split
  · exact putVtnr m s 0
  · split
    · exact of_keeps (.refl m) s
    · exact putVtnr m s 0

theorem loadAttach (env : Env) (m : Manager) (s : Ref) (f : StateFile) :
    Moves m (m.sessionLoadAttach env s f) s := by
  unfold sessionLoadAttach
  split
  · split
    · exact of_keeps (.refl m) s
    · exact attach ..
  · exact of_keeps (.refl m) s

theorem loadPosition (env : Env) (m : Manager) (s : Ref) (f : StateFile) :
    Moves m (m.sessionLoadPosition env s f) s := by
  unfold sessionLoadPosition
  split
  · exact claim ..
  · exact of_keeps (.refl m) s

theorem loadSeat (env env' : Env) (m : Manager) (s : Ref) (f : StateFile) :
    Moves m (m.sessionLoadSeat env env' s f) s := by
  have hvtnr : Moves m (m.sessionLoadVtnr s f) s := by
    unfold sessionLoadVtnr
    split
    · exact of_keeps (.refl m) s
    · exact putVtnr ..
  exact ((hvtnr.trans (loadAttach ..)).trans (clearVtnr ..)).trans (loadPosition ..)

theorem load (env : LoadAnswers) (m : Manager) (s : Ref) (f : StateFile) :
    Moves m (m.sessionLoad env s f) s := by
  unfold Manager.sessionLoad
  split
  · exact of_keeps (.refl m) s
  · next h =>
    exact ((of_keeps (.loadUser h) s).trans (loadSeat ..)).trans (of_keeps (.loadRest ..) s)

end Moves

/-- The session that comes to the foreground is in the foreground. -/
theorem setActive_active (env : Env) (m : Manager) (x : Ref) (a : Option Ref) :
    (m.seatSetActive env x a).seat.active = update m.seat.active x a := by
  have hactive := congrArg (fun m => m.seat.active) (withoutSds_setActive env m x a)
  exact hactive

/-- The sessions, the positions and the foreground of the seat `x` stay. -/
structure Apart (m m' : Manager) (x : Ref) : Prop where
  sessions : m'.seat.sessions x = m.seat.sessions x
  positions : m'.seat.positions x = m.seat.positions x
  active : m'.seat.active x = m.seat.active x

namespace Apart

variable {m m' m'' : Manager} {x y : Ref}

theorem refl (m : Manager) (x : Ref) : Apart m m x := ⟨rfl, rfl, rfl⟩

theorem trans (h : Apart m m' x) (h' : Apart m' m'' x) : Apart m m'' x :=
  ⟨h'.sessions.trans h.sessions, h'.positions.trans h.positions, h'.active.trans h.active⟩

theorem of_keeps (h : Keeps m m') (hx : m.seatHasVts x = false) : Apart m m' x :=
  ⟨congrFun (congrArg Places.seatSessions h.places) x,
    congrFun (congrArg Places.positions h.places) x, h.active x hx⟩

theorem claim (env : Env) (m : Manager) (hxy : x ≠ y) (s : Ref) (p : Nat) :
    Apart m (m.seatClaimPosition env y s p) x := by
  obtain ⟨table, q, heq⟩ := claim_places env m y s p
  rw [heq]
  exact ⟨rfl, update_of_ne hxy .., rfl⟩

theorem setActive (env : Env) (m : Manager) (hxy : x ≠ y) (a : Option Ref) :
    Apart m (m.seatSetActive env y a) x := by
  have hplaces := Keeps.places_setActive env m y a
  refine ⟨congrFun (congrArg Places.seatSessions hplaces) x,
    congrFun (congrArg Places.positions hplaces) x, ?_⟩
  rw [setActive_active]
  exact update_of_ne hxy ..

theorem attach (env : Env) (m : Manager) (hxy : x ≠ y) (s : Ref) :
    Apart m (m.seatAttachSession env y s).1 x := by
  unfold seatAttachSession
  split
  · exact refl m x
  · have hlink : Apart m (m.seatLinkSession y s) x := ⟨update_of_ne hxy .., rfl, rfl⟩
    have hassign : Apart m ((m.seatLinkSession y s).seatAssignPosition env y s) x := by
      unfold seatAssignPosition
      split
      · exact hlink
      · exact hlink.trans (claim env _ hxy s _)
    dsimp only
    split
    · exact hassign
    · exact hassign.trans (setActive env _ hxy _)

/-- A session that belongs elsewhere. -/
theorem loadSeat (env env' : Env) {s : Ref} {f : StateFile} {id : Bytes}
    (hx : m.getSeat id = some x) (hs : m.session.seat s = none) (hf : f.seat ≠ some id) :
    Apart m (m.sessionLoadSeat env env' s f) x := by
  unfold sessionLoadSeat
  have hvtnr : ∀ (m : Manager) v, Apart m (m.sessionPutVtnr s v) x := fun m v => ⟨rfl, rfl, rfl⟩
  obtain ⟨h₁, hs₁, hget₁⟩ : Apart m (m.sessionLoadVtnr s f) x ∧
      (m.sessionLoadVtnr s f).session.seat s = none ∧
      (m.sessionLoadVtnr s f).getSeat id = some x := by
    unfold sessionLoadVtnr
    split
    · exact ⟨refl m x, hs, hx⟩
    · exact ⟨hvtnr m _, hs, hx⟩
  generalize m.sessionLoadVtnr s f = m₁ at h₁ hs₁ hget₁
  -- the seat of the session, if it gets one, has another name
  obtain ⟨h₂, hs₂⟩ : Apart m₁ (m₁.sessionLoadAttach env s f) x ∧
      (m₁.sessionLoadAttach env s f).session.seat s ≠ some x := by
    unfold sessionLoadAttach
    split
    · next id' hid _ =>
      split
      · refine ⟨refl m₁ x, ?_⟩
        rw [hs₁]
        simp
      · next y hy =>
        have hxy : x ≠ y := by
          rintro rfl
          have hx' := find?_some hget₁
          have hy' := find?_some hy
          simp only [decide_eq_true_eq] at hx' hy'
          exact hf (by rw [hid, ← hx', hy'])
        refine ⟨attach env m₁ hxy s, ?_⟩
        unfold seatAttachSession
        split
        · rw [hs₁]
          simp
        · have hlink : (m₁.seatLinkSession y s).session.seat s = some y := update_self ..
          have hassign : ((m₁.seatLinkSession y s).seatAssignPosition env y s).session.seat s =
              some y := by
            unfold seatAssignPosition
            split
            · exact hlink
            · obtain ⟨table, q, heq⟩ := claim_places env (m₁.seatLinkSession y s) y s
                ((m₁.seatLinkSession y s).seatFreePosition y)
              rw [heq]
              exact hlink
          have hne : some y ≠ some x := fun h => hxy (Option.some.inj h).symm
          dsimp only
          split
          · rw [hassign]
            exact hne
          · have hplaces := Keeps.places_setActive env
              ((m₁.seatLinkSession y s).seatAssignPosition env y s) y (some s)
            rw [show (seatSetActive env _ y (some s)).session.seat s = _ from
              congrFun (congrArg sessionSeat hplaces) s]
            show ((m₁.seatLinkSession y s).seatAssignPosition env y s).session.seat s ≠ some x
            rw [hassign]
            exact hne
    · refine ⟨refl m₁ x, ?_⟩
      rw [hs₁]
      simp
  have h₃ : ∀ m : Manager, Apart m (m.sessionClearVtnr s) x ∧
      (m.sessionClearVtnr s).session.seat = m.session.seat := by
    intro m
    unfold sessionClearVtnr
    split
    · exact ⟨hvtnr m 0, rfl⟩
    · split
      · exact ⟨refl m x, rfl⟩
      · exact ⟨hvtnr m 0, rfl⟩
  refine ((h₁.trans h₂).trans (h₃ _).1).trans ?_
  unfold sessionLoadPosition
  split
  · next p y _ hy =>
    rw [(h₃ _).2] at hy
    refine claim _ _ ?_ s p
    rintro rfl
    exact hs₂ hy
  · exact refl _ x

theorem load (env : LoadAnswers) {s : Ref} {f : StateFile} {id : Bytes} (hold : m.SeatsOld)
    (hx : m.getSeat id = some x) (hvts : m.seatHasVts x = false) (hs : m.session.seat s = none)
    (hf : f.seat ≠ some id) : Apart m (m.sessionLoad env s f) x := by
  unfold Manager.sessionLoad
  split
  · exact refl m x
  · next m₁ h =>
    have hkeeps := Keeps.loadUser h
    have hvts₁ : m₁.seatHasVts x = false := (hkeeps.hasVts x).trans hvts
    have hs₁ : m₁.session.seat s = none :=
      (congrFun (congrArg sessionSeat hkeeps.places) s).trans hs
    have hseat := loadSeat env.attach env.claim (hkeeps.getSeat hold hx) hs₁ hf
    have hvts₂ : (m₁.sessionLoadSeat env.attach env.claim s f).seatHasVts x = false :=
      ((Moves.loadSeat env.attach env.claim m₁ s f).hasVts x).trans hvts₁
    exact ((of_keeps hkeeps hvts).trans hseat).trans (of_keeps (.loadRest ..) hvts₂)

end Apart

section Own

variable {m : Manager} {x s : Ref} {f : StateFile} {id : Bytes}

/-- Loading the seat of a session that belongs to a seat without VTs: it is
    attached, is in the foreground, and claims its position. -/
theorem loadSeat_own (env env' : Env) (hget : m.getSeat id = some x)
    (hvts : m.seatHasVts x = false) (hs : m.session.seat s = none) (hvtnr : m.session.vtnr s = 0)
    (hid : f.seat = some id) (hv : f.vtnr = none) :
    ∃ m₁, m₁ = (((m.seatLinkSession x s).seatAssignPosition env x s).seatSetActive env x
        (some s)).sessionPutVtnr s 0 ∧ m₁.session.seat s = some x ∧
      m₁.seat.active x = some s ∧ m₁.seatHasVts x = false ∧
      m.sessionLoadSeat env env' s f = m₁.sessionLoadPosition env' s f := by
  have hmoves : Moves m ((m.seatLinkSession x s).seatAssignPosition env x s) s := by
    unfold seatAssignPosition
    split
    · exact Moves.link m x s
    · exact (Moves.link m x s).trans (Moves.claim ..)
  have hvts₁ : ((m.seatLinkSession x s).seatAssignPosition env x s).seatHasVts x = false :=
    (hmoves.hasVts x).trans hvts
  have hseat : ((m.seatLinkSession x s).seatAssignPosition env x s).session.seat s = some x := by
    have hlink : (m.seatLinkSession x s).session.seat s = some x := update_self ..
    unfold seatAssignPosition
    split
    · exact hlink
    · obtain ⟨table, q, heq⟩ := claim_places env (m.seatLinkSession x s) x s
        ((m.seatLinkSession x s).seatFreePosition x)
      rw [heq]
      exact hlink
  have hattach : m.sessionLoadAttach env s f =
      ((m.seatLinkSession x s).seatAssignPosition env x s).seatSetActive env x (some s) := by
    unfold sessionLoadAttach
    rw [hid, hs]
    dsimp only
    rw [hget]
    unfold seatAttachSession
    dsimp only
    rw [hvts, hvtnr, hvts₁]
    rfl
  generalize (m.seatLinkSession x s).seatAssignPosition env x s = m₀ at hvts₁ hseat hattach
  have hplaces := Keeps.places_setActive env m₀ x (some s)
  have hseat₁ : (m₀.seatSetActive env x (some s)).session.seat s = some x :=
    (congrFun (congrArg sessionSeat hplaces) s).trans hseat
  have hvts₂ : (m₀.seatSetActive env x (some s)).seatHasVts x = false :=
    ((Moves.setActive env m₀ x (some s) s).hasVts x).trans hvts₁
  have hactive : (m₀.seatSetActive env x (some s)).seat.active x = some s := by
    rw [setActive_active, update_self]
  refine ⟨_, rfl, hseat₁, hactive, hvts₂, ?_⟩
  have hload : m.sessionLoadVtnr s f = m := by
    unfold sessionLoadVtnr
    rw [hv]
  have hclear : (m₀.seatSetActive env x (some s)).sessionClearVtnr s =
      (m₀.seatSetActive env x (some s)).sessionPutVtnr s 0 := by
    unfold sessionClearVtnr
    rw [hseat₁]
    dsimp only
    rw [hvts₂]
    rfl
  unfold sessionLoadSeat
  rw [hload, hattach, hclear]

/-- A session that is loaded gets the position that was saved for it. -/
theorem Placed.loadSeat {saved : Ref → Nat → Prop} (h : Placed m x saved) (env env' : Env)
    (hget : m.getSeat id = some x) (hvts : m.seatHasVts x = false) (hs : m.session.seat s = none)
    (hvtnr : m.session.vtnr s = 0) (hposition : m.session.position s = 0)
    (hnew : ∀ p, ¬ saved s p) (hid : f.seat = some id) (hv : f.vtnr = none) {p : Nat}
    (hp : f.position = some p) (hfree : ∀ t, 0 < p → ¬ saved t p)
    (hgrow : env'.growPositions ≠ none) (hsmall : p + 1 < 2 ^ 32) :
    Placed (m.sessionLoadSeat env env' s f) x fun t q => saved t q ∨ t = s ∧ q = p := by
  obtain ⟨m₁, hm₁, hseat₁, -, hvts₁, heq⟩ := loadSeat_own env env' hget hvts hs hvtnr hid hv
  have hbut : PlacedBut m₁ x saved s := by
    have hattach := (h.attach env hvts hposition hnew).of_places
      (Keeps.places_setActive env _ x (some s))
    rw [hm₁]
    exact { hattach with }
  -- the other sessions stay on their seats
  have hold : ∀ t, t ≠ s → m₁.session.seat t = m.session.seat t := by
    intro t ht
    have hmoves : Moves m ((m.seatLinkSession x s).seatAssignPosition env x s) s := by
      unfold seatAssignPosition
      split
      · exact Moves.link m x s
      · exact (Moves.link m x s).trans (Moves.claim ..)
    have hall := (hmoves.trans (Moves.setActive env _ x (some s) s)).trans (Moves.putVtnr _ s 0)
    rw [hm₁]
    exact (hall.place t ht).2.1
  -- what is left is to claim the saved position
  have hclaim : m.sessionLoadSeat env env' s f = m₁.seatClaimPosition env' x s p := by
    rw [heq]
    unfold sessionLoadPosition
    rw [hp, hseat₁]
  obtain ⟨hafter, hown⟩ := hbut.claim env' hvts₁ hfree
  obtain ⟨hpos, htable⟩ := hown hgrow
  have hseats : (m₁.seatClaimPosition env' x s p).session.seat = m₁.session.seat := by
    obtain ⟨table, q, hput⟩ := claim_places env' m₁ x s p
    rw [hput]
    rfl
  rw [hclaim]
  constructor
  · intro t ht
    rcases hafter.listed t ht with rfl | ⟨q, hq⟩
    · exact ⟨p, .inr ⟨rfl, rfl⟩⟩
    · exact ⟨q, .inl hq⟩
  · rintro t q (hq | ⟨rfl, rfl⟩)
    · have hts : t ≠ s := by
        rintro rfl
        exact hnew q hq
      rw [hseats, hold t hts]
      exact h.seat hq
    · rw [hseats]
      exact hseat₁
  · rintro t q (hq | ⟨rfl, rfl⟩)
    · exact hafter.position hq
    · exact hpos
  · intro t q hq
    by_cases hts : t = s
    · subst hts
      constructor
      · intro hin
        exact .inr ⟨rfl, (hafter.own hq hin).trans hpos⟩
      · rintro (hsaved | ⟨-, rfl⟩)
        · exact absurd hsaved (hnew q)
        · exact htable hq hsmall
    · rw [hafter.other hts hq]
      constructor
      · exact fun hsaved => .inl hsaved
      · rintro (hsaved | ⟨hts', -⟩)
        · exact hsaved
        · exact absurd hts' hts

end Own

/-! ## Enumerating the state files -/

open Manager (Entry)

/-- A state file of a session on the seat `id` without VTs, of a user that is
    known. -/
structure Manager.Entry.OfSeat (e : Entry) (m : Manager) (id : Bytes) : Prop where
  seat : e.file.seat = some id
  vtnr : e.file.vtnr = none
  user : ∃ uid u, e.file.uid = .ok uid ∧ m.getUser uid = some u
  valid : sessionIdValid e.id = true
  alloc : e.add.alloc = true

/-- The manager before any session is loaded. -/
structure Unpopulated (m : Manager) : Prop where
  sessions : m.sessions = []
  seatSessions : ∀ x, m.seat.sessions x = []
  positions : ∀ x, m.seat.positions x = []
  active : ∀ x, m.seat.active x = none
  session : m.session = (Manager.empty m.consoleActive).session
  seatsOld : m.SeatsOld

/-- The state files `done` have been loaded into the manager `m₀`. -/
structure Enumerated (m₀ : Manager) (done : List Entry) (m : Manager) : Prop where
  seatsOld : m.SeatsOld
  getSeat : ∀ {id x}, m₀.getSeat id = some x → m.getSeat id = some x
  hasVts : ∀ x, m.seatHasVts x = m₀.seatHasVts x
  users : m.users = m₀.users ∧ m.user.uid = m₀.user.uid
  fresh : ∀ r, m.next ≤ r →
    m.session.position r = 0 ∧ m.session.seat r = none ∧ m.session.vtnr r = 0
  old : ∀ t ∈ m.sessions, t < m.next
  names : ∀ t ∈ m.sessions, ∃ e ∈ done, m.session.id t = e.id

section Enumerate

variable {m₀ m : Manager} {x : Ref} {id : Bytes} {done : List Entry} {e : Entry}

theorem Unpopulated.enumerated (h : Unpopulated m) : Enumerated m [] m where
  seatsOld := h.seatsOld
  getSeat := id
  hasVts _ := rfl
  users := ⟨rfl, rfl⟩
  fresh r _ := by
    rw [h.session]
    exact ⟨rfl, rfl, rfl⟩
  old t ht := by
    rw [h.sessions] at ht
    cases ht
  names t ht := by
    rw [h.sessions] at ht
    cases ht

/-- The session of a new state file. -/
def Manager.enumerated (m : Manager) (e : Entry) : Manager :=
  (m.sessionNew e.id).1.sessionAddToGcQueue m.next

theorem Enumerated.getSession_none (h : Enumerated m₀ done m)
    (hnew : ∀ e' ∈ done, e'.id ≠ e.id) : m.getSession e.id = none := by
  unfold getSession
  rw [find?_eq_none]
  intro t ht
  obtain ⟨e', he', hid⟩ := h.names t ht
  rw [hid]
  simpa using hnew e' he'

/-- A new state file is loaded into a new session, unless that can not be made. -/
theorem enumerateSession_cases (hnone : m.getSession e.id = none) :
    m.enumerateSession e = m ∧ ¬ (sessionIdValid e.id = true ∧ e.add.alloc = true) ∨
    m.enumerateSession e = (m.enumerated e).sessionLoad e.load m.next e.file := by
  unfold enumerateSession addSession
  rw [hnone]
  cases hvalid : sessionIdValid e.id with
  | false => exact .inl ⟨rfl, by simp⟩
  | true =>
    cases halloc : e.add.alloc with
    | false => exact .inl ⟨rfl, by simp⟩
    | true => exact .inr rfl

/-- The new session has its initial members. -/
theorem Enumerated.enumerated_keeps (h : Enumerated m₀ done m) (e : Entry) :
    ((m.enumerated e).sessions = m.next :: m.sessions ∧
      (m.enumerated e).session.id = update m.session.id m.next e.id) ∧
    Enumerated m₀ (done ++ [e]) (m.enumerated e) ∧
    ((m.enumerated e).session.position = m.session.position ∧
      (m.enumerated e).session.seat = m.session.seat ∧
      (m.enumerated e).session.vtnr = m.session.vtnr) ∧
    ∀ x, Apart m (m.enumerated e) x := by
  have hkeeps := Keeps.queueSession (m.sessionNew e.id).1 m.next
  have hsessions : (m.enumerated e).sessions = m.next :: m.sessions :=
    congrArg Places.sessions hkeeps.places
  have hid : (m.enumerated e).session.id = update m.session.id m.next e.id :=
    congrArg sessionId hkeeps.places
  have hposition : (m.enumerated e).session.position = m.session.position :=
    congrArg position hkeeps.places
  have hseat : (m.enumerated e).session.seat = m.session.seat :=
    congrArg sessionSeat hkeeps.places
  have hvtnr : (m.enumerated e).session.vtnr = m.session.vtnr :=
    congrArg vtnr hkeeps.places
  have hold : (m.sessionNew e.id).1.SeatsOld := fun y hy => Nat.lt_succ_of_lt (h.seatsOld y hy)
  have hnext : m.next + 1 ≤ (m.enumerated e).next := hkeeps.next
  refine ⟨⟨hsessions, hid⟩, ?_, ⟨hposition, hseat, hvtnr⟩, ?_⟩
  · refine ⟨hkeeps.seatsOld hold, fun hx => hkeeps.getSeat hold (h.getSeat hx),
      fun x => (hkeeps.hasVts x).trans (h.hasVts x), ?_, ?_, ?_, ?_⟩
    · exact ⟨(congrArg Places.users hkeeps.places).trans h.users.1,
        (congrArg uid hkeeps.places).trans h.users.2⟩
    · intro r hr
      rw [hposition, hseat, hvtnr]
      exact h.fresh r (Nat.le_trans (Nat.le_of_succ_le hnext) hr)
    · intro t ht
      rw [hsessions] at ht
      rcases mem_cons.mp ht with rfl | ht
      · exact hnext
      · exact Nat.lt_of_lt_of_le (Nat.lt_succ_of_lt (h.old t ht)) hnext
    · intro t ht
      rw [hsessions] at ht
      rw [hid]
      rcases mem_cons.mp ht with rfl | ht
      · exact ⟨e, by simp, update_self ..⟩
      · obtain ⟨e', he', hname⟩ := h.names t ht
        refine ⟨e', by simp [he'], ?_⟩
        rw [update_of_ne (Nat.ne_of_lt (h.old t ht))]
        exact hname
  · intro x
    unfold enumerated sessionAddToGcQueue
    split <;> exact ⟨rfl, rfl, rfl⟩

/-- Loading a session keeps what is known of the sessions loaded so far. -/
theorem Enumerated.moves {m' : Manager} (h : Enumerated m₀ done m) {s : Ref}
    (hmoves : Moves m m' s) (hs : s ∈ m.sessions) : Enumerated m₀ done m' where
  seatsOld := hmoves.seatsOld h.seatsOld
  getSeat hx := hmoves.getSeat h.seatsOld (h.getSeat hx)
  hasVts x := (hmoves.hasVts x).trans (h.hasVts x)
  users := ⟨hmoves.users.trans h.users.1, hmoves.uid.trans h.users.2⟩
  fresh r hr := by
    have hle := Nat.le_trans hmoves.next hr
    have hne : r ≠ s := Nat.ne_of_gt (Nat.lt_of_lt_of_le (h.old s hs) hle)
    obtain ⟨hp, hx, hv⟩ := hmoves.place r hne
    rw [hp, hx, hv]
    exact h.fresh r hle
  old t ht := Nat.lt_of_lt_of_le (h.old t (hmoves.sessions ▸ ht)) hmoves.next
  names t ht := by
    rw [hmoves.sessionId]
    exact h.names t (hmoves.sessions ▸ ht)

theorem Enumerated.step (h : Enumerated m₀ done m) (hnew : ∀ e' ∈ done, e'.id ≠ e.id) :
    Enumerated m₀ (done ++ [e]) (m.enumerateSession e) := by
  obtain ⟨⟨hsessions, -⟩, henum, -⟩ := h.enumerated_keeps e
  rcases enumerateSession_cases (h.getSession_none hnew) with ⟨heq, -⟩ | heq
  · rw [heq]
    have hnames : ∀ t ∈ m.sessions, ∃ e' ∈ done ++ [e], m.session.id t = e'.id := by
      intro t ht
      obtain ⟨e', he', hname⟩ := h.names t ht
      exact ⟨e', by simp [he'], hname⟩
    exact { h with names := hnames }
  · rw [heq]
    exact henum.moves (Moves.load ..) (by simp [hsessions])

/-- The session of the new state file is found by its name, and the others still
    are. -/
theorem Enumerated.getSession_load (h : Enumerated m₀ done m) (e : Entry) (id' : Bytes) :
    ((m.enumerated e).sessionLoad e.load m.next e.file).getSession id' =
      if e.id = id' then some m.next else m.getSession id' := by
  obtain ⟨⟨hsessions, hid⟩, -⟩ := h.enumerated_keeps e
  have hmoves := Moves.load e.load (m.enumerated e) m.next e.file
  have hnot : m.next ∉ m.sessions := fun hmem => Nat.lt_irrefl _ (h.old _ hmem)
  unfold getSession
  rw [hmoves.sessions, hmoves.sessionId, hsessions, hid]
  split
  · next hsame => rw [find?_cons_of_pos (by simpa using hsame)]
  · next hother =>
    rw [find?_cons_of_neg (by simpa using hother), Keeps.find?_update hnot]

theorem Enumerated.getSession_step (h : Enumerated m₀ done m)
    (hnew : ∀ e' ∈ done, e'.id ≠ e.id) {id' : Bytes} (hid : e.id ≠ id') :
    (m.enumerateSession e).getSession id' = m.getSession id' := by
  rcases enumerateSession_cases (h.getSession_none hnew) with ⟨heq, -⟩ | heq
  · rw [heq]
  · rw [heq, h.getSession_load, if_neg hid]

/-- For a file of the seat, the session is made. -/
theorem Enumerated.step_own (h : Enumerated m₀ done m) (hnew : ∀ e' ∈ done, e'.id ≠ e.id)
    (he : e.OfSeat m₀ id) :
    m.enumerateSession e = (m.enumerated e).sessionLoad e.load m.next e.file ∧
    ∃ m₁, (m.enumerated e).sessionLoadUser e.load.user m.next e.file = some m₁ ∧
      m.enumerateSession e =
        (m₁.sessionLoadSeat e.load.attach e.load.claim m.next e.file).sessionLoadRest e.load m.next
          e.file := by
  have heq : m.enumerateSession e = (m.enumerated e).sessionLoad e.load m.next e.file := by
    rcases enumerateSession_cases (h.getSession_none hnew) with ⟨-, hnot⟩ | heq
    · exact absurd ⟨he.valid, he.alloc⟩ hnot
    · exact heq
  obtain ⟨-, henum, -⟩ := h.enumerated_keeps e
  obtain ⟨uid, u, huid, hu⟩ := he.user
  have hget : (m.enumerated e).getUser uid = some u := by
    unfold getUser at hu ⊢
    rw [henum.users.1, henum.users.2]
    exact hu
  have huser : ∃ m₁, (m.enumerated e).sessionLoadUser e.load.user m.next e.file = some m₁ := by
    unfold sessionLoadUser
    split
    · exact ⟨_, rfl⟩
    · rw [huid]
      dsimp only
      rw [hget]
      exact ⟨_, rfl⟩
  obtain ⟨m₁, hm₁⟩ := huser
  refine ⟨heq, m₁, hm₁, ?_⟩
  rw [heq]
  unfold Manager.sessionLoad
  rw [hm₁]

/-- The sessions of the seat and the positions in the state files loaded so far. -/
def SavedIn (m : Manager) (id : Bytes) (done : List Entry) (t p : Nat) : Prop :=
  ∃ e ∈ done, e.file.seat = some id ∧ e.file.position = some p ∧ m.getSession e.id = some t

/-- What is saved in a new state file and in those before. -/
theorem Enumerated.savedIn_step (h : Enumerated m₀ done m)
    (hnew : ∀ e' ∈ done, e'.id ≠ e.id) (t p : Nat) :
    SavedIn (m.enumerateSession e) id (done ++ [e]) t p ↔
      SavedIn m id done t p ∨
      e.file.seat = some id ∧ e.file.position = some p ∧
        (m.enumerateSession e).getSession e.id = some t := by
  have hsame : ∀ e' ∈ done, (m.enumerateSession e).getSession e'.id = m.getSession e'.id := by
    intro e' he'
    exact h.getSession_step hnew fun hid => hnew e' he' hid.symm
  constructor
  · rintro ⟨e', he', hseat, hpos, hget⟩
    rcases mem_append.mp he' with hdone | hlast
    · rw [hsame e' hdone] at hget
      exact .inl ⟨e', hdone, hseat, hpos, hget⟩
    · rw [mem_singleton.mp hlast] at hseat hpos hget
      exact .inr ⟨hseat, hpos, hget⟩
  · rintro (⟨e', hdone, hseat, hpos, hget⟩ | ⟨hseat, hpos, hget⟩)
    · refine ⟨e', by simp [hdone], hseat, hpos, ?_⟩
      rw [hsame e' hdone]
      exact hget
    · exact ⟨e, by simp, hseat, hpos, hget⟩

/-- A session found by its name is older than the next. -/
theorem Enumerated.lt_next_of_saved (h : Enumerated m₀ done m) {t p : Nat}
    (hs : SavedIn m id done t p) : t < m.next := by
  obtain ⟨e', -, -, -, hget⟩ := hs
  exact h.old t (mem_of_find?_eq_some hget)

/-- A state file of another seat does not change the seat. -/
theorem Enumerated.apart (h : Enumerated m₀ done m) (hx : m₀.getSeat id = some x)
    (hvts : m₀.seatHasVts x = false) (hnew : ∀ e' ∈ done, e'.id ≠ e.id)
    (he : e.file.seat ≠ some id) : Apart m (m.enumerateSession e) x := by
  rcases enumerateSession_cases (h.getSession_none hnew) with ⟨heq, -⟩ | heq
  · rw [heq]
    exact .refl m x
  · obtain ⟨-, henum, ⟨-, hseat, -⟩, happart⟩ := h.enumerated_keeps e
    have hfresh : (m.enumerated e).session.seat m.next = none := by
      rw [hseat]
      exact (h.fresh m.next (Nat.le_refl _)).2.1
    rw [heq]
    exact (happart x).trans (.load e.load henum.seatsOld (henum.getSeat hx)
      ((henum.hasVts x).trans hvts) hfresh he)

theorem Enumerated.placed_foreign (h : Enumerated m₀ done m) (hx : m₀.getSeat id = some x)
    (hvts : m₀.seatHasVts x = false) (hplaced : Placed m x (SavedIn m id done)) (hnew : ∀ e' ∈ done, e'.id ≠ e.id)
    (he : e.file.seat ≠ some id) :
    Placed (m.enumerateSession e) x (SavedIn (m.enumerateSession e) id (done ++ [e])) := by
  have hsaved : SavedIn (m.enumerateSession e) id (done ++ [e]) = SavedIn m id done := by
    funext t p
    rw [h.savedIn_step hnew]
    simp [he]
  have happart := h.apart hx hvts hnew he
  rw [hsaved]
  rcases enumerateSession_cases (h.getSession_none hnew) with ⟨heq, -⟩ | heq
  · rw [heq]
    exact hplaced
  · obtain ⟨-, -, ⟨hposition, hseat, -⟩, -⟩ := h.enumerated_keeps e
    have hmoves := Moves.load e.load (m.enumerated e) m.next e.file
    rw [heq] at happart ⊢
    constructor
    · rw [happart.sessions]
      exact hplaced.listed
    · intro t p hs
      have hne := Nat.ne_of_lt (h.lt_next_of_saved hs)
      rw [(hmoves.place t hne).2.1, hseat]
      exact hplaced.seat hs
    · intro t p hs
      have hne := Nat.ne_of_lt (h.lt_next_of_saved hs)
      rw [(hmoves.place t hne).1, hposition]
      exact hplaced.position hs
    · rw [happart.positions]
      exact hplaced.table

/-- A state file of the seat. -/
theorem Enumerated.placed_own (h : Enumerated m₀ done m) (hx : m₀.getSeat id = some x)
    (hvts : m₀.seatHasVts x = false) (hplaced : Placed m x (SavedIn m id done)) (hnew : ∀ e' ∈ done, e'.id ≠ e.id)
    (he : e.OfSeat m₀ id) {p : Nat} (hp : e.file.position = some p)
    (hfree : ∀ t, 0 < p → ¬ SavedIn m id done t p) (hgrow : e.load.claim.growPositions ≠ none)
    (hsmall : p + 1 < 2 ^ 32) :
    Placed (m.enumerateSession e) x (SavedIn (m.enumerateSession e) id (done ++ [e])) := by
  obtain ⟨heq, m₁, hm₁, hload⟩ := h.step_own hnew he
  have hget : (m.enumerateSession e).getSession e.id = some m.next := by
    rw [heq, h.getSession_load, if_pos rfl]
  have hsaved : SavedIn (m.enumerateSession e) id (done ++ [e]) =
      fun t q => SavedIn m id done t q ∨ t = m.next ∧ q = p := by
    funext t q
    rw [h.savedIn_step hnew, hget, he.seat, hp]
    simp only [Option.some.injEq, true_and]
    rw [@and_comm (p = q), @eq_comm _ p, @eq_comm _ m.next]
  obtain ⟨-, henum, ⟨hposition, hseat, hvtnr⟩, happart⟩ := h.enumerated_keeps e
  obtain ⟨hpos₀, hseat₀, hvtnr₀⟩ := h.fresh m.next (Nat.le_refl _)
  have hplaced₁ : Placed (m.enumerated e) x (SavedIn m id done) := by
    constructor
    · rw [(happart x).sessions]
      exact hplaced.listed
    · rw [hseat]
      exact hplaced.seat
    · rw [hposition]
      exact hplaced.position
    · rw [(happart x).positions]
      exact hplaced.table
  have hkeeps := Keeps.loadUser hm₁
  rw [hsaved, hload]
  refine Placed.of_places ?_ (Keeps.loadRest ..).places
  refine (hplaced₁.of_places hkeeps.places).loadSeat e.load.attach e.load.claim
    (hkeeps.getSeat henum.seatsOld (henum.getSeat hx))
    (((hkeeps.hasVts x).trans (henum.hasVts x)).trans hvts) ?_ ?_ ?_ ?_ he.seat he.vtnr hp hfree hgrow hsmall
  · rw [show m₁.session.seat = _ from congrArg sessionSeat hkeeps.places]
    exact (congrFun hseat m.next).trans hseat₀
  · rw [show m₁.session.vtnr = _ from congrArg vtnr hkeeps.places]
    exact (congrFun hvtnr m.next).trans hvtnr₀
  · rw [show m₁.session.position = _ from congrArg position hkeeps.places]
    exact (congrFun hposition m.next).trans hpos₀
  · intro q hq
    exact Nat.lt_irrefl _ (h.lt_next_of_saved hq)

/-- The sessions of the seat are found by their names. -/
def FoundIn (m : Manager) (id : Bytes) (done : List Entry) : Prop :=
  ∀ e ∈ done, e.file.seat = some id → ∃ t, m.getSession e.id = some t

theorem Enumerated.found_step (h : Enumerated m₀ done m) (hfound : FoundIn m id done)
    (hnew : ∀ e' ∈ done, e'.id ≠ e.id) (he : e.file.seat = some id → e.OfSeat m₀ id) :
    FoundIn (m.enumerateSession e) id (done ++ [e]) := by
  intro e' he' hseat
  rcases mem_append.mp he' with hdone | hlast
  · rw [h.getSession_step hnew fun hid => hnew e' hdone hid.symm]
    exact hfound e' hdone hseat
  · rw [mem_singleton.mp hlast] at hseat ⊢
    obtain ⟨heq, -⟩ := h.step_own hnew (he hseat)
    rw [heq, h.getSession_load, if_pos rfl]
    exact ⟨_, rfl⟩

/-- Loading a list of state files one by one: what is known after each of them holds
    at the end. -/
theorem Enumerated.run {P : List Entry → Manager → Prop} {todo entries : List Entry}
    (h : Enumerated m₀ done m) (hp : P done m) (hall : done ++ todo = entries)
    (hids : entries.Pairwise fun e e' => e.id ≠ e'.id)
    (hstep : ∀ {done e todo m}, done ++ e :: todo = entries → Enumerated m₀ done m →
      (∀ e' ∈ done, e'.id ≠ e.id) → P done m → P (done ++ [e]) (m.enumerateSession e)) :
    Enumerated m₀ entries (todo.foldl Manager.enumerateSession m) ∧
    P entries (todo.foldl Manager.enumerateSession m) := by
  induction todo generalizing done m with
  | nil =>
    rw [append_nil] at hall
    subst hall
    exact ⟨h, hp⟩
  | cons e todo ih =>
    have hnew : ∀ e' ∈ done, e'.id ≠ e.id := by
      intro e' he'
      rw [← hall] at hids
      exact (pairwise_append.mp hids).2.2 e' he' e (by simp)
    refine ih (h.step hnew) (hstep hall h hnew hp) ?_
    rw [← append_cons]
    exact hall

end Enumerate

/-! ## Positions after a restart -/

/-- The saved positions of the sessions of a seat are pairwise distinct where they
    are not 0. -/
def PositionsDistinct (id : Bytes) (entries : List Entry) : Prop :=
  entries.Pairwise fun e e' => e.file.seat = some id → e'.file.seat = some id →
    ∀ p, 0 < p → e.file.position = some p → e'.file.position ≠ some p

/-- The state file of a session on the seat has a position that can be restored:
    there is memory for the table of positions, and the length of the table is a
    number of 32 bits. -/
def Manager.Entry.Restorable (e : Entry) : Prop :=
  e.load.claim.growPositions ≠ none ∧ ∃ p, e.file.position = some p ∧ p + 1 < 2 ^ 32

/-- Every session of a seat without VTs is at the position that was saved for it,
    and nobody else is. -/
structure PositionsRestored (m : Manager) (x : Ref) (id : Bytes) (entries : List Entry) : Prop where
  position : ∀ e ∈ entries, e.file.seat = some id → ∀ p, e.file.position = some p →
    ∃ s, m.getSession e.id = some s ∧ m.session.seat s = some x ∧ m.session.position s = p ∧
      (0 < p → (m.seat.positions x)[p]? = some (some s))
  table : ∀ p s, 0 < p → (m.seat.positions x)[p]? = some (some s) →
    ∃ e ∈ entries, e.file.seat = some id ∧ e.file.position = some p ∧ m.getSession e.id = some s

section Restored

variable {m : Manager} {x : Ref} {id : Bytes} {entries : List Entry}

theorem Unpopulated.placed (h : Unpopulated m) : Placed m x (SavedIn m id []) := by
  have hnone : ∀ {t p}, ¬ SavedIn m id [] t p := by
    rintro t p ⟨e, he, -⟩
    cases he
  constructor
  · intro t ht
    rw [h.seatSessions] at ht
    cases ht
  · exact fun hs => absurd hs hnone
  · exact fun hs => absurd hs hnone
  · intro t p _
    rw [h.positions]
    simp [hnone]

/-- For every order in which the state files (`entries`) are loaded, with files of
    other seats among them: sessions with distinct positions (`hdistinct`) are all
    restored to them, if each file of the seat is `Restorable` (`hgood`). -/
theorem positions_restored (h : Unpopulated m) (hx : m.getSeat id = some x)
    (hvts : m.seatHasVts x = false) (hids : entries.Pairwise fun e e' => e.id ≠ e'.id)
    (hown : ∀ e ∈ entries, e.file.seat = some id → e.OfSeat m id)
    (hdistinct : PositionsDistinct id entries)
    (hgood : ∀ e ∈ entries, e.file.seat = some id → e.Restorable) :
    PositionsRestored (entries.foldl Manager.enumerateSession m) x id entries := by
  have hstep : ∀ {done : List Entry} {e todo m'}, done ++ e :: todo = entries →
      Enumerated m done m' → (∀ e' ∈ done, e'.id ≠ e.id) →
      FoundIn m' id done ∧ Placed m' x (SavedIn m' id done) →
      FoundIn (m'.enumerateSession e) id (done ++ [e]) ∧
        Placed (m'.enumerateSession e) x (SavedIn (m'.enumerateSession e) id (done ++ [e])) := by
    intro done e todo m' hall henum hnew ⟨hfound, hplaced⟩
    have hmem : e ∈ entries := by simp [← hall]
    refine ⟨henum.found_step hfound hnew (hown e hmem), ?_⟩
    by_cases hseat : e.file.seat = some id
    · obtain ⟨hgrow, p, hp, hsmall⟩ := hgood e hmem hseat
      refine henum.placed_own hx hvts hplaced hnew (hown e hmem hseat) hp ?_ hgrow hsmall
      -- the position is not one of those that were saved in the files before
      rintro t hpos ⟨e', he', hseat', hp', -⟩
      rw [← hall] at hdistinct
      have hne := (pairwise_append.mp hdistinct).2.2 e' he' e (by simp)
      exact hne hseat' hseat p hpos hp' hp
    · exact henum.placed_foreign hx hvts hplaced hnew hseat
  obtain ⟨henum, hfound, hplaced⟩ := h.enumerated.run
    (P := fun done m => FoundIn m id done ∧ Placed m x (SavedIn m id done))
    ⟨fun e he => absurd he not_mem_nil, h.placed⟩ (nil_append entries) hids hstep
  constructor
  · intro e he hseat p hp
    obtain ⟨s, hs⟩ := hfound e he hseat
    have hsaved : SavedIn (entries.foldl enumerateSession m) id entries s p :=
      ⟨e, he, hseat, hp, hs⟩
    exact ⟨s, hs, hplaced.seat hsaved, hplaced.position hsaved,
      fun hpos => (hplaced.table hpos).mpr hsaved⟩
  · intro p s hpos hin
    exact (hplaced.table hpos).mp hin

end Restored

theorem unpopulated_twoSeats (b : Bool) : Unpopulated (.twoSeats b) where
  sessions := rfl
  seatSessions _ := rfl
  positions _ := rfl
  active _ := rfl
  session := rfl
  seatsOld := by
    intro x hx
    have hseats : x ∈ [1, 0] := hx
    simp only [mem_cons, not_mem_nil, or_false] at hseats
    rcases hseats with rfl | rfl
    · exact (by omega : 1 < 3)
    · exact (by omega : 0 < 3)

theorem ofSeat_secondSeatEntry (b : Bool) {id : Bytes} (hid : sessionIdValid id = true)
    (position : Nat) (active : Bool) (leader : Nat) :
    (Manager.secondSeatEntry id position active leader).OfSeat (.twoSeats b) (ascii "seat1") where
  seat := rfl
  vtnr := rfl
  user := ⟨1000, 2, rfl, by decide +revert⟩
  valid := hid
  alloc := rfl

/-- The session that was at the first position is loaded last: the other one, which
    was at the second, is at the first position for a while. -/
theorem positions_restored_of_two :
    PositionsRestored
      ([Manager.secondSeatEntry (ascii "4") 2 false 40,
        Manager.secondSeatEntry (ascii "3") 1 true 30].foldl Manager.enumerateSession
          (.twoSeats false)) 1 (ascii "seat1")
      [Manager.secondSeatEntry (ascii "4") 2 false 40,
        Manager.secondSeatEntry (ascii "3") 1 true 30] := by
  refine positions_restored (unpopulated_twoSeats false) (by decide) (by decide) ?_ ?_ ?_ ?_
  · simp [secondSeatEntry]
    decide
  · simp only [mem_cons, not_mem_nil, or_false, forall_eq_or_imp, forall_eq]
    exact ⟨fun _ => ofSeat_secondSeatEntry false (by decide) ..,
      fun _ => ofSeat_secondSeatEntry false (by decide) ..⟩
  · simp only [PositionsDistinct, pairwise_cons, mem_singleton, forall_eq]
    refine ⟨?_, by simp⟩
    intro _ _ p _ hp hp'
    cases hp
    cases hp'
  · simp [Entry.Restorable, secondSeatEntry, userFile, LoadAnswers.calm,
      Env.calm]

/-- The table of positions does not grow for the largest position. -/
theorem positions_lost :
    ¬ ∀ (m : Manager) (x : Ref) (id : Bytes) (entries : List Entry),
      Unpopulated m → m.getSeat id = some x → m.seatHasVts x = false →
      entries.Pairwise (fun e e' => e.id ≠ e'.id) →
      (∀ e ∈ entries, e.file.seat = some id → e.OfSeat m id) →
      PositionsDistinct id entries →
      (∀ e ∈ entries, e.file.seat = some id → e.load.claim.growPositions ≠ none ∧
        ∃ p, e.file.position = some p ∧ p < 2 ^ 32) →
      PositionsRestored (entries.foldl Manager.enumerateSession m) x id entries := by
  intro hall
  have hrestored := hall (.twoSeats false) 1 (ascii "seat1")
    [secondSeatEntry (ascii "3") 4294967295 true 30] (unpopulated_twoSeats false)
    (by decide) (by decide) (by simp)
    (by
      simp only [mem_singleton, forall_eq]
      exact fun _ => ofSeat_secondSeatEntry false (by decide) ..)
    (by simp [PositionsDistinct])
    (by simp [secondSeatEntry, userFile, LoadAnswers.calm, Env.calm])
  obtain ⟨s, -, -, -, htable⟩ := hrestored.position _ (mem_singleton_self _) rfl 4294967295 rfl
  have hnone : (([secondSeatEntry (ascii "3") 4294967295 true 30].foldl
      enumerateSession (.twoSeats false)).seat.positions 1)[4294967295]? = none := by
    decide
  rw [hnone] at htable
  cases htable (by omega)

end Elogind
