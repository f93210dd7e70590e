/-
  Elogind.Bus.AuthClient

  The client's side of the authentication on a bus connection (bus-socket.c).  All of the client's
  lines are sent at once, and the answers are checked together as soon as there are enough of
  them.  All bytes that were received are part of the state, although the code does not remember
  those it has used.
-/

import Elogind.Bus.AuthServer

namespace Elogind

open Byte Lib List

/-- Up to so many lines at the start of a text, without their ends, and what follows them. -/
def splitLines : Nat → Bytes → List Bytes × Bytes
  | 0, s => ([], s)
  | k + 1, s =>
    match findLineEnd s with
    | none => ([], s)
    | some l => (s.take l :: (splitLines k (s.drop (l + 2))).1, (splitLines k (s.drop (l + 2))).2)

/-- The bytes of whole lines. -/
def joinLines (lines : List Bytes) : Bytes := lines.flatMap (· ++ [carriageReturn, newline])

/-- How a connection of a client stands. -/
inductive ClientStatus where
  | authenticating
  | running
  | failed (e : Errno)
  /-- The assertion `i == n` does not hold. -/
  | aborted
  deriving DecidableEq, Repr

structure ClientAuth where
  rbuffer : Bytes
  auth : BusAuth
  /-- `server_id`, which is all zeros when it is not known. -/
  serverId : Bytes
  canFds : Bool
  status : ClientStatus
  /-- Everything that was received without descriptors. -/
  received : Bytes
  deriving DecidableEq, Repr

/-- What the client asks for. -/
structure ClientSettings where
  anonymousAuth : Bool
  acceptFd : Bool
  serverId : Bytes

namespace ClientSettings

variable (cfg : ClientSettings)

/-- The number of lines that are waited for. -/
def expected : Nat := (if cfg.anonymousAuth then 1 else 2) + if cfg.acceptFd then 1 else 0

end ClientSettings

namespace ClientAuth

section Client

variable (cfg : ClientSettings)

/-- The connection before anything was received. -/
def start : ClientAuth := ⟨[], .invalid, cfg.serverId, false, .authenticating, []⟩

/-- The answer to the mechanism: DATA, or the OK of old servers. -/
def isChallenge (line : Bytes) : Bool :=
  if line.length = 4 then line == ascii "DATA"
  else line.length == 3 + 32 && line.take 3 == ascii "OK "

/-- The last part of `bus_socket_auth_verify_client`: `i` lines were used so far. -/
def finish (b : ClientAuth) (lines : List Bytes) (rest : Bytes) (i : Nat) : ClientAuth :=
  let canFds := if cfg.acceptFd then decide (ascii "AGREE_UNIX_FD" <+: lines.getD i []) else b.canFds
  let i := if cfg.acceptFd then i + 1 else i
  if i ≠ lines.length then { b with canFds, status := .aborted }
  else { b with canFds, rbuffer := rest, status := .running }

/-- The check of the line with the OK. -/
def checkOk (b : ClientAuth) (lines : List Bytes) (rest : Bytes) (i : Nat) : ClientAuth :=
  let l := lines.getD i []
  if l.length ≠ 3 + 32 then { b with status := .failed Errno.EPERM }
  else if l.take 3 ≠ ascii "OK " then { b with status := .failed Errno.EPERM }
  else
    let b := { b with auth := if cfg.anonymousAuth then .anonymous else .external }
    match unhexPairs (l.drop 3) with
    | none => { b with status := .failed Errno.EINVAL }
    | some peer =>
      if b.serverId.any (· ≠ 0) && b.serverId ≠ peer then { b with status := .failed Errno.EPERM }
      else finish cfg { b with serverId := peer } lines rest (i + 1)

/-- `bus_socket_auth_verify_client` -/
def authVerifyClient (b : ClientAuth) : ClientAuth :=
  let lines := (splitLines 3 b.rbuffer).1
  let rest := (splitLines 3 b.rbuffer).2
  if lines.length < cfg.expected then b
  else if cfg.anonymousAuth then checkOk cfg b lines rest 0
  else if !isChallenge (lines.getD 0 []) then { b with status := .failed Errno.EPERM }
  else checkOk cfg b lines rest 1

/-- The socket takes bytes of the client's lines, or it has bytes of the server, as many as there is room
    for, perhaps with descriptors. -/
inductive ClientEvent where
  | write
  | read (chunk : Bytes) (fds : Bool)
  deriving DecidableEq, Repr

/-- `bus_socket_read_auth` -/
def readAuth (b : ClientAuth) (chunk : Bytes) (fds : Bool) : ClientAuth :=
  let b := authVerifyClient cfg b
  if b.status ≠ .authenticating then b
  else
    let room := ServerAuth.authBufferSize b.rbuffer
    let chunk := chunk.take (room - b.rbuffer.length)
    if b.rbuffer.length ≥ room then { b with status := .failed Errno.ENOBUFS }
    else if chunk = [] then { b with status := .failed Errno.ECONNRESET }
    else
      let b := { b with rbuffer := b.rbuffer ++ chunk }
      if fds then { b with status := .failed Errno.EIO }
      else authVerifyClient cfg { b with received := b.received ++ chunk }

/-- One step, as long as the connection authenticates. -/
def AuthStep (b : ClientAuth) (e : ClientEvent) (b' : ClientAuth) : Prop :=
  b.status = .authenticating ∧
    match e with
    | .write => b' = authVerifyClient cfg b
    | .read chunk fds => b' = readAuth cfg b chunk fds

/-! ## What the server has to send -/

/-- An OK line with an id that is not another one than expected. -/
def IsOk (line : Bytes) : Prop :=
  line.length = 3 + 32 ∧ line.take 3 = ascii "OK " ∧
    ∃ peer, unhexPairs (line.drop 3) = some peer ∧ (cfg.serverId.any (· ≠ 0) = true → cfg.serverId = peer)

/-- The lines that the client waits for, in their order: the answer to the mechanism if it was sent alone,
    the OK, and the answer about descriptors if these were asked for. -/
def Greeting (lines : List Bytes) : Prop :=
  ∃ challenge ok fds, lines = challenge ++ ok :: fds ∧
    challenge.length = (if cfg.anonymousAuth then 0 else 1) ∧ (∀ l ∈ challenge, isChallenge l = true) ∧
    IsOk cfg ok ∧ fds.length = if cfg.acceptFd then 1 else 0

/-- There are more lines than are waited for, and those are the right ones. -/
def Crowded (s : Bytes) : Prop :=
  cfg.expected < (splitLines 3 s).1.length ∧ Greeting cfg ((splitLines 3 s).1.take cfg.expected)

/-- The connection did not fail the assertion; and if it is running, the lines were received in order and
    the buffer has what follows them. -/
def Robust (b : ClientAuth) : Prop :=
  b.status ≠ .aborted ∧
    (b.status = .running → ∃ lines, Greeting cfg lines ∧ b.received = joinLines lines ++ b.rbuffer ∧
      (b.canFds = true ↔ cfg.acceptFd = true ∧ ascii "AGREE_UNIX_FD" <+: lines.getLastD []))

end Client

/-! ## Lines -/

theorem findLineEnd_eq_some {s : Bytes} {l : Nat} (h : findLineEnd s = some l) :
    s = s.take l ++ [carriageReturn, newline] ++ s.drop (l + 2) := by
  induction s generalizing l with
  | nil => cases h
  | cons c s ih =>
    cases s with
    | nil => cases h
    | cons d s =>
      rw [findLineEnd] at h
      split at h
      · next hend =>
        cases h
        rw [hend.1, hend.2]
        rfl
      · obtain ⟨l, hl, rfl⟩ := Option.map_eq_some_iff.mp h
        have hrest := ih hl
        rw [take_succ_cons, show l + 1 + 2 = (l + 2) + 1 from rfl, drop_succ_cons, cons_append,
          cons_append, ← hrest]

/-- The lines and what follows them are the whole text. -/
theorem joinLines_splitLines (k : Nat) (s : Bytes) : joinLines (splitLines k s).1 ++ (splitLines k s).2 = s := by
  induction k generalizing s with
  | zero => rfl
  | succ k ih =>
    rw [splitLines]
    split
    · rfl
    · next l hl =>
      have hcons : ∀ l ls, joinLines (l :: ls) = l ++ [carriageReturn, newline] ++ joinLines ls :=
        fun _ _ => rfl
      rw [hcons, append_assoc, ih]
      exact (findLineEnd_eq_some hl).symm

section Proofs

variable {cfg : ClientSettings} {b b' : ClientAuth} {lines : List Bytes}

/-- The number of lines about descriptors. -/
theorem expected_anonymous (h : cfg.anonymousAuth = true) :
    cfg.expected = (if cfg.acceptFd then 1 else 0) + 1 := by
  rw [ClientSettings.expected, h, if_pos rfl, Nat.add_comm]

theorem expected_external (h : cfg.anonymousAuth = false) :
    cfg.expected = (if cfg.acceptFd then 1 else 0) + 1 + 1 := by
  rw [ClientSettings.expected, h, if_neg (by decide), Nat.add_comm]

/-- Where the lines stand that have to be there. -/
theorem greeting_take (h : cfg.expected ≤ lines.length) :
    Greeting cfg (lines.take cfg.expected) ↔
      (cfg.anonymousAuth = false → isChallenge (lines.getD 0 []) = true) ∧
        IsOk cfg (lines.getD (if cfg.anonymousAuth then 0 else 1) []) := by
  unfold Greeting
  cases hanonymous : cfg.anonymousAuth with
  | true =>
    rw [expected_anonymous hanonymous] at h ⊢
    obtain ⟨ok, lines, rfl⟩ := exists_cons_of_length_pos (Nat.zero_lt_of_lt h)
    rw [length_cons] at h
    constructor
    · rintro ⟨challenge, ok', fds, hlines, hlen, -, hok, -⟩
      obtain rfl := length_eq_zero_iff.mp hlen
      obtain ⟨rfl, -⟩ := cons.inj hlines
      exact ⟨fun hfalse => absurd hfalse (by decide), hok⟩
    · rintro ⟨-, hok⟩
      refine ⟨[], ok, lines.take (if cfg.acceptFd then 1 else 0), rfl, rfl, by simp, hok, ?_⟩
      rw [length_take]
      omega
  | false =>
    rw [expected_external hanonymous] at h ⊢
    obtain ⟨challenge, lines, rfl⟩ := exists_cons_of_length_pos (Nat.zero_lt_of_lt h)
    rw [length_cons] at h
    obtain ⟨ok, lines, rfl⟩ := exists_cons_of_length_pos (Nat.zero_lt_of_lt (Nat.le_of_succ_le_succ h))
    rw [length_cons] at h
    constructor
    · rintro ⟨challenges, ok', fds, hlines, hlen, hchallenge, hok, -⟩
      obtain ⟨l, rfl⟩ := length_eq_one_iff.mp hlen
      obtain ⟨rfl, hrest⟩ := cons.inj hlines
      obtain ⟨rfl, -⟩ := cons.inj hrest
      exact ⟨fun _ => hchallenge _ (mem_singleton_self _), hok⟩
    · rintro ⟨hchallenge, hok⟩
      refine ⟨[challenge], ok, lines.take (if cfg.acceptFd then 1 else 0), rfl, rfl, ?_, hok, ?_⟩
      · intro l hl
        rw [mem_singleton.mp hl]
        exact hchallenge rfl
      · rw [length_take]
        omega

/-- What becomes of a connection whose lines were checked. -/
structure Checked (cfg : ClientSettings) (b b' : ClientAuth) (lines : List Bytes) (rest : Bytes) (good : Prop) :
    Prop where
  received : b'.received = b.received
  refused : ¬ good → ∃ e, b'.status = .failed e
  aborted : good → cfg.expected < lines.length → b'.status = .aborted
  running : good → lines.length = cfg.expected → b'.status = .running ∧ b'.rbuffer = rest ∧
    (b'.canFds = true ↔ cfg.acceptFd = true ∧ ascii "AGREE_UNIX_FD" <+: lines.getLastD [])

theorem checked_finish {i : Nat} (hcan : b.canFds = false) (rest : Bytes)
    (hi : cfg.expected = i + if cfg.acceptFd then 1 else 0) :
    Checked cfg b (finish cfg b lines rest i) lines rest True := by
  have hused : (if cfg.acceptFd = true then i + 1 else i) = cfg.expected := by
    rw [hi]
    split <;> rfl
  unfold finish
  dsimp only
  rw [hused]
  refine ⟨by split <;> rfl, fun h => absurd trivial h, fun _ hlt => by rw [if_pos (by omega)], fun _ heq => ?_⟩
  rw [if_neg (by omega)]
  refine ⟨rfl, rfl, ?_⟩
  cases hfd : cfg.acceptFd with
  | false => simp [hcan]
  | true =>
    rw [hfd] at hi
    have hlast : lines.getLastD [] = lines.getD i [] := by
      have hlen : lines.length = i + 1 := by rw [heq, hi, if_pos rfl]
      rw [getLastD_eq_getLast?, getLast?_eq_getElem?, hlen, getD_eq_getElem?_getD]
      rfl
    rw [hlast]
    simp

theorem checked_checkOk {i : Nat} (hcan : b.canFds = false) (hid : b.serverId = cfg.serverId)
    (lines : List Bytes) (rest : Bytes)
    (hi : cfg.expected = i + 1 + if cfg.acceptFd then 1 else 0) :
    Checked cfg b (checkOk cfg b lines rest i) lines rest (IsOk cfg (lines.getD i [])) := by
  have hrefused : ∀ {b' : ClientAuth} {e : Errno}, ¬ IsOk cfg (lines.getD i []) → b'.received = b.received →
      b'.status = .failed e → Checked cfg b b' lines rest (IsOk cfg (lines.getD i [])) := by
    intro b' e hnot hreceived hfailed
    exact ⟨hreceived, fun _ => ⟨e, hfailed⟩, fun hok => absurd hok hnot, fun hok => absurd hok hnot⟩
  unfold checkOk
  dsimp only
  split
  · next hlen => exact hrefused (fun h => hlen h.1) rfl rfl
  split
  · next hword => exact hrefused (fun h => hword h.2.1) rfl rfl
  next hlen hword =>
  split
  · next hhex =>
    refine hrefused (fun h => ?_) rfl rfl
    obtain ⟨-, -, peer, hpeer, -⟩ := h
    rw [hhex] at hpeer
    cases hpeer
  · next peer hpeer =>
    rw [hid]
    split
    · next hother =>
      rw [Bool.and_eq_true, decide_eq_true_eq] at hother
      refine hrefused (fun h => ?_) rfl rfl
      obtain ⟨-, -, peer', hpeer', hsame⟩ := h
      rw [hpeer] at hpeer'
      cases hpeer'
      exact hother.2 (hsame hother.1)
    · next hother =>
      have hok : IsOk cfg (lines.getD i []) := by
        refine ⟨not_not.mp hlen, not_not.mp hword, peer, hpeer, fun hknown => ?_⟩
        rw [Bool.and_eq_true, decide_eq_true_eq, not_and, not_not] at hother
        exact hother hknown
      obtain ⟨hreceived, -, haborted, hrunning⟩ := @checked_finish cfg
        { b with auth := if cfg.anonymousAuth then .anonymous else .external, serverId := peer } lines (i + 1)
        hcan rest hi
      exact ⟨hreceived, fun h => absurd hok h, fun _ => haborted trivial, fun _ => hrunning trivial⟩

/-- Where there are enough lines, the connection is decided by them. -/
theorem checked_authVerifyClient (hcan : b.canFds = false) (hid : b.serverId = cfg.serverId)
    (hle : cfg.expected ≤ (splitLines 3 b.rbuffer).1.length) :
    Checked cfg b (authVerifyClient cfg b) (splitLines 3 b.rbuffer).1 (splitLines 3 b.rbuffer).2
      (Greeting cfg ((splitLines 3 b.rbuffer).1.take cfg.expected)) := by
  have hgreeting := greeting_take hle
  unfold authVerifyClient
  rw [if_neg (by omega)]
  cases hanonymous : cfg.anonymousAuth with
  | true =>
    rw [hanonymous, if_pos rfl] at hgreeting
    have hok := checked_checkOk (i := 0) hcan hid (splitLines 3 b.rbuffer).1 (splitLines 3 b.rbuffer).2
      (by rw [expected_anonymous hanonymous, Nat.add_comm, Nat.zero_add])
    rw [if_pos rfl]
    exact ⟨hok.received,
      fun h => hok.refused fun h' => h (hgreeting.mpr ⟨fun hfalse => absurd hfalse (by decide), h'⟩),
      fun h => hok.aborted (hgreeting.mp h).2, fun h => hok.running (hgreeting.mp h).2⟩
  | false =>
    rw [hanonymous, if_neg (by decide)] at hgreeting
    have hok := checked_checkOk (i := 1) hcan hid (splitLines 3 b.rbuffer).1 (splitLines 3 b.rbuffer).2
      (by rw [expected_external hanonymous, Nat.add_assoc, Nat.add_comm])
    rw [if_neg (by decide)]
    cases hchallenge : isChallenge ((splitLines 3 b.rbuffer).1.getD 0 []) with
    | true =>
      exact ⟨hok.received, fun h => hok.refused fun h' => h (hgreeting.mpr ⟨fun _ => hchallenge, h'⟩),
        fun h => hok.aborted (hgreeting.mp h).2, fun h => hok.running (hgreeting.mp h).2⟩
    | false =>
      have hnot : ¬ Greeting cfg ((splitLines 3 b.rbuffer).1.take cfg.expected) := by
        intro h
        have htrue := (hgreeting.mp h).1 rfl
        rw [hchallenge] at htrue
        cases htrue
      exact ⟨rfl, fun _ => ⟨_, rfl⟩, fun h => absurd h hnot, fun h => absurd h hnot⟩

theorem authVerifyClient_of_lt (h : (splitLines 3 b.rbuffer).1.length < cfg.expected) :
    authVerifyClient cfg b = b := by
  unfold authVerifyClient
  rw [if_pos h]

/-! ## Runs -/

/-- What holds while the connection authenticates. -/
structure Waiting (cfg : ClientSettings) (b : ClientAuth) : Prop where
  buffered : b.rbuffer = b.received
  id : b.serverId = cfg.serverId
  noFds : b.canFds = false

/-- What holds after every step. -/
structure Settled (cfg : ClientSettings) (b : ClientAuth) : Prop where
  waiting : b.status = .authenticating →
    Waiting cfg b ∧ (splitLines 3 b.received).1.length < cfg.expected
  robust : Robust cfg b ↔ ¬ Crowded cfg b.received

theorem robust_of_status (h : b.status ≠ .aborted) (h' : b.status ≠ .running) : Robust cfg b :=
  ⟨h, fun hrunning => absurd hrunning h'⟩

theorem not_crowded_of_lt {s : Bytes} (h : (splitLines 3 s).1.length < cfg.expected) : ¬ Crowded cfg s :=
  fun hcrowded => absurd hcrowded.1 (by omega)

theorem settled_authVerifyClient (h : Waiting cfg b) (hstatus : b.status = .authenticating) :
    Settled cfg (authVerifyClient cfg b) := by
  by_cases hlt : (splitLines 3 b.rbuffer).1.length < cfg.expected
  · rw [authVerifyClient_of_lt hlt]
    rw [h.buffered] at hlt
    refine ⟨fun _ => ⟨h, hlt⟩, fun _ => not_crowded_of_lt hlt, fun _ => robust_of_status ?_ ?_⟩
    · rw [hstatus]
      decide
    · rw [hstatus]
      decide
  · obtain ⟨hreceived, hrefused, haborted, hrunning⟩ :=
      checked_authVerifyClient h.noFds h.id (Nat.le_of_not_lt hlt)
    rw [h.buffered] at hlt hrefused haborted hrunning
    by_cases hgood : Greeting cfg ((splitLines 3 b.received).1.take cfg.expected)
    · rcases Nat.lt_or_eq_of_le (Nat.le_of_not_lt hlt) with hmore | hexact
      · have hstatus' := haborted hgood hmore
        refine ⟨fun h => absurd (hstatus'.symm.trans h) (by decide), ?_⟩
        rw [hreceived]
        exact ⟨fun hrobust => absurd hstatus' hrobust.1, fun hnot => absurd ⟨hmore, hgood⟩ hnot⟩
      · obtain ⟨hstatus', hrest, hfds⟩ := hrunning hgood hexact.symm
        refine ⟨fun h => absurd (hstatus'.symm.trans h) (by decide), ?_⟩
        rw [hreceived]
        refine ⟨fun _ hcrowded => absurd hcrowded.1 (by omega), fun _ => ⟨by rw [hstatus']; decide, fun _ => ?_⟩⟩
        refine ⟨(splitLines 3 b.received).1, ?_, ?_, hfds⟩
        · rw [hexact, take_length] at hgood
          exact hgood
        · rw [hreceived, hrest, joinLines_splitLines]
    · obtain ⟨e, hstatus'⟩ := hrefused hgood
      have hother : ∀ s, (∀ e, s ≠ .failed e) → (authVerifyClient cfg b).status ≠ s := by
        intro s hs h
        exact hs e (h.symm.trans hstatus')
      refine ⟨fun h => absurd h (hother _ ?_), ?_⟩
      · exact fun e h => by cases h
      rw [hreceived]
      refine ⟨fun _ hcrowded => hgood hcrowded.2, fun _ => robust_of_status (hother _ ?_) (hother _ ?_)⟩
      · exact fun e h => by cases h
      · exact fun e h => by cases h

/-- A connection that fails before the new bytes are looked at. -/
theorem settled_failed (h : Settled cfg b) (hstatus : b.status = .authenticating) {rbuffer : Bytes} {e : Errno} :
    Settled cfg { b with rbuffer, status := .failed e } := by
  have hlt := (h.waiting hstatus).2
  refine ⟨?_, fun _ => not_crowded_of_lt hlt, fun _ => robust_of_status ?_ ?_⟩
  · exact fun h => by cases h
  · exact fun h => by cases h
  · exact fun h => by cases h

theorem Settled.step {e : ClientEvent} (h : Settled cfg b) (hstep : AuthStep cfg b e b') : Settled cfg b' := by
  obtain ⟨hstatus, hstep⟩ := hstep
  obtain ⟨hwaiting, hlt⟩ := h.waiting hstatus
  have hsame : authVerifyClient cfg b = b := authVerifyClient_of_lt (by rw [hwaiting.buffered]; exact hlt)
  cases e with
  | write =>
    rw [hstep, hsame]
    exact h
  | read chunk fds =>
    unfold readAuth at hstep
    dsimp only at hstep
    rw [hsame, if_neg (not_not.mpr hstatus)] at hstep
    split at hstep
    · rw [hstep]
      exact settled_failed h hstatus
    split at hstep
    · rw [hstep]
      exact settled_failed h hstatus
    split at hstep
    · rw [hstep]
      exact settled_failed h hstatus
    · rw [hstep]
      refine settled_authVerifyClient ⟨?_, hwaiting.id, hwaiting.noFds⟩ hstatus
      rw [hwaiting.buffered]

/-- In every run, the client stays within its assertion, and is running only behind the lines it waits for,
    if and only if no more lines are there than it waits for when it has got the right ones. -/
theorem authClient_robust_iff (cfg : ClientSettings) {events : List ClientEvent} {b : ClientAuth}
    (hrun : Run (AuthStep cfg) (start cfg) events b) : Robust cfg b ↔ ¬ Crowded cfg b.received := by
  have hstart : Settled cfg (start cfg) := by
    have hlt : (splitLines 3 (start cfg).received).1.length < cfg.expected := by
      show 0 < cfg.expected
      unfold ClientSettings.expected
      split <;> omega
    refine ⟨fun _ => ⟨⟨rfl, rfl, rfl⟩, hlt⟩, fun _ => not_crowded_of_lt hlt, fun _ => robust_of_status ?_ ?_⟩
    · exact fun h => by cases h
    · exact fun h => by cases h
  have hsettled : Settled cfg b := hrun.invariant hstart fun h hstep => h.step hstep
  exact hsettled.robust

end Proofs

/-- A client that authenticates anonymously and does not ask for descriptors, and the line it waits for. -/
def sampleClient : ClientSettings := ⟨true, false, List.replicate 16 0⟩

def okLine : Bytes := ascii "OK 0123456789abcdef0123456789abcdef\r\n"

/-- Bytes behind the line stay in the buffer. -/
theorem authClient_robust_ok :
    ∃ b, Run (AuthStep sampleClient) (start sampleClient) [.read (okLine ++ [1, 2]) false] b ∧
      b.rbuffer = [1, 2] ∧ Robust sampleClient b := by
  have hrun : Run (AuthStep sampleClient) (start sampleClient) [.read (okLine ++ [1, 2]) false]
      ⟨[1, 2], .anonymous, [1, 35, 69, 103, 137, 171, 205, 239, 1, 35, 69, 103, 137, 171, 205, 239], false, .running,
        okLine ++ [1, 2]⟩ := .single ⟨rfl, rfl⟩
  refine ⟨_, hrun, rfl, (authClient_robust_iff sampleClient hrun).mpr fun hcrowded => ?_⟩
  exact absurd hcrowded.1 (by decide)

/-- A second line that came with the first one fails the assertion. -/
theorem authClient_aborts :
    ∃ b, Run (AuthStep sampleClient) (start sampleClient) [.read (okLine ++ [carriageReturn, newline]) false] b ∧
      b.status = .aborted :=
  ⟨_, .single ⟨rfl, rfl⟩, rfl⟩

end ClientAuth

end Elogind
