/-
  Elogind.Bus.AuthServer

  The server's side of the authentication on a bus connection (bus-socket.c): the lines of the
  client are answered one after the other until it sends BEGIN.

  What was asked and answered so far is part of the state, although the code does not remember it.
-/

import Elogind.Basic.BusLabel
import Elogind.Basic.ParseUtil
import Elogind.Lib.Run

namespace Elogind

open Byte Lib List

/-! ## Lines and tokens -/

/-- `memmem_safe(p, l, "\r\n", 2)`: where the first line ends. -/
def findLineEnd : Bytes → Option Nat
  | [] => none
  | [_] => none
  | c :: d :: s =>
    if c = carriageReturn ∧ d = newline then some 0 else (findLineEnd (d :: s)).map (· + 1)

/-- `line_begins` -/
def lineBegins (line word : Bytes) : Bool :=
  decide (word <+: line) && (line.length == word.length || line.getD word.length 0 == space)

/-- The bytes that pairs of hexadecimal digits stand for. -/
def unhexPairs : Bytes → Option Bytes
  | [] => some []
  | [_] => none
  | a :: b :: s =>
    match unhexchar a, unhexchar b, unhexPairs s with
    | some a, some b, some t => some (UInt8.ofNat (16 * a + b) :: t)
    | _, _, _ => none

/-- `unhexmem_full`; `strchr` also finds the byte zero among the spaces that are skipped. -/
def unhexmem (p : Bytes) : Option Bytes := unhexPairs (p.filter fun c => !(isWhitespace c || c == 0))

/-- What the answers depend on. -/
structure AuthSettings where
  anonymousAuth : Bool
  acceptFd : Bool
  /-- The uid in `ucred`, if that is valid. -/
  ucred : Option Nat
  /-- The digits of `server_id`. -/
  serverId : Bytes

namespace AuthSettings

/-- The token behind the space, if it is one without a zero. -/
def token (p : Bytes) : Option Bytes :=
  if p.tail.length % 2 ≠ 0 then none
  else
    match unhexmem p.tail with
    | none => none
    | some token => if token.contains 0 then none else some token

/-- `verify_anonymous_token`; `p` is what follows the word in the line. -/
def verifyAnonymousToken (cfg : AuthSettings) (p : Bytes) : Bool :=
  cfg.anonymousAuth && (p == [] || (token p).any utf8IsValid)

/-- `verify_external_token` -/
def verifyExternalToken (cfg : AuthSettings) (p : Bytes) : Bool :=
  (cfg.anonymousAuth || cfg.ucred.isSome) &&
    (p == [] || (token p).any fun token =>
      match parseUid token with
      | .error _ => false
      | .ok u => cfg.anonymousAuth || cfg.ucred == some u)

end AuthSettings

/-! ## Answers -/

/-- `enum bus_auth` -/
inductive BusAuth where
  | invalid
  | external
  | anonymous
  deriving DecidableEq, Repr

/-- The lines that the server sends. -/
inductive AuthReply where
  | ok
  | rejected
  | rejectedMechanisms
  | data
  | error
  | agreeUnixFd
  deriving DecidableEq, Repr

namespace AuthReply

def text (cfg : AuthSettings) : AuthReply → Bytes
  | ok => ascii "OK " ++ cfg.serverId ++ ascii "\r\n"
  | rejected => ascii "REJECTED\r\n"
  | rejectedMechanisms => ascii "REJECTED EXTERNAL ANONYMOUS\r\n"
  | data => ascii "DATA\r\n"
  | error => ascii "ERROR\r\n"
  | agreeUnixFd => ascii "AGREE_UNIX_FD\r\n"

/-- The answers that say how the authentication stands. -/
def isVerdict : AuthReply → Bool
  | ok | rejected | rejectedMechanisms | data => true
  | error | agreeUnixFd => false

end AuthReply

/-- The connection of a server to a client that authenticates itself. -/
structure ServerAuth where
  rbuffer : Bytes
  /-- `auth_rbegin` -/
  rbegin : Nat
  auth : BusAuth
  canFds : Bool
  /-- What is left of `auth_iovec`. -/
  pending : Bytes
  /-- `bus_start_running` was called. -/
  running : Bool
  /-- The lines that were answered. -/
  lines : List Bytes
  /-- The answers that were queued. -/
  replies : List AuthReply
  deriving DecidableEq, Repr

def authAnonymous : Bytes := ascii "AUTH ANONYMOUS"
def authExternal : Bytes := ascii "AUTH EXTERNAL"

namespace ServerAuth

/-- The connection before anything was received. -/
def start : ServerAuth := ⟨[], 0, .invalid, false, [], false, [], []⟩

section Server

variable (cfg : AuthSettings)

/-- An AUTH line with a mechanism that is known: the mechanism is chosen if the token, or that there is
    none, is accepted. -/
def chooseMechanism (auth mechanism : BusAuth) (accepted : Bool) (p : Bytes) : BusAuth × AuthReply :=
  if !accepted then (auth, .rejected) else (mechanism, if p = [] then .data else .ok)

/-- The mechanism after a line, and the answer to it; a BEGIN comes here only before a mechanism was
    chosen. -/
def answer (auth : BusAuth) (line : Bytes) : BusAuth × AuthReply :=
  if lineBegins line authAnonymous then
    let p := line.drop authAnonymous.length
    chooseMechanism auth .anonymous (cfg.verifyAnonymousToken p) p
  else if lineBegins line authExternal then
    let p := line.drop authExternal.length
    chooseMechanism auth .external (cfg.verifyExternalToken p) p
  else if lineBegins line (ascii "AUTH") then (auth, .rejectedMechanisms)
  else if line = ascii "CANCEL" ∨ lineBegins line (ascii "ERROR") then (.invalid, .rejected)
  else if line = ascii "BEGIN" then (auth, .error)
  else if lineBegins line (ascii "DATA") then
    if auth = .invalid then (auth, .error)
    else
      let p := line.drop 4
      let accepted := if auth = .anonymous then cfg.verifyAnonymousToken p else cfg.verifyExternalToken p
      if !accepted then (.invalid, .rejected) else (auth, .ok)
  else if line = ascii "NEGOTIATE_UNIX_FD" then
    (auth, if auth = .invalid ∨ !cfg.acceptFd then .error else .agreeUnixFd)
  else (auth, .error)

/-- A line is answered, and the answer queued (`bus_socket_auth_write`). -/
def answerLine (b : ServerAuth) (line : Bytes) (next : Nat) : ServerAuth :=
  let r := answer cfg b.auth line
  { b with
    rbegin := next
    auth := r.1
    canFds := b.canFds || r.2 == .agreeUnixFd
    pending := b.pending ++ r.2.text cfg
    lines := b.lines ++ [line]
    replies := b.replies ++ [r.2] }

/-- The loop of `bus_socket_auth_verify_server`.  Every round gets past a line. -/
def verifyLoop : Nat → ServerAuth → Bool → ServerAuth × Bool
  | 0, b, processed => (b, processed)
  | fuel + 1, b, processed =>
    match findLineEnd (b.rbuffer.drop b.rbegin) with
    | none => (b, processed)
    | some l =>
      let line := (b.rbuffer.drop b.rbegin).take l
      let next := b.rbegin + l + 2
      if line = ascii "BEGIN" ∧ b.auth ≠ .invalid then
        -- everything that is queued has to be written first
        if b.pending ≠ [] then (b, true)
        else ({ b with rbuffer := b.rbuffer.drop next, running := true }, true)
      else verifyLoop fuel (answerLine cfg b line next) true

/-- `bus_socket_auth_verify_server` -/
def authVerifyServer (b : ServerAuth) : Result (ServerAuth × Bool) :=
  if b.rbuffer.length < 1 then .ok (b, false)
  else if b.rbuffer.headD 0 ≠ 0 then .error Errno.EIO
  else if b.rbuffer.length < 3 then .ok (b, false)
  else .ok (verifyLoop cfg b.rbuffer.length { b with rbegin := if b.rbegin = 0 then 1 else b.rbegin } false)

/-- `BUS_AUTH_SIZE_MAX` -/
def busAuthSizeMax : Nat := 64 * 1024

/-- How large `bus_socket_read_auth` makes the buffer. -/
def authBufferSize (rbuffer : Bytes) : Nat := min (max 256 (rbuffer.length * 2)) busAuthSizeMax

/-- What the socket does: it takes bytes of the answer, or it has bytes of the client, as many as there
    is room for, perhaps with descriptors. -/
inductive AuthEvent where
  | write (k : Nat)
  | read (chunk : Bytes) (fds : Bool)
  deriving DecidableEq, Repr

/-- `bus_socket_write_auth` -/
def writeAuth (b : ServerAuth) (k : Nat) : Result ServerAuth :=
  if b.pending = [] then .ok b
  else
    match authVerifyServer cfg { b with pending := b.pending.drop k } with
    | .error e => .error e
    | .ok (b, _) => .ok b

/-- `bus_socket_read_auth` -/
def readAuth (b : ServerAuth) (chunk : Bytes) (fds : Bool) : Result ServerAuth :=
  match authVerifyServer cfg b with
  | .error e => .error e
  | .ok (b, true) => .ok b
  | .ok (b, false) =>
    let chunk := chunk.take (authBufferSize b.rbuffer - b.rbuffer.length)
    if b.rbuffer.length ≥ authBufferSize b.rbuffer then .error Errno.ENOBUFS
    else if chunk = [] then .error Errno.ECONNRESET
    else if fds then .error Errno.EIO
    else
      match authVerifyServer cfg { b with rbuffer := b.rbuffer ++ chunk } with
      | .error e => .error e
      | .ok (b, _) => .ok b

/-- One step of `bus_socket_process_authenticating`, as long as the connection authenticates. -/
def AuthStep (b : ServerAuth) (e : AuthEvent) (b' : ServerAuth) : Prop :=
  b.running = false ∧
    match e with
    | .write k => writeAuth cfg b k = .ok b'
    | .read chunk fds => readAuth cfg b chunk fds = .ok b'

end Server

/-- The verdict that was queued last. -/
def lastVerdict (b : ServerAuth) : Option AuthReply := (b.replies.filter AuthReply.isVerdict).getLast?

/-- The lines that are answered with a verdict; DATA is if a mechanism was chosen before. -/
def asks (line : Bytes) : Bool :=
  lineBegins line (ascii "AUTH") || line == ascii "CANCEL" || lineBegins line (ascii "ERROR") ||
    lineBegins line (ascii "DATA")

/-- The last line that asked for a verdict. -/
def lastAsked (b : ServerAuth) : Option Bytes := (b.lines.filter asks).getLast?

/-- An AUTH line that brings a token which is accepted. -/
def authenticates (cfg : AuthSettings) (line : Bytes) : Bool :=
  if lineBegins line authAnonymous then
    let p := line.drop authAnonymous.length
    p ≠ [] && cfg.verifyAnonymousToken p
  else
    let p := line.drop authExternal.length
    lineBegins line authExternal && p ≠ [] && cfg.verifyExternalToken p

/-! ## One line -/

section Proofs

variable {cfg : AuthSettings} {b b' : ServerAuth} {line : Bytes}

/-- A line that begins with two words begins with the first of them. -/
theorem lineBegins_first {line word r : Bytes} (h : lineBegins line (word ++ space :: r) = true) :
    lineBegins line word = true := by
  rw [lineBegins, Bool.and_eq_true, decide_eq_true_eq] at h
  obtain ⟨s, rfl⟩ := h.1
  rw [append_assoc, cons_append, lineBegins, Bool.and_eq_true, decide_eq_true_eq, Bool.or_eq_true]
  refine ⟨prefix_append _ _, .inr ?_⟩
  simp [getD]

theorem lineBegins_auth (h : lineBegins line authAnonymous = true ∨ lineBegins line authExternal = true) :
    lineBegins line (ascii "AUTH") = true := by
  rcases h with h | h
  · exact lineBegins_first (r := ascii "ANONYMOUS") h
  · exact lineBegins_first (r := ascii "EXTERNAL") h

/-- The answer to an AUTH line with a mechanism that is known. -/
theorem chooseMechanism_spec {auth mechanism : BusAuth} (accepted : Bool) (p : Bytes) :
    (chooseMechanism auth mechanism accepted p).2.isVerdict = true ∧
      ((chooseMechanism auth mechanism accepted p).2 = .ok ↔ p ≠ [] ∧ accepted = true) := by
  unfold chooseMechanism
  cases accepted with
  | false => simp [AuthReply.isVerdict]
  | true => by_cases hp : p = [] <;> simp [hp, AuthReply.isVerdict]

/-- A line that asks for a verdict gets one, unless there is no mechanism afterwards.  The verdict is OK
    except for AUTH lines that do not authenticate. -/
theorem answer_asks {auth : BusAuth} (h : asks line = true) (hauth : (answer cfg auth line).1 ≠ .invalid) :
    (answer cfg auth line).2.isVerdict = true ∧
      ((answer cfg auth line).2 = .ok ↔
        (lineBegins line (ascii "AUTH") = true → authenticates cfg line = true)) := by
  by_cases hanonymous : lineBegins line authAnonymous = true
  · have hanswer : answer cfg auth line = chooseMechanism auth .anonymous
        (cfg.verifyAnonymousToken (line.drop authAnonymous.length)) (line.drop authAnonymous.length) := by
      unfold answer
      rw [if_pos hanonymous]
    have htoken : authenticates cfg line = (decide (line.drop authAnonymous.length ≠ []) &&
        cfg.verifyAnonymousToken (line.drop authAnonymous.length)) := by
      unfold authenticates
      rw [if_pos hanonymous]
    rw [hanswer, htoken, (chooseMechanism_spec _ _).2, Bool.and_eq_true, decide_eq_true_eq]
    exact ⟨(chooseMechanism_spec _ _).1, fun h _ => h, fun h => h (lineBegins_auth (.inl hanonymous))⟩
  by_cases hexternal : lineBegins line authExternal = true
  · have hanswer : answer cfg auth line = chooseMechanism auth .external
        (cfg.verifyExternalToken (line.drop authExternal.length)) (line.drop authExternal.length) := by
      unfold answer
      rw [if_neg hanonymous, if_pos hexternal]
    have htoken : authenticates cfg line = (decide (line.drop authExternal.length ≠ []) &&
        cfg.verifyExternalToken (line.drop authExternal.length)) := by
      unfold authenticates
      rw [if_neg hanonymous]
      dsimp only
      rw [hexternal, Bool.true_and]
    rw [hanswer, htoken, (chooseMechanism_spec _ _).2, Bool.and_eq_true, decide_eq_true_eq]
    exact ⟨(chooseMechanism_spec _ _).1, fun h _ => h, fun h => h (lineBegins_auth (.inr hexternal))⟩
  by_cases hother : lineBegins line (ascii "AUTH") = true
  · have hanswer : answer cfg auth line = (auth, .rejectedMechanisms) := by
      unfold answer
      rw [if_neg hanonymous, if_neg hexternal, if_pos hother]
    have htoken : authenticates cfg line = false := by
      unfold authenticates
      rw [if_neg hanonymous]
      dsimp only
      rw [Bool.eq_false_iff.mpr hexternal, Bool.false_and, Bool.false_and]
    rw [hanswer, htoken]
    refine ⟨rfl, ⟨fun h => ?_, fun h => ?_⟩⟩
    · cases h
    · cases h hother
  by_cases hcancel : line = ascii "CANCEL" ∨ lineBegins line (ascii "ERROR") = true
  · have hanswer : answer cfg auth line = (.invalid, .rejected) := by
      unfold answer
      rw [if_neg hanonymous, if_neg hexternal, if_neg hother, if_pos hcancel]
    rw [hanswer] at hauth
    exact absurd rfl hauth
  -- the line is DATA, and the token in it was accepted
  have hdata : lineBegins line (ascii "DATA") = true := by
    rw [not_or] at hcancel
    simpa [asks, hother, hcancel.1, hcancel.2] using h
  have hbegin : line ≠ ascii "BEGIN" := by
    rintro rfl
    exact absurd hdata (by decide)
  have hok : (answer cfg auth line).2 = .ok := by
    unfold answer at hauth ⊢
    rw [if_neg hanonymous, if_neg hexternal, if_neg hother, if_neg hcancel, if_neg hbegin, if_pos hdata]
      at hauth ⊢
    by_cases hnone : auth = .invalid
    · rw [if_pos hnone] at hauth
      exact absurd hnone hauth
    rw [if_neg hnone] at hauth ⊢
    dsimp only at hauth ⊢
    generalize (if auth = .anonymous then cfg.verifyAnonymousToken (line.drop 4)
      else cfg.verifyExternalToken (line.drop 4)) = accepted at hauth ⊢
    cases accepted with
    | false => exact absurd rfl hauth
    | true => rfl
  rw [hok]
  exact ⟨rfl, fun _ h => absurd h hother, fun _ => rfl⟩

/-- Any other line leaves the mechanism as it is and gets no verdict. -/
theorem answer_other {auth : BusAuth} (h : asks line = false) :
    (answer cfg auth line).1 = auth ∧ (answer cfg auth line).2.isVerdict = false := by
  rw [asks, Bool.or_eq_false_iff, Bool.or_eq_false_iff, Bool.or_eq_false_iff, beq_eq_false_iff_ne] at h
  obtain ⟨⟨⟨hauth, hcancel⟩, herror⟩, hdata⟩ := h
  have hanonymous : ¬ lineBegins line authAnonymous = true := by
    intro h
    rw [lineBegins_auth (.inl h)] at hauth
    cases hauth
  have hexternal : ¬ lineBegins line authExternal = true := by
    intro h
    rw [lineBegins_auth (.inr h)] at hauth
    cases hauth
  unfold answer
  simp only [hanonymous, hexternal, hauth, hcancel, herror, hdata, if_false, or_self, Bool.false_eq_true]
  split
  · exact ⟨rfl, rfl⟩
  · split
    · refine ⟨rfl, ?_⟩
      split <;> rfl
    · exact ⟨rfl, rfl⟩

/-! ## Runs -/

/-- Where a mechanism is chosen, the last verdict is OK unless it was asked for by an AUTH line that does not
    authenticate. -/
structure Judged (cfg : AuthSettings) (b : ServerAuth) : Prop where
  verdict : b.auth ≠ .invalid → ∃ line, b.lastAsked = some line ∧
    (b.lastVerdict = some .ok ↔ (lineBegins line (ascii "AUTH") = true → authenticates cfg line = true))
  running : b.running = true → b.auth ≠ .invalid

theorem judged_start : Judged cfg start := ⟨fun h => absurd rfl h, fun h => by cases h⟩

/-- The buffers do not matter. -/
theorem Judged.withBuffers (h : Judged cfg b) (rbuffer pending : Bytes) (rbegin : Nat) :
    Judged cfg { b with rbuffer, pending, rbegin } := ⟨h.verdict, h.running⟩

theorem Judged.answerLine (h : Judged cfg b) (hrunning : b.running = false) (line : Bytes) (next : Nat) :
    Judged cfg (answerLine cfg b line next) ∧ (answerLine cfg b line next).running = false := by
  refine ⟨⟨?_, fun hrun => ?_⟩, hrunning⟩
  · intro hauth
    have hasked : (ServerAuth.answerLine cfg b line next).lastAsked =
        ((b.lines ++ [line]).filter asks).getLast? := rfl
    have hverdict : (ServerAuth.answerLine cfg b line next).lastVerdict =
        ((b.replies ++ [(answer cfg b.auth line).2]).filter AuthReply.isVerdict).getLast? := rfl
    rw [hasked, hverdict, filter_append, filter_append]
    cases hasks : asks line with
    | true =>
      obtain ⟨hreply, hok⟩ := answer_asks hasks hauth
      refine ⟨line, ?_, ?_⟩
      · rw [filter_cons_of_pos hasks, filter_nil, getLast?_concat]
      · rw [filter_cons_of_pos hreply, filter_nil, getLast?_concat, Option.some.injEq]
        exact hok
    | false =>
      obtain ⟨hsame, hreply⟩ := @answer_other cfg line b.auth hasks
      rw [filter_cons_of_neg (by simp [hasks]), filter_cons_of_neg (by simp [hreply]), filter_nil,
        filter_nil, append_nil, append_nil]
      exact h.verdict (hsame ▸ hauth)
  · have hrun : b.running = true := hrun
    rw [hrunning] at hrun
    cases hrun

theorem Judged.verifyLoop {n : Nat} {p : Bool} (h : Judged cfg b) (hrunning : b.running = false) :
    Judged cfg (verifyLoop cfg n b p).1 := by
  induction n generalizing b p with
  | zero => exact h
  | succ n ih =>
    rw [ServerAuth.verifyLoop]
    split
    · exact h
    · next l _ =>
      dsimp only
      split
      · next hbegin =>
        split
        · exact h
        · exact ⟨h.verdict, fun _ => hbegin.2⟩
      · obtain ⟨hnext, hnot⟩ := h.answerLine hrunning ((b.rbuffer.drop b.rbegin).take l) (b.rbegin + l + 2)
        exact ih hnext hnot

theorem Judged.authVerifyServer {r : Bool} (h : Judged cfg b) (hrunning : b.running = false)
    (hok : authVerifyServer cfg b = .ok (b', r)) : Judged cfg b' := by
  unfold ServerAuth.authVerifyServer at hok
  split at hok
  · cases hok
    exact h
  · split at hok
    · cases hok
    · split at hok
      · cases hok
        exact h
      · have hloop := Except.ok.inj hok
        have hmoved := h.withBuffers b.rbuffer b.pending (if b.rbegin = 0 then 1 else b.rbegin)
        have hjudged := hmoved.verifyLoop (n := b.rbuffer.length) (p := false) hrunning
        rw [hloop] at hjudged
        exact hjudged

/-- Without an answer the connection is not running. -/
theorem running_of_not_processed {n : Nat} {p : Bool} (hrunning : b.running = false)
    (h : (verifyLoop cfg n b p).2 = false) : (verifyLoop cfg n b p).1.running = false := by
  induction n generalizing b p with
  | zero => exact hrunning
  | succ n ih =>
    rw [ServerAuth.verifyLoop] at h ⊢
    split at h
    · exact hrunning
    · next l hline =>
      dsimp only at h ⊢
      split at h
      · split at h <;> cases h
      · next hbegin =>
        rw [if_neg hbegin]
        exact ih hrunning h

theorem running_authVerifyServer (hrunning : b.running = false)
    (hok : authVerifyServer cfg b = .ok (b', false)) : b'.running = false := by
  unfold ServerAuth.authVerifyServer at hok
  split at hok
  · cases hok
    exact hrunning
  · split at hok
    · cases hok
    · split at hok
      · cases hok
        exact hrunning
      · have hloop := Except.ok.inj hok
        have hnot := @running_of_not_processed cfg { b with rbegin := if b.rbegin = 0 then 1 else b.rbegin }
          b.rbuffer.length false hrunning (by rw [hloop])
        rw [hloop] at hnot
        exact hnot

theorem Judged.step {e : AuthEvent} (h : Judged cfg b) (hstep : AuthStep cfg b e b') : Judged cfg b' := by
  obtain ⟨hrunning, hstep⟩ := hstep
  cases e with
  | write k =>
    dsimp only at hstep
    unfold writeAuth at hstep
    split at hstep
    · cases hstep
      exact h
    · split at hstep
      · cases hstep
      · next hok =>
        cases hstep
        exact (h.withBuffers b.rbuffer (b.pending.drop k) b.rbegin).authVerifyServer hrunning hok
  | read chunk fds =>
    dsimp only at hstep
    unfold readAuth at hstep
    split at hstep
    · cases hstep
    · next hok =>
      cases hstep
      exact h.authVerifyServer hrunning hok
    · next b₁ hok =>
      dsimp only at hstep
      split at hstep
      · cases hstep
      split at hstep
      · cases hstep
      split at hstep
      · cases hstep
      split at hstep
      · cases hstep
      · next hok' =>
        cases hstep
        have h₁ := h.authVerifyServer hrunning hok
        have hread := h₁.withBuffers
          (b₁.rbuffer ++ chunk.take (authBufferSize b₁.rbuffer - b₁.rbuffer.length)) b₁.pending b₁.rbegin
        have hrunning₁ : b₁.running = false := running_authVerifyServer hrunning hok
        exact hread.authVerifyServer hrunning₁ hok'

/-- In every run, a client that gets to the running state was told OK last if and only if the last line
    that asked for a verdict is not an AUTH line which brings no token or is refused. -/
theorem authServer_running_iff (cfg : AuthSettings) {events : List AuthEvent} {b : ServerAuth}
    (hrun : Run (AuthStep cfg) start events b) :
    (b.running = true → b.lastVerdict = some .ok) ↔
      (b.running = true → ∀ line, b.lastAsked = some line →
        lineBegins line (ascii "AUTH") = true → authenticates cfg line = true) := by
  have hjudged : Judged cfg b := hrun.invariant judged_start fun h hstep => h.step hstep
  constructor
  · intro h hrunning line hline
    obtain ⟨line', hline', hok⟩ := hjudged.verdict (hjudged.running hrunning)
    rw [hline] at hline'
    cases hline'
    exact hok.mp (h hrunning)
  · intro h hrunning
    obtain ⟨line, hline, hok⟩ := hjudged.verdict (hjudged.running hrunning)
    exact hok.mpr (h hrunning line hline)

end Proofs

/-- A server that expects the uid 1000, and a client that says something and has read the answer. -/
def sampleSettings : AuthSettings := ⟨false, false, some 1000, ascii "0123456789abcdef0123456789abcdef"⟩

def asked (said : Bytes) (lines : List Bytes) (replies : List AuthReply) (pending : Bytes) : ServerAuth :=
  ⟨said, said.length, .external, false, pending, false, lines, replies⟩

/-- The uid is sent, and BEGIN after the answer was written. -/
theorem authServer_running_external :
    ∃ b, Run (AuthStep sampleSettings) start
        [.read (ascii "\x00AUTH EXTERNAL 31303030\r\n") false, .write 37, .read (ascii "BEGIN\r\n") false] b ∧
      b.running = true ∧ b.lastVerdict = some .ok := by
  have hrun : Run (AuthStep sampleSettings) start
      [.read (ascii "\x00AUTH EXTERNAL 31303030\r\n") false, .write 37, .read (ascii "BEGIN\r\n") false]
      { asked [] [ascii "AUTH EXTERNAL 31303030"] [.ok] [] with rbegin := 25, running := true } := by
    have hask : AuthStep sampleSettings start (.read (ascii "\x00AUTH EXTERNAL 31303030\r\n") false)
        (asked (ascii "\x00AUTH EXTERNAL 31303030\r\n") [ascii "AUTH EXTERNAL 31303030"] [.ok]
          (AuthReply.ok.text sampleSettings)) := ⟨rfl, rfl⟩
    have hanswer : AuthStep sampleSettings
        (asked (ascii "\x00AUTH EXTERNAL 31303030\r\n") [ascii "AUTH EXTERNAL 31303030"] [.ok]
          (AuthReply.ok.text sampleSettings)) (.write 37)
        (asked (ascii "\x00AUTH EXTERNAL 31303030\r\n") [ascii "AUTH EXTERNAL 31303030"] [.ok] []) :=
      ⟨rfl, rfl⟩
    exact .cons hask (.cons hanswer (.single ⟨rfl, rfl⟩))
  refine ⟨_, hrun, rfl, (authServer_running_iff sampleSettings hrun).mpr ?_ rfl⟩
  intro _ line hline
  cases hline
  intro _
  decide

/-- A mechanism is chosen without a token, then a wrong uid is refused; BEGIN is accepted all the same. -/
theorem authServer_running_rejected :
    ∃ b, Run (AuthStep sampleSettings) start
        [.read (ascii "\x00AUTH EXTERNAL\r\nAUTH EXTERNAL 30\r\n") false, .write 16,
          .read (ascii "BEGIN\r\n") false] b ∧
      b.running = true ∧ b.lastVerdict = some .rejected := by
  refine ⟨{ asked [] [authExternal, ascii "AUTH EXTERNAL 30"] [.data, .rejected] [] with
    rbegin := 34, running := true }, ?_, rfl, rfl⟩
  have hask : AuthStep sampleSettings start (.read (ascii "\x00AUTH EXTERNAL\r\nAUTH EXTERNAL 30\r\n") false)
      (asked (ascii "\x00AUTH EXTERNAL\r\nAUTH EXTERNAL 30\r\n") [authExternal, ascii "AUTH EXTERNAL 30"]
        [.data, .rejected] (ascii "DATA\r\nREJECTED\r\n")) := ⟨rfl, rfl⟩
  have hanswer : AuthStep sampleSettings
      (asked (ascii "\x00AUTH EXTERNAL\r\nAUTH EXTERNAL 30\r\n") [authExternal, ascii "AUTH EXTERNAL 30"]
        [.data, .rejected] (ascii "DATA\r\nREJECTED\r\n")) (.write 16)
      (asked (ascii "\x00AUTH EXTERNAL\r\nAUTH EXTERNAL 30\r\n") [authExternal, ascii "AUTH EXTERNAL 30"]
        [.data, .rejected] []) := ⟨rfl, rfl⟩
  exact .cons hask (.cons hanswer (.single ⟨rfl, rfl⟩))

end ServerAuth

end Elogind
