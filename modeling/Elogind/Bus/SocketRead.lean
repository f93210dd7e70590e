/-
  Elogind.Bus.SocketRead

  Messages that come in on a bus connection (bus-socket.c).  The stream of bytes is cut into frames
  by the sizes that their headers declare.

  A descriptor is the open file that it stands for, so that it stays the same one when
  `fd_move_above_stdio` gives it another number.  What was received, handed to
  `bus_message_from_malloc` and closed so far is part of the state, although the code does not
  remember it.
-/

import Elogind.Bus.BadMessage

namespace Elogind

open BusType Lib List

/-- `BUS_MESSAGE_SIZE_MAX` -/
def busMessageSizeMax : Nat := 128 * 1024 * 1024

/-- `BUS_RQUEUE_MAX` -/
def busRqueueMax : Nat := 384 * 1024

/-- `bus_socket_read_message_need`; a message has at least eight bytes behind its header. -/
def readMessageNeed (rbuffer : Bytes) : Result Nat :=
  if rbuffer.length < 16 then .ok (16 + 8)
  else
    let need (e : Endian) : Result Nat :=
      let a := e.value ((rbuffer.drop 4).take 4)
      let b := e.value ((rbuffer.drop 12).take 4)
      let sum := 16 + alignTo b 8 + a
      if sum ≥ busMessageSizeMax then .error Errno.ENOBUFS else .ok sum
    if rbuffer.headD 0 = Endian.little.code then need .little
    else if rbuffer.headD 0 = Endian.big.code then need .big
    else .error Errno.EBADMSG

/-- What a connection has read. -/
structure BusInput where
  rbuffer : Bytes
  fds : List Int
  canFds : Bool
  rqueue : List BusMessage
  /-- Messages that were taken from the queue and not freed yet. -/
  handedOut : List BusMessage
  /-- The error of the header that could not be read. -/
  stopped : Option Errno
  /-- Everything that was received, that in the buffer after the authentication included. -/
  received : Bytes
  /-- All descriptors that were received. -/
  receivedFds : List Int
  /-- The descriptors that were closed. -/
  closed : List Int
  /-- The frames that were handed to `bus_message_from_malloc`, with their descriptors. -/
  frames : List (Bytes × List Int)
  deriving DecidableEq, Repr

/-- What the socket answers when it is read: that there is nothing yet, an error (descriptors are closed
    by `recvmsg_safe`), or bytes, of which as many are taken as there is room for. -/
inductive SocketAnswer where
  | again
  | failed (e : Errno) (fds : List Int)
  | data (chunk : Bytes) (fds : List Int)
  deriving DecidableEq, Repr

namespace BusInput

/-- A connection after the authentication, which left some bytes in the buffer. -/
def start (rbuffer : Bytes) (canFds : Bool) : BusInput :=
  ⟨rbuffer, [], canFds, [], [], none, rbuffer, [], [], []⟩

/-- `bus_socket_make_message` -/
def makeMessage (b : BusInput) (size : Nat) : BusInput × Result Bool :=
  if b.rqueue.length ≥ busRqueueMax then (b, .error Errno.ENOBUFS)
  else
    let frame := b.rbuffer.take size
    let r := BusMessage.fromMalloc frame b.fds
    let b := { b with frames := b.frames ++ [(frame, b.fds)] }
    match r with
    | .ok t => ({ b with rbuffer := b.rbuffer.drop size, fds := [], rqueue := b.rqueue ++ [t] }, .ok true)
    | .error e =>
      -- the frame is dropped, and the descriptors with it
      if e = Errno.EBADMSG then ({ b with rbuffer := b.rbuffer.drop size, fds := [] }, .ok true)
      else (b, .error e)

/-- A message is made if the buffer has one, else `go` is called. -/
def needOr (b : BusInput) (go : Nat → BusInput × Result Bool) : BusInput × Result Bool :=
  match readMessageNeed b.rbuffer with
  | .error e => ({ b with stopped := some e }, .error e)
  | .ok need => if need ≤ b.rbuffer.length then b.makeMessage need else go need

/-- `bus_socket_read_message` -/
def readMessage (b : BusInput) (answer : SocketAnswer) : BusInput × Result Bool :=
  b.needOr fun need =>
    match answer with
    | .again => (b, .ok false)
    | .failed e fds => ({ b with receivedFds := b.receivedFds ++ fds, closed := b.closed ++ fds }, .error e)
    | .data chunk fds =>
      let chunk := chunk.take (need - b.rbuffer.length)
      let b := { b with receivedFds := b.receivedFds ++ fds }
      -- the end of the stream
      if chunk = [] then ({ b with closed := b.closed ++ fds }, .error Errno.ECONNRESET)
      else
        let b := { b with rbuffer := b.rbuffer ++ chunk, received := b.received ++ chunk }
        -- bus_process_cmsg
        if !b.canFds && fds ≠ [] then ({ b with closed := b.closed ++ fds }, .error Errno.EIO)
        else
          let b := { b with fds := b.fds ++ fds }
          b.needOr fun _ => (b, .ok true)

/-- What happens on a connection. -/
inductive InputEvent where
  | read (answer : SocketAnswer)
  /-- The first message of the queue is handed out. -/
  | dispatch
  /-- The last reference to a message that was handed out is dropped. -/
  | unref (n : Nat)
  /-- The connection is freed. -/
  | free
  deriving DecidableEq, Repr

def step (b : BusInput) : InputEvent → BusInput
  | .read answer => (b.readMessage answer).1
  | .dispatch => { b with rqueue := b.rqueue.drop 1, handedOut := b.handedOut ++ b.rqueue.take 1 }
  | .unref n =>
    { b with
      handedOut := b.handedOut.eraseIdx n
      closed := b.closed ++ (b.handedOut[n]?.toList.flatMap BusMessage.fds) }
  | .free =>
    { b with fds := [], rqueue := [], closed := b.closed ++ b.fds ++ b.rqueue.flatMap BusMessage.fds }

/-- The steps of a run. -/
def Step (b : BusInput) (e : InputEvent) (b' : BusInput) : Prop := b' = b.step e

end BusInput

/-! ## The frames of a stream -/

/-- The frames at the start of a stream, cut by the sizes that their headers declare, and the error of the
    header behind them. -/
def cutFrames : Nat → Bytes → List Bytes × Option Errno
  | 0, _ => ([], none)
  | fuel + 1, s =>
    if s.length < 16 then ([], none)
    else
      match readMessageNeed s with
      | .error e => ([], some e)
      | .ok n =>
        if s.length < n then ([], none)
        else (s.take n :: (cutFrames fuel (s.drop n)).1, (cutFrames fuel (s.drop n)).2)

/-- Every frame has at least a header, so that there are not more of them than bytes. -/
def streamFrames (s : Bytes) : List Bytes × Option Errno := cutFrames s.length s

/-- A frame is as long as its header says. -/
def IsFrame (f : Bytes) : Prop := 16 ≤ f.length ∧ readMessageNeed f = .ok f.length

section Frames

variable {s t f : Bytes} {n : Nat}

/-- Only the header is looked at. -/
theorem readMessageNeed_append (h : 16 ≤ s.length) (t : Bytes) : readMessageNeed (s ++ t) = readMessageNeed s := by
  have hhead : (s ++ t).headD 0 = s.headD 0 := by
    cases s with
    | nil => exact absurd h (by decide)
    | cons c s => rfl
  have htake : ∀ i, i + 4 ≤ 16 → ((s ++ t).drop i).take 4 = (s.drop i).take 4 := by
    intro i hi
    rw [drop_append_of_le_length (by omega), take_append_of_le_length]
    rw [length_drop]
    omega
  have hlen : ¬ (s ++ t).length < 16 := by
    rw [length_append]
    omega
  unfold readMessageNeed
  rw [if_neg hlen, if_neg (Nat.not_lt.mpr h), hhead, htake 4 (by decide), htake 12 (by decide)]

/-- A frame has a whole header. -/
theorem readMessageNeed_ge (h : readMessageNeed s = .ok n) : 16 ≤ n := by
  unfold readMessageNeed at h
  split at h
  · cases h
    decide
  · dsimp only at h
    split at h
    · split at h
      · cases h
      · cases h
        omega
    · split at h
      · split at h
        · cases h
        · cases h
          omega
      · cases h

/-- The frame at the start of a buffer. -/
theorem isFrame_take (hneed : readMessageNeed s = .ok n) (hle : n ≤ s.length) :
    IsFrame (s.take n) := by
  have hlen : (s.take n).length = n := by
    rw [length_take]
    omega
  have hge := readMessageNeed_ge hneed
  have hsame := readMessageNeed_append (s := s.take n) (by omega) (s.drop n)
  rw [take_append_drop, hneed] at hsame
  exact ⟨by omega, by rw [← hsame, hlen]⟩

theorem cutFrames_fuel {fuel : Nat} (h : s.length ≤ fuel) : cutFrames fuel s = streamFrames s := by
  unfold streamFrames
  induction fuel using Nat.strongRecOn generalizing s with
  | ind fuel ih =>
    cases fuel with
    | zero =>
      rw [length_eq_zero_iff.mp (Nat.le_zero.mp h)]
      rfl
    | succ fuel =>
      cases hs : s.length with
      | zero =>
        rw [length_eq_zero_iff.mp hs]
        rfl
      | succ k =>
        rw [cutFrames, cutFrames]
        split
        · rfl
        · split
          · rfl
          · next n hneed =>
            split
            · rfl
            · have hge := readMessageNeed_ge hneed
              have hlen : (s.drop n).length ≤ k := by
                rw [length_drop]
                omega
              rw [ih fuel (Nat.lt_succ_self _) (show (s.drop n).length ≤ fuel by omega),
                ih k (by omega) hlen]

/-- A frame, and the frames of what follows it. -/
theorem streamFrames_append (hf : IsFrame f) (s : Bytes) :
    streamFrames (f ++ s) = (f :: (streamFrames s).1, (streamFrames s).2) := by
  obtain ⟨hge, hneed⟩ := hf
  have hneed' := readMessageNeed_append hge s
  rw [hneed] at hneed'
  obtain ⟨k, hk⟩ : ∃ k, (f ++ s).length = k + 1 := by
    rw [length_append]
    exact ⟨f.length + s.length - 1, by omega⟩
  have hfuel : s.length ≤ k := by
    rw [length_append] at hk
    omega
  rw [streamFrames, hk, cutFrames, if_neg (by rw [length_append]; omega), hneed']
  dsimp only
  rw [if_neg (by rw [length_append]; omega), take_left, drop_left, cutFrames_fuel hfuel]

theorem streamFrames_flatten {fs : List Bytes} (hfs : ∀ f ∈ fs, IsFrame f) (s : Bytes) :
    streamFrames (fs.flatten ++ s) = (fs ++ (streamFrames s).1, (streamFrames s).2) := by
  induction fs with
  | nil => rfl
  | cons f fs ih =>
    rw [flatten_cons, append_assoc, streamFrames_append (hfs f (mem_cons_self ..)),
      ih fun g hg => hfs g (mem_cons_of_mem f hg)]
    rfl

/-- What stands at the start of a stream. -/
theorem streamFrames_cases (s : Bytes) :
    (streamFrames s = ([], none) ∧ (s.length < 16 ∨ ∃ n, readMessageNeed s = .ok n ∧ s.length < n)) ∨
    (∃ e, streamFrames s = ([], some e) ∧ 16 ≤ s.length ∧ readMessageNeed s = .error e) ∨
    (∃ f t, s = f ++ t ∧ IsFrame f ∧ streamFrames s = (f :: (streamFrames t).1, (streamFrames t).2)) := by
  by_cases hlt : s.length < 16
  · refine .inl ⟨?_, .inl hlt⟩
    unfold streamFrames
    cases s.length with
    | zero => rfl
    | succ k => rw [cutFrames, if_pos hlt]
  obtain ⟨k, hk⟩ : ∃ k, s.length = k + 1 := ⟨s.length - 1, by omega⟩
  cases hneed : readMessageNeed s with
  | error e =>
    refine .inr (.inl ⟨e, ?_, by omega, rfl⟩)
    rw [streamFrames, hk, cutFrames, if_neg hlt, hneed]
  | ok n =>
    by_cases hle : s.length < n
    · refine .inl ⟨?_, .inr ⟨n, rfl, hle⟩⟩
      rw [streamFrames, hk, cutFrames, if_neg hlt, hneed]
      dsimp only
      rw [if_pos hle]
    · have hframe := isFrame_take hneed (by omega)
      refine .inr (.inr ⟨s.take n, s.drop n, (take_append_drop n s).symm, hframe, ?_⟩)
      have happend := streamFrames_append hframe (s.drop n)
      rwa [take_append_drop] at happend

/-- More bytes only bring more frames, and behind a header that cannot be read there are none. -/
theorem streamFrames_mono (s t : Bytes) :
    (streamFrames s).1 <+: (streamFrames (s ++ t)).1 ∧
      ∀ e, (streamFrames s).2 = some e → streamFrames (s ++ t) = streamFrames s := by
  generalize hn : s.length = n
  induction n using Nat.strongRecOn generalizing s with
  | ind n ih =>
    rcases streamFrames_cases s with ⟨h, -⟩ | ⟨e, h, hge, hneed⟩ | ⟨f, r, rfl, hf, h⟩
    · rw [h]
      exact ⟨List.nil_prefix, fun e he => by cases he⟩
    · have hsame : streamFrames (s ++ t) = ([], some e) := by
        have hneed' := readMessageNeed_append hge t
        rw [hneed] at hneed'
        obtain ⟨k, hk⟩ : ∃ k, (s ++ t).length = k + 1 := by
          rw [length_append]
          exact ⟨s.length + t.length - 1, by omega⟩
        rw [streamFrames, hk, cutFrames, if_neg (by rw [length_append]; omega), hneed']
      rw [h, hsame]
      exact ⟨List.nil_prefix, fun _ _ => rfl⟩
    · have hlt : r.length < n := by
        rw [← hn, length_append]
        have := hf.1
        omega
      obtain ⟨hframes, hstop⟩ := ih r.length hlt r rfl
      rw [h, append_assoc, streamFrames_append hf]
      refine ⟨cons_prefix_cons.mpr ⟨rfl, hframes⟩, fun e he => ?_⟩
      rw [hstop e he]

end Frames

/-! ## What a read does -/

namespace BusInput

section Reads

variable {b : BusInput} {n : Nat} {go : Nat → BusInput × Result Bool} {I : BusInput → Prop}

/-- The state after a frame was handed over, without the message that may have come of it. -/
def cut (b : BusInput) (n : Nat) : BusInput :=
  { b with rbuffer := b.rbuffer.drop n, fds := [], frames := b.frames ++ [(b.rbuffer.take n, b.fds)] }

/-- A frame waits for room in the queue, or it is handed over and becomes a message or is dropped. -/
theorem makeMessage_cases (b : BusInput) (n : Nat) :
    (busRqueueMax ≤ b.rqueue.length ∧ b.makeMessage n = (b, .error Errno.ENOBUFS)) ∨
    (∃ t, BusMessage.fromMalloc (b.rbuffer.take n) b.fds = .ok t ∧
      b.makeMessage n = ({ b.cut n with rqueue := b.rqueue ++ [t] }, .ok true)) ∨
    (BusMessage.fromMalloc (b.rbuffer.take n) b.fds = .error Errno.EBADMSG ∧
      b.makeMessage n = (b.cut n, .ok true)) := by
  unfold makeMessage
  by_cases hfull : b.rqueue.length ≥ busRqueueMax
  · rw [if_pos hfull]
    exact .inl ⟨hfull, rfl⟩
  rw [if_neg hfull]
  have hbad := BusMessage.fromMalloc_bad (b.rbuffer.take n) b.fds
  dsimp only
  cases hr : BusMessage.fromMalloc (b.rbuffer.take n) b.fds with
  | ok t => exact .inr (.inl ⟨t, rfl, rfl⟩)
  | error e =>
    obtain rfl := hbad e hr
    exact .inr (.inr ⟨rfl, rfl⟩)

/-- A complete frame is handed over if there is room. -/
theorem makeMessage_frames (hroom : b.rqueue.length < busRqueueMax) :
    (b.makeMessage n).1.frames = b.frames ++ [(b.rbuffer.take n, b.fds)] := by
  rcases makeMessage_cases b n with ⟨hfull, -⟩ | ⟨t, -, h⟩ | ⟨-, h⟩
  · omega
  · rw [h]
    rfl
  · rw [h]
    rfl

/-- What holds after each of the three ways in which the buffer is looked at. -/
theorem needOr_cases (hstop : ∀ e, readMessageNeed b.rbuffer = .error e → I { b with stopped := some e })
    (hmake : ∀ n, readMessageNeed b.rbuffer = .ok n → n ≤ b.rbuffer.length → I (b.makeMessage n).1)
    (hgo : ∀ n, readMessageNeed b.rbuffer = .ok n → b.rbuffer.length < n → I (go n).1) :
    I (b.needOr go).1 := by
  unfold needOr
  split
  · next e hneed => exact hstop e hneed
  · next n hneed =>
    split
    · next hle => exact hmake n hneed hle
    · next hlt => exact hgo n hneed (Nat.lt_of_not_le hlt)

/-- A property that is kept when a header is refused, when a frame is made, when descriptors are closed and
    when bytes come in is kept by a read. -/
theorem readMessage_cases (hI : I b)
    (hstop : ∀ {b : BusInput} {e : Errno}, I b → readMessageNeed b.rbuffer = .error e → I { b with stopped := some e })
    (hmake : ∀ {b : BusInput} {n : Nat}, I b → readMessageNeed b.rbuffer = .ok n → n ≤ b.rbuffer.length →
      I (b.makeMessage n).1)
    (hclose : ∀ {b : BusInput} (fds : List Int), I b →
      I { b with receivedFds := b.receivedFds ++ fds, closed := b.closed ++ fds })
    (hdata : ∀ {b : BusInput} {n : Nat} (chunk : Bytes), I b → readMessageNeed b.rbuffer = .ok n →
      I { b with rbuffer := b.rbuffer ++ chunk, received := b.received ++ chunk })
    (hfds : ∀ {b : BusInput} (fds : List Int), I b →
      I { b with receivedFds := b.receivedFds ++ fds, fds := b.fds ++ fds })
    (answer : SocketAnswer) : I (b.readMessage answer).1 := by
  refine needOr_cases (fun e => hstop hI) (fun n => hmake hI) ?_
  intro n hneed _
  cases answer with
  | again => exact hI
  | failed e fds => exact hclose fds hI
  | data chunk fds =>
    dsimp only
    split
    · exact hclose fds hI
    split
    · exact hdata _ (hclose fds hI) hneed
    · have hI' := hdata (chunk.take (n - b.rbuffer.length)) (hfds fds hI) hneed
      refine needOr_cases (fun e => hstop hI') (fun n => hmake hI') ?_
      intro n _ _
      exact hI'

end Reads

/-! ## The frames that are handed over -/

/-- Everything that was received is in the frames that were handed over and in the buffer. -/
structure Framed (b : BusInput) : Prop where
  received : b.received = (b.frames.map Prod.fst).flatten ++ b.rbuffer
  isFrame : ∀ f ∈ b.frames.map Prod.fst, IsFrame f
  stopped : ∀ e, b.stopped = some e → readMessageNeed b.rbuffer = .error e

section Framed

variable {b : BusInput} {n : Nat}

theorem framed_start (rbuffer : Bytes) (canFds : Bool) : Framed (start rbuffer canFds) :=
  ⟨rfl, fun f hf => absurd hf not_mem_nil, fun e he => by cases he⟩

theorem Framed.cut (h : Framed b) (hneed : readMessageNeed b.rbuffer = .ok n) (hle : n ≤ b.rbuffer.length) :
    Framed (b.cut n) := by
  refine ⟨?_, ?_, ?_⟩
  · change b.received = ((b.frames ++ [(b.rbuffer.take n, b.fds)]).map Prod.fst).flatten ++ b.rbuffer.drop n
    rw [h.received, map_append, flatten_append, append_assoc]
    change _ = _ ++ ([b.rbuffer.take n].flatten ++ b.rbuffer.drop n)
    rw [flatten_singleton, take_append_drop]
  · intro f hf
    change f ∈ (b.frames ++ [(b.rbuffer.take n, b.fds)]).map Prod.fst at hf
    rw [map_append, mem_append] at hf
    rcases hf with hf | hf
    · exact h.isFrame f hf
    · obtain rfl := mem_singleton.mp hf
      exact isFrame_take hneed hle
  · intro e he
    have hsame := h.stopped e he
    rw [hneed] at hsame
    cases hsame

theorem Framed.makeMessage (h : Framed b) (hneed : readMessageNeed b.rbuffer = .ok n)
    (hle : n ≤ b.rbuffer.length) : Framed (b.makeMessage n).1 := by
  have hcut := h.cut hneed hle
  rcases makeMessage_cases b n with ⟨-, hr⟩ | ⟨t, -, hr⟩ | ⟨-, hr⟩
  · rw [hr]
    exact h
  · rw [hr]
    exact ⟨hcut.received, hcut.isFrame, hcut.stopped⟩
  · rw [hr]
    exact hcut

theorem Framed.step (h : Framed b) (e : InputEvent) : Framed (b.step e) := by
  cases e with
  | read answer =>
    refine readMessage_cases h ?_ (fun h => h.makeMessage) ?_ ?_ ?_ answer
    · intro b e h hneed
      refine ⟨h.received, h.isFrame, fun e' he => ?_⟩
      cases he
      exact hneed
    · intro b fds h
      exact ⟨h.received, h.isFrame, h.stopped⟩
    · intro b n chunk h hneed
      refine ⟨?_, h.isFrame, fun e he => ?_⟩
      · rw [h.received, append_assoc]
      · have hsame := h.stopped e he
        rw [hneed] at hsame
        cases hsame
    · intro b fds h
      exact ⟨h.received, h.isFrame, h.stopped⟩
  | dispatch | unref n | free => exact ⟨h.received, h.isFrame, h.stopped⟩

/-- What was received, cut into frames. -/
theorem Framed.streamFrames_received (h : Framed b) (t : Bytes) :
    streamFrames (b.received ++ t) =
      (b.frames.map Prod.fst ++ (streamFrames (b.rbuffer ++ t)).1, (streamFrames (b.rbuffer ++ t)).2) := by
  rw [h.received, append_assoc, streamFrames_flatten h.isFrame]

/-- No whole frame is in the buffer. -/
def Drained (b : BusInput) : Prop := ∀ n, readMessageNeed b.rbuffer = .ok n → b.rbuffer.length < n

theorem Drained.streamFrames_rbuffer (h : Drained b) : (streamFrames b.rbuffer).1 = [] := by
  rcases streamFrames_cases b.rbuffer with ⟨hs, -⟩ | ⟨e, hs, -⟩ | ⟨f, t, hs, hf, -⟩
  · rw [hs]
  · rw [hs]
  · have hneed := readMessageNeed_append hf.1 t
    rw [← hs, hf.2] at hneed
    have hlt := h f.length hneed
    rw [hs, length_append] at hlt
    omega

/-- Reads are refused exactly because of a header that cannot be read. -/
theorem readMessage_stop_iff {e : Errno} (hd : Drained b) :
    (∀ answer, b.readMessage answer = ({ b with stopped := some e }, .error e)) ↔
      readMessageNeed b.rbuffer = .error e := by
  constructor
  · intro h
    have hagain := h .again
    rw [readMessage, needOr] at hagain
    cases hneed : readMessageNeed b.rbuffer with
    | error e' =>
      rw [hneed] at hagain
      exact congrArg Except.error (Except.error.inj (congrArg Prod.snd hagain))
    | ok n =>
      have hlt := hd n hneed
      rw [hneed] at hagain
      dsimp only at hagain
      rw [if_neg (by omega)] at hagain
      cases congrArg Prod.snd hagain
  · intro hneed answer
    rw [readMessage, needOr, hneed]

theorem readMessage_stop {e : Errno} (hd : Drained b) (hstop : (streamFrames b.rbuffer).2 = some e) :
    ∀ answer, b.readMessage answer = ({ b with stopped := some e }, .error e) := by
  have hnil := hd.streamFrames_rbuffer
  rcases streamFrames_cases b.rbuffer with ⟨hs, -⟩ | ⟨e', hs, -, hneed⟩ | ⟨f, t, -, -, hs⟩
  · rw [hs] at hstop
    cases hstop
  · rw [hs] at hstop
    cases hstop
    exact (readMessage_stop_iff hd).mpr hneed
  · rw [hs] at hnil
    cases hnil

/-- How a connection has cut the stream that it reads from. -/
structure Segmented (stream : Bytes) (b : BusInput) : Prop where
  /-- The frames that were handed over are the first ones of the stream. -/
  handed : b.frames.map Prod.fst <+: (streamFrames stream).1
  /-- A frame takes up its own bytes, also if it is dropped. -/
  taken : b.received = (b.frames.map Prod.fst).flatten ++ b.rbuffer
  /-- The error is that of the header behind the frames. -/
  stopped : ∀ e, b.stopped = some e → streamFrames stream = (b.frames.map Prod.fst, some e)
  /-- A whole frame in the buffer is handed over by the next read. -/
  next : ∀ n answer, readMessageNeed b.rbuffer = .ok n → n ≤ b.rbuffer.length →
    b.rqueue.length < busRqueueMax →
    (b.readMessage answer).1.frames = b.frames ++ [(b.rbuffer.take n, b.fds)]
  /-- If there is no room for its message, it stays. -/
  waits : ∀ n answer, readMessageNeed b.rbuffer = .ok n → n ≤ b.rbuffer.length →
    busRqueueMax ≤ b.rqueue.length → b.readMessage answer = (b, .error Errno.ENOBUFS)
  /-- No frame is left out. -/
  complete : b.received = stream → b.Drained → b.frames.map Prod.fst = (streamFrames stream).1 ∧
    ∀ e, (streamFrames stream).2 = some e →
      ∀ answer, b.readMessage answer = ({ b with stopped := some e }, .error e)

theorem Framed.segmented (h : Framed b) {stream : Bytes} (hinitial : b.received <+: stream) :
    Segmented stream b := by
  obtain ⟨t, rfl⟩ := hinitial
  have hframes := h.streamFrames_received t
  refine ⟨?_, h.received, ?_, ?_, ?_, ?_⟩
  · rw [hframes]
    exact prefix_append _ _
  · intro e he
    have hneed := h.stopped e he
    have hge : 16 ≤ b.rbuffer.length := by
      by_contra hlt
      rw [readMessageNeed, if_pos (by omega)] at hneed
      cases hneed
    have hstop : streamFrames b.rbuffer = ([], some e) := by
      rcases streamFrames_cases b.rbuffer with ⟨-, hlt | ⟨n, hok, -⟩⟩ | ⟨e', hs, -, herror⟩ | ⟨f, r, hs, hf, -⟩
      · omega
      · rw [hneed] at hok
        cases hok
      · rw [hneed] at herror
        cases herror
        exact hs
      · have hok := readMessageNeed_append hf.1 r
        rw [← hs, hneed, hf.2] at hok
        cases hok
    have hmore := (streamFrames_mono b.rbuffer t).2 e (by rw [hstop])
    rw [hframes, hmore, hstop, append_nil]
  · intro n answer hneed hle hroom
    rw [readMessage, needOr, hneed]
    dsimp only
    rw [if_pos hle]
    exact makeMessage_frames hroom
  · intro n answer hneed hle hfull
    rw [readMessage, needOr, hneed]
    dsimp only
    rw [if_pos hle, BusInput.makeMessage, if_pos hfull]
  · intro hall hd
    obtain rfl : t = [] := append_cancel_left (hall.symm.trans (append_nil _).symm)
    rw [append_nil] at hframes ⊢
    rw [append_nil] at hframes
    rw [hframes, hd.streamFrames_rbuffer, append_nil]
    exact ⟨rfl, fun e he => readMessage_stop hd he⟩

end Framed

/-- The state after some events. -/
def after (b : BusInput) (events : List InputEvent) : BusInput := events.foldl step b

theorem run_after (b : BusInput) (events : List InputEvent) : Run Step b events (b.after events) := by
  induction events generalizing b with
  | nil => exact .nil b
  | cons e events ih => exact .cons rfl (ih (b.step e))

/-- A frame without a type, and a header with neither of the two byte orders. -/
def sampleStream : Bytes := [108, 0, 0, 1, 0, 0, 0, 0, 1, 0, 0, 0, 0, 0, 0, 0] ++ List.replicate 16 0

end BusInput

/-! ## The descriptors -/

namespace BusMessage

theorem fds_advance (m : BusMessage) (n : Nat) : (m.advance n).fds = m.fds := by
  unfold advance
  dsimp only
  split
  · rfl
  · exact fds_setLastContainer ..

theorem fds_readErrorMessage (m : BusMessage) : m.readErrorMessage.fds = m.fds := by
  have hread : ∀ type, (m.readBasic type).1.fds = m.fds := by
    intro type
    unfold readBasic
    split
    · rfl
    split
    · rfl
    split
    · rfl
    split
    · rfl
    split
    · rfl
    split
    · rfl
    · exact fds_advance ..
  unfold readErrorMessage
  split
  · have hfds := hread string
    split
    · next h =>
      rw [h] at hfds
      exact hfds
    · next heq =>
      rw [heq] at hfds
      exact hfds
  · rfl

end BusMessage

/-- A message has the descriptors that were handed over with its frame. -/
theorem fds_fromMalloc {buffer : Bytes} {fds : List Int} {t : BusMessage}
    (h : BusMessage.fromMalloc buffer fds = .ok t) : t.fds = fds := by
  refine fromMalloc_invariant (P := fun m => m.fds = fds) (Q := fun m => m.fds = fds) ?_ (fun _ _ hm => hm) (fun _ _ hm => hm) ?_ ?_ h
  · intro m t f hm
    cases f <;> exact hm
  · intro m hm
    rw [BusMessage.fds_readErrorMessage, hm]
  · exact fun m hm _ => (fromHeader_eq_ok hm).1

namespace BusInput

/-- The frame is refused. -/
def Refused (p : Bytes × List Int) : Prop := BusMessage.fromMalloc p.1 p.2 = .error Errno.EBADMSG

instance (p : Bytes × List Int) : Decidable (Refused p) := by unfold Refused; infer_instance

/-- The descriptors that the connection has, those of its messages and those that were closed. -/
def places (b : BusInput) : List Int :=
  b.fds ++ (b.rqueue ++ b.handedOut).flatMap BusMessage.fds ++ b.closed

/-- The descriptors of the frames that were refused. -/
def lost (b : BusInput) : List Int := (b.frames.filter fun p => decide (Refused p)).flatMap Prod.snd

/-- Every descriptor is in its place or lost. -/
def Counted (b : BusInput) : Prop := b.receivedFds.Perm (b.places ++ b.lost)

section Counted

variable {b : BusInput} {n : Nat}

theorem counted_start (rbuffer : Bytes) (canFds : Bool) : Counted (start rbuffer canFds) := Perm.refl []

theorem lost_cut (b : BusInput) (n : Nat) :
    (b.cut n).lost = b.lost ++ if Refused (b.rbuffer.take n, b.fds) then b.fds else [] := by
  change ((b.frames ++ [(b.rbuffer.take n, b.fds)]).filter _).flatMap Prod.snd = _
  rw [filter_append, flatMap_append, filter_singleton]
  by_cases hrefused : Refused (b.rbuffer.take n, b.fds)
  · rw [decide_eq_true hrefused, if_pos hrefused]
    exact congrArg (b.lost ++ ·) (append_nil b.fds)
  · rw [decide_eq_false hrefused, if_neg hrefused]
    rfl

theorem Counted.makeMessage (h : Counted b) : Counted (b.makeMessage n).1 := by
  rcases makeMessage_cases b n with ⟨-, hr⟩ | ⟨t, ht, hr⟩ | ⟨hbad, hr⟩
  · rw [hr]
    exact h
  · rw [hr]
    have hkept : (b.cut n).lost = b.lost := by
      rw [lost_cut, if_neg, append_nil]
      intro hbad
      rw [Refused, ht] at hbad
      cases hbad
    change b.receivedFds.Perm (([] ++ (b.rqueue ++ [t] ++ b.handedOut).flatMap _ ++ b.closed) ++ (b.cut n).lost)
    refine h.trans (perm_iff_count.mpr fun fd => ?_)
    rw [hkept]
    simp only [places, flatMap_append, flatMap_singleton, fds_fromMalloc ht, count_append,
      count_nil]
    omega
  · rw [hr]
    change b.receivedFds.Perm (([] ++ (b.rqueue ++ b.handedOut).flatMap _ ++ b.closed) ++ (b.cut n).lost)
    refine h.trans (perm_iff_count.mpr fun fd => ?_)
    rw [lost_cut, if_pos (show Refused (b.rbuffer.take n, b.fds) from hbad)]
    simp only [places, count_append, count_nil]
    omega

theorem Counted.step (h : Counted b) (e : InputEvent) : Counted (b.step e) := by
  cases e with
  | read answer =>
    refine readMessage_cases h ?_ (fun h _ _ => h.makeMessage) ?_ ?_ ?_ answer
    · intro b e h _
      exact h
    · intro b fds h
      refine (h.append_right fds).trans (perm_iff_count.mpr fun fd => ?_)
      simp only [places, lost, count_append]
      omega
    · intro b n chunk h _
      exact h
    · intro b fds h
      refine (h.append_right fds).trans (perm_iff_count.mpr fun fd => ?_)
      simp only [places, lost, count_append]
      omega
  | dispatch =>
    refine h.trans (perm_iff_count.mpr fun fd => ?_)
    have hsplit : b.rqueue.flatMap BusMessage.fds =
        (b.rqueue.take 1).flatMap BusMessage.fds ++ (b.rqueue.drop 1).flatMap BusMessage.fds := by
      rw [← flatMap_append, take_append_drop]
    simp only [BusInput.step, places, lost, flatMap_append, hsplit, count_append]
    omega
  | unref n =>
    refine h.trans (perm_iff_count.mpr fun fd => ?_)
    have hsplit : (b.handedOut.flatMap BusMessage.fds).count fd =
        ((b.handedOut[n]?.toList.flatMap BusMessage.fds).count fd +
          ((b.handedOut.eraseIdx n).flatMap BusMessage.fds).count fd) := by
      by_cases hn : n < b.handedOut.length
      · have hperm := (getElem_cons_eraseIdx_perm hn).flatMap_right BusMessage.fds
        rw [← hperm.count_eq fd, flatMap_cons, count_append, getElem?_eq_getElem hn]
        simp only [Option.toList_some, flatMap_singleton]
      · rw [getElem?_eq_none (by omega), eraseIdx_of_length_le (by omega)]
        simp only [Option.toList_none, flatMap_nil, count_nil, Nat.zero_add]
    simp only [BusInput.step, places, lost, flatMap_append, hsplit, count_append]
    omega
  | free =>
    refine h.trans (perm_iff_count.mpr fun fd => ?_)
    simp only [BusInput.step, places, lost, flatMap_append, flatMap_nil, count_append,
      count_nil]
    omega

end Counted

/-- In every run, no descriptor that was received is lost if and only if none came with a frame that is
    refused. -/
theorem descriptors_kept_iff {rbuffer : Bytes} {canFds : Bool} {events : List InputEvent} {b : BusInput}
    (hrun : Run Step (start rbuffer canFds) events b) :
    b.receivedFds.Perm b.places ↔ ∀ p ∈ b.frames, Refused p → p.2 = [] := by
  have hcounted : Counted b := hrun.invariant (counted_start _ _) fun h hstep => hstep ▸ h.step _
  have hnone : b.lost = [] ↔ ∀ p ∈ b.frames, Refused p → p.2 = [] := by
    rw [lost, flatMap_eq_nil_iff]
    constructor
    · intro h p hp hrefused
      exact h p (mem_filter.mpr ⟨hp, decide_eq_true hrefused⟩)
    · intro h p hp
      obtain ⟨hmem, hrefused⟩ := mem_filter.mp hp
      exact h p hmem (of_decide_eq_true hrefused)
  rw [← hnone]
  constructor
  · intro h
    have hlen := (h.symm.trans hcounted).length_eq
    rw [length_append] at hlen
    exact length_eq_zero_iff.mp (by omega)
  · intro h
    rw [Counted, h, append_nil] at hcounted
    exact hcounted

/-- A frame without a type comes in with a descriptor. -/
theorem descriptors_lost :
    ∃ b, Run Step (start [] true) [.read (.data (sampleStream.take 16) [7])] b ∧
      b.receivedFds = [7] ∧ b.places = [] := by
  exact ⟨_, run_after _ _, by decide, by decide⟩

/-- The frame without a type is dropped before the descriptor comes. -/
theorem descriptors_kept_later :
    ((start [] true).after
      [.read (.data (sampleStream.take 16) []), .read (.data [108] [7])]).receivedFds.Perm
        ((start [] true).after
          [.read (.data (sampleStream.take 16) []), .read (.data [108] [7])]).places := by
  refine (descriptors_kept_iff (run_after (start [] true)
    [.read (.data (sampleStream.take 16) []), .read (.data [108] [7])])).mpr ?_
  decide

end BusInput

end Elogind
