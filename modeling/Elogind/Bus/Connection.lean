/-
  Elogind.Bus.Connection

  Both ends of a bus connection (sd-bus.c, bus-socket.c), and the messages on their way.
-/

import Elogind.Bus.SocketRead
import Elogind.Bus.SocketWrite

namespace Elogind

open Lib List BusMessage

/-- The reader cuts a message where the writer ended it. -/
theorem BusMessage.isFrame_blob {m : BusMessage} (hbody : m.bodySize = m.body.length)
    (hsize : m.blob.length < busMessageSizeMax) : IsFrame m.blob := by
  have halign : m.fields.length ≤ alignTo m.fields.length 8 := le_alignTo (by decide)
  have hlen : m.blob.length = 16 + alignTo m.fields.length 8 + m.bodySize := by
    simp only [blob, length_append, Endian.length_octets, length_zeros, length_cons, length_nil]
    omega
  rw [busMessageSizeMax] at hsize
  -- both lengths in the header fit their four octets
  have hbodyField : m.endian.value ((m.blob.drop 4).take 4) = m.bodySize := by
    simp [blob, m.endian.value_octets_of_lt (show m.bodySize < 256 ^ 4 by omega)]
  have hfieldsField : m.endian.value ((m.blob.drop 12).take 4) = m.fields.length := by
    simp [blob, drop_append, drop_eq_nil_of_le,
      m.endian.value_octets_of_lt (show m.fields.length < 256 ^ 4 by omega)]
  refine ⟨by omega, ?_⟩
  rw [readMessageNeed, if_neg (by omega), show m.blob.headD 0 = m.endian.code from rfl]
  dsimp only
  cases hendian : m.endian with
  | little =>
    rw [hendian] at hbodyField hfieldsField
    rw [if_pos rfl, hbodyField, hfieldsField, busMessageSizeMax, if_neg (by omega), hlen]
  | big =>
    rw [hendian] at hbodyField hfieldsField
    rw [if_neg (by decide), if_pos rfl, hbodyField, hfieldsField, busMessageSizeMax, if_neg (by omega), hlen]

theorem OutMessage.map_fst_wire (m : OutMessage) : m.wire.map Prod.fst = m.bytes := by
  rw [wire]
  cases m.bytes with
  | nil => rfl
  | cons c bytes => simp [attach, Function.comp_def]

namespace BusOutput

/-- The messages that are meant to be sent, in the order of the calls. -/
def texts (b : BusOutput) : List Bytes := (b.sent.filter fun m => !m.dontSend).map OutMessage.bytes

theorem map_fst_stream (b : BusOutput) : (stream b.sent).map Prod.fst = b.texts.flatten := by
  unfold stream texts
  rw [map_flatMap, ← flatMap_def]
  exact congrArg (flatMap · _) (funext OutMessage.map_fst_wire)

/-- However the socket cuts the stream, the other end hands over the messages that were sent, once each and in
    the order of the calls (`sent_of_run` says that `b.sent` are those of the successful ones), and refuses no
    header; when nothing waits at either end (`pending`, `BusInput.Drained`), it has all of them. -/
theorem frames_arrive {b : BusOutput} {i : BusInput} {outputFd : OutputFd} {acceptFd isMonitor canFds : Bool}
    {events : List OutputEvent} {events' : List BusInput.InputEvent} {rbuffer : Bytes}
    (hout : Run Step (start outputFd acceptFd isMonitor) events b)
    (hin : Run BusInput.Step (BusInput.start rbuffer canFds) events' i)
    (harrived : i.received <+: b.written.map Prod.fst)
    (hsent : ∀ m ∈ b.sent, ∃ t : BusMessage, m = t.toOut m.dontSend ∧ t.bodySize = t.body.length ∧
      t.blob.length < busMessageSizeMax) :
    i.frames.map Prod.fst <+: b.texts ∧ i.stopped = none ∧
      (b.state ≠ .closed → b.pending = [] → i.received = b.written.map Prod.fst → i.Drained →
        i.frames.map Prod.fst = b.texts) := by
  have hordered : InOrder b := hout.invariant (inOrder_start ..) fun h hstep => hstep ▸ h.step _
  have hframed : i.Framed := hin.invariant (BusInput.framed_start ..) fun h hstep => hstep ▸ h.step _
  obtain ⟨rest, hstream, hpending⟩ := hordered.rest
  have htexts : b.texts.flatten = b.written.map Prod.fst ++ rest.map Prod.fst := by
    rw [← map_fst_stream, hstream, map_append]
  have hframe : ∀ f ∈ b.texts, IsFrame f := by
    intro f hf
    obtain ⟨m, hm, rfl⟩ := mem_map.mp hf
    obtain ⟨t, ht, hbody, hsize⟩ := hsent m (mem_of_mem_filter hm)
    rw [ht, OutMessage.bytes, toOut, flatten_setupIovec]
    exact isFrame_blob hbody hsize
  have hframes : streamFrames b.texts.flatten = (b.texts, none) := by
    simpa [streamFrames, cutFrames] using streamFrames_flatten hframe []
  -- the frames are cut from the stream of all messages that are sent
  have h := hframed.segmented (harrived.trans ⟨_, htexts.symm⟩)
  have hhanded := h.handed
  rw [hframes] at hhanded
  refine ⟨hhanded, Option.eq_none_iff_forall_ne_some.mpr fun e he => ?_, fun hopen hnone hall hdrained => ?_⟩
  · have hstop := h.stopped e he
    rw [hframes] at hstop
    cases congrArg Prod.snd hstop
  · have hreceived : i.received = b.texts.flatten := by
      rw [htexts, hpending hopen, hnone, hall]
      exact (append_nil _).symm
    exact (h.complete hreceived hdrained).1.trans (congrArg Prod.fst hframes)

/-- A signal in two writes, which is read with what came before. -/
theorem frames_arrive_signal :
    let s := emptySignal
    let b := (start .unixSocket true false).after
      [.enter .running, .send (s.toOut false) none (.accepted 5), .dispatch [.accepted 16]]
    let i := (BusInput.start (s.blob.take 3) true).after [.read (.data (s.blob.drop 3) [])]
    i.frames.map Prod.fst = [s.blob] ∧ i.frames.map Prod.fst <+: b.texts := by
  refine ⟨by decide, (frames_arrive (run_after _ _) (BusInput.run_after _ _) (by decide) fun m hm => ?_).1⟩
  obtain rfl : m = emptySignal.toOut false := mem_singleton.mp hm
  exact ⟨emptySignal, rfl, rfl, by decide⟩

end BusOutput

end Elogind
