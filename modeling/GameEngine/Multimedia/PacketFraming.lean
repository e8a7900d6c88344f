import GameEngine.Library.TransitionSystem
import GameEngine.Multimedia.RingRefinement
import GameEngine.Multimedia.VideoDecoder
import Mathlib.Data.List.Forall2

/-!
# Packets between one pusher and one decoder

One thread calls `push_packet`, another calls `decode_next`, on one open decoder. A step is one
operation on the ring, with everything up to the next one. `PacketStream` records, beside the
decoder and the two calls in progress, the bytes each call in progress has put into or taken out of
the queue and what the finished calls have returned.

`PacketStream.Sound` is the invariant: the queued bytes are what is left of the packet that a decode
is consuming, then the complete accepted packets, then what the push in progress has written, and
the program counters agree with this division. `step_sound` is the step lemma.

`queued_not_packets` shows that between two reads of one `decode_next` the queue does not start at
a packet boundary. `packets_framed` collects what holds in every reachable state.
-/

set_option autoImplicit false
set_option relaxedAutoImplicit false

namespace GameEngine.Multimedia

open GameEngine.Library GameEngine.Library.MachineWord GameEngine.Library.CircularBuffer
open GameEngine.Library.RecordStream

/-! ### The layout of packets -/

/-- The layout of packets in the ring. -/
def packetLayout : Framing Packet UInt8 where
  header := Packet.header
  body := Packet.payload
  headerLength := headerBytes
  bodyLength := headerNbytes
  length_header := Packet.length_header
  headerLength_pos := by decide

/-- The bytes of a complete packet in the ring. -/
abbrev Packet.encode (packet : Packet) : List UInt8 := packetLayout.encode packet

theorem Packet.length_encode (packet : Packet) :
    packet.encode.length = headerBytes + packet.payload.length := by
  rw [encode, Framing.encode, List.length_append]
  exact congrArg (· + packet.payload.length) packet.length_header

theorem Packet.header_ne_nil (packet : Packet) : packet.header ≠ [] :=
  List.ne_nil_of_length_pos (by rw [length_header]; decide)

/-- A packet that is not empty and whose length is a 32-bit word fits its header. -/
theorem Packet.fits {packet : Packet} (hpos : packet.payload.length ≠ 0)
    (hlt : packet.payload.length < word32) : packetLayout.Fits packet where
  nonempty := fun hnil ↦ hpos (List.length_eq_zero_iff.mpr hnil)
  bodyLength_eq := (headerNbytes_header packet).trans (Nat.mod_eq_of_lt hlt)

/-! ### The state of the two threads -/

/-- A finished `push_packet`: its packet, the bytes it has put into the queue, and what it
returned. -/
structure PushRecord where
  packet : Packet
  written : List UInt8
  accepted : Bool
deriving DecidableEq

/-- A finished `decode_next`: the bytes it has taken out of the queue, what it returned, and the
bytes of the returned frame at that moment. -/
structure DecodeRecord where
  read : List UInt8
  result : VideoDecoderStub.DecodeResult
  contents : List UInt8
deriving DecidableEq

/-- A `decode_next` that has taken bytes out of the queue. -/
def DecodeRecord.consuming (record : DecodeRecord) : Bool := !record.read.isEmpty

/-- The decoder, the two calls in progress, the bytes they have put into and taken out of the queue,
and the finished calls, oldest first. -/
structure PacketStream where
  decoder : VideoDecoderStub
  pushing : Option VideoDecoderStub.PushPc
  decoding : Option VideoDecoderStub.DecodePc
  bytesWritten : List UInt8
  bytesRead : List UInt8
  pushes : List PushRecord
  decodes : List DecodeRecord

/-- A decoder with both threads between calls. -/
def PacketStream.initial (decoder : VideoDecoderStub) : PacketStream where
  decoder := decoder
  pushing := none
  decoding := none
  bytesWritten := []
  bytesRead := []
  pushes := []
  decodes := []

/-- The packets for which `push_packet` has returned true. -/
def PacketStream.accepted (s : PacketStream) : List Packet :=
  (s.pushes.filter (·.accepted)).map (·.packet)

/-! ### The steps -/

/-- What happens next: a thread starts a call, or takes the next step of the call it is in. -/
inductive StreamAction
  | push (packet : Packet)
  | advancePush
  | decode
  | advanceDecode

/-- The bytes that a step has put into the ring. -/
def added (before after : ZeroCopyRing) : List UInt8 := after.stored.drop before.stored.length

/-- The bytes that a step has taken out of the ring. -/
def removed (before after : ZeroCopyRing) : List UInt8 :=
  before.stored.take (before.stored.length - after.stored.length)

/-- The state after a step of the push of a packet. `written` is what the call has put into the
queue. -/
def PacketStream.afterPush (s : PacketStream) (packet : Packet) (written : List UInt8)
    (next : VideoDecoderStub × VideoDecoderStub.CallStep VideoDecoderStub.PushPc Bool) :
    PacketStream :=
  match next.2 with
  | .running pc =>
    { s with decoder := next.1, pushing := some pc, bytesWritten := written }
  | .returned accepted =>
    { s with
      decoder := next.1
      pushing := none
      bytesWritten := []
      pushes := s.pushes ++ [⟨packet, written, accepted⟩] }

/-- The state after a step of a decode. `read` is what the call has taken out of the queue. -/
def PacketStream.afterDecode (s : PacketStream) (read : List UInt8)
    (next : VideoDecoderStub.DecodeStep) : PacketStream :=
  match next.2 with
  | .running pc => { s with decoder := next.1, decoding := some pc, bytesRead := read }
  | .returned result =>
    { s with
      decoder := next.1
      decoding := none
      bytesRead := []
      decodes := s.decodes ++ [⟨read, result, frameContents next.1 result.out⟩] }

/-- The steps of the two threads. -/
def streamStep (s : PacketStream) : StreamAction → Option PacketStream
  | .push packet =>
    match s.pushing with
    | none => some (s.afterPush packet [] (s.decoder, s.decoder.pushPacket packet))
    | some _ => none
  | .advancePush =>
    match s.pushing with
    | none => none
    | some pc =>
      let next := s.decoder.advancePush pc
      some (s.afterPush pc.packet (s.bytesWritten ++ added s.decoder.packets next.1.packets) next)
  | .decode =>
    match s.decoding with
    | none => s.decoder.decodeNext.map (s.afterDecode [])
    | some _ => none
  | .advanceDecode =>
    match s.decoding with
    | none => none
    | some pc =>
      (s.decoder.advanceDecode pc).map fun next ↦
        s.afterDecode (s.bytesRead ++ removed s.decoder.packets next.1.packets) next

/-- The system of the two threads. -/
def streamSystem : TransitionSystem PacketStream StreamAction := ⟨streamStep⟩

/-- A pushed payload has less than `2 ^ 63` bytes. -/
def payloadsInMemory (_ : PacketStream) : StreamAction → Prop
  | .push packet => packet.payload.length < 2 ^ 63
  | _ => True

instance : ∀ s action, Decidable (payloadsInMemory s action)
  | _, .push packet => inferInstanceAs (Decidable (packet.payload.length < 2 ^ 63))
  | _, .advancePush => inferInstanceAs (Decidable True)
  | _, .decode => inferInstanceAs (Decidable True)
  | _, .advanceDecode => inferInstanceAs (Decidable True)

/-! ### The invariant -/

/-- What a decode that consumes a packet of a stream with the given frame size takes out of the
queue and returns: the whole packet, and a frame of its first bytes or a failure. -/
def Yields (frameBytes : ℕ) (packet : Packet) (record : DecodeRecord) : Prop :=
  record.read = packet.encode ∧
    if frameBytes ≤ packet.payload.length then
      record.result.decoded = true ∧ record.result.out.pts = packet.pts ∧
        record.contents = packet.payload.take frameBytes
    else record.result = ⟨false, .null⟩

/-- What the pusher relies on: what it has put into the queue, and that the rest has room. -/
def PushPhase (stored bytesWritten : List UInt8) : Option VideoDecoderStub.PushPc → Prop
  | none => bytesWritten = []
  | some (.writeHeader packet) =>
    bytesWritten = [] ∧ packetLayout.Fits packet ∧
      stored.length + packet.encode.length ≤ 2 ^ 16
  | some (.writePayload packet) =>
    bytesWritten = packet.header ∧ packetLayout.Fits packet ∧
      stored.length + packet.payload.length ≤ 2 ^ 16

/-- A decode that has not taken anything out of the queue. -/
structure Untouched (bytesRead : List UInt8) (current : Option Packet) (unread : List UInt8) :
    Prop where
  bytesRead_eq : bytesRead = []
  current_eq : current = none
  unread_eq : unread = []

/-- What the decode in progress relies on: how far it is in the packet it consumes, that the header
it works with is the first one in the queue, and that the frame it will return is in its slot. -/
def DecodePhase (frameBytes : ℕ) (decoder : VideoDecoderStub) (bytesRead : List UInt8)
    (current : Option Packet) (unread : List UInt8) : Option VideoDecoderStub.DecodePc → Prop
  | none => Untouched bytesRead current unread
  | some .peek =>
    Untouched bytesRead current unread ∧ headerBytes ≤ decoder.packets.stored.length
  | some (.checkSize hdr) =>
    Untouched bytesRead current unread ∧ headerBytes ≤ decoder.packets.stored.length ∧
      hdr = decoder.packets.stored.take headerBytes
  | some (.readHeader pts nbytes) =>
    Untouched bytesRead current unread ∧
      headerBytes + nbytes ≤ decoder.packets.stored.length ∧
      pts = headerPts (decoder.packets.stored.take headerBytes) ∧
      nbytes = headerNbytes (decoder.packets.stored.take headerBytes)
  | some (.readFrame pts nbytes) =>
    ∃ packet, current = some packet ∧ bytesRead = packet.header ∧ unread = packet.payload ∧
      pts = packet.pts ∧ nbytes = packet.payload.length ∧ frameBytes ≤ nbytes
  | some (.drain bytes pending) =>
    ∃ packet, current = some packet ∧ bytesRead ≠ [] ∧ bytesRead ++ unread = packet.encode ∧
      bytes = unread.length ∧ 0 < bytes ∧ Pending frameBytes decoder packet pending
where
  /-- What the end of a decode returns for a packet: its frame, which is in the current slot, or a
  failure. -/
  Pending (frameBytes : ℕ) (decoder : VideoDecoderStub) (packet : Packet) : Option UInt64 → Prop
    | none => packet.payload.length < frameBytes
    | some pts => pts = packet.pts ∧ frameBytes ≤ packet.payload.length ∧
        cells decoder.frames.bytes decoder.slotOffset frameBytes = packet.payload.take frameBytes

namespace PacketStream

/-- The part of the invariant that does not depend on where the decode in progress is. -/
structure Framed (width height : ℕ) (s : PacketStream) (consumed : List Packet)
    (current : Option Packet) (complete : List Packet) (unread : List UInt8) : Prop where
  valid : s.decoder.packets.Valid
  capacity_eq : s.decoder.packets.capacity = 2 ^ 16
  width_eq : s.decoder.width = width
  height_eq : s.decoder.height = height
  poolSize_eq :
    s.decoder.frames.size = i420Size width height * VideoDecoderStub.kFrameSlots % word64
  slot_lt : s.decoder.slot < VideoDecoderStub.kFrameSlots
  accepted_eq : s.accepted = consumed ++ current.toList ++ complete
  stored_eq : s.decoder.packets.stored =
    unread ++ complete.flatMap Packet.encode ++ s.bytesWritten
  fits : ∀ packet ∈ s.accepted, packetLayout.Fits packet
  pushing : PushPhase s.decoder.packets.stored s.bytesWritten s.pushing
  pushes : ∀ record ∈ s.pushes,
    record.written = if record.accepted then record.packet.encode else []
  decodes : List.Forall₂ (Yields (i420Size width height)) consumed (s.decodes.filter (·.consuming))

/-- The invariant. The accepted packets are divided into those consumed, the one that the decode in
progress is consuming, and those complete in the queue; `unread` is what is left of the second. -/
structure Sound (width height : ℕ) (s : PacketStream) (consumed : List Packet)
    (current : Option Packet) (complete : List Packet) (unread : List UInt8) : Prop
    extends Framed width height s consumed current complete unread where
  decoding : DecodePhase (i420Size width height) s.decoder s.bytesRead current unread s.decoding

end PacketStream

/-! ### Steps of the pusher -/

theorem added_eq {before after : ZeroCopyRing} {data : List UInt8}
    (hstored : after.stored = before.stored ++ data) : added before after = data := by
  rw [added, hstored, List.drop_left]

theorem removed_eq {before after : ZeroCopyRing} {count : ℕ}
    (hstored : after.stored = before.stored.drop count) :
    removed before after = before.stored.take count := by
  rw [removed, hstored, List.length_drop]
  rcases Nat.le_total count before.stored.length with hle | hle
  · rw [Nat.sub_sub_self hle]
  · rw [Nat.sub_eq_zero_of_le hle, Nat.sub_zero, List.take_length, List.take_of_length_le hle]

@[simp] theorem removed_self (ring : ZeroCopyRing) : removed ring ring = [] := by
  rw [removed, Nat.sub_self, List.take_zero]

/-- The bytes of an unfinished push are nothing or the header of its packet. -/
theorem PushPhase.isPartial {stored bytesWritten : List UInt8}
    {pushing : Option VideoDecoderStub.PushPc} (hphase : PushPhase stored bytesWritten pushing) :
    packetLayout.IsPartial bytesWritten := by
  match pushing with
  | none => exact Or.inl hphase
  | some (.writeHeader _) => exact Or.inl hphase.1
  | some (.writePayload packet) => exact Or.inr ⟨packet, hphase.2.1, hphase.1⟩

/-- The pusher keeps its room when bytes are taken out of the queue. -/
theorem PushPhase.of_length_le {stored stored' bytesWritten : List UInt8}
    {pushing : Option VideoDecoderStub.PushPc} (hphase : PushPhase stored bytesWritten pushing)
    (hle : stored'.length ≤ stored.length) : PushPhase stored' bytesWritten pushing := by
  match pushing with
  | none => exact hphase
  | some (.writeHeader _) => exact ⟨hphase.1, hphase.2.1, le_trans (by omega) hphase.2.2⟩
  | some (.writePayload _) => exact ⟨hphase.1, hphase.2.1, le_trans (by omega) hphase.2.2⟩

/-- What the decode in progress relies on is kept when bytes are put into the queue. -/
theorem DecodePhase.append {frameBytes : ℕ} {decoder : VideoDecoderStub} {ring : ZeroCopyRing}
    {bytesRead unread data : List UInt8} {current : Option Packet}
    {decoding : Option VideoDecoderStub.DecodePc}
    (hphase : DecodePhase frameBytes decoder bytesRead current unread decoding)
    (hstored : ring.stored = decoder.packets.stored ++ data) :
    DecodePhase frameBytes { decoder with packets := ring } bytesRead current unread decoding := by
  have hgrown : decoder.packets.stored.length ≤ ring.stored.length := by
    rw [hstored, List.length_append]
    exact Nat.le_add_right _ _
  have hfront : headerBytes ≤ decoder.packets.stored.length →
      ring.stored.take headerBytes = decoder.packets.stored.take headerBytes := fun hheader ↦ by
    rw [hstored, List.take_append_of_le_length hheader]
  match decoding with
  | none => exact hphase
  | some .peek => exact ⟨hphase.1, hphase.2.trans hgrown⟩
  | some (.checkSize hdr) =>
    obtain ⟨huntouched, hheader, hhdr⟩ := hphase
    exact ⟨huntouched, hheader.trans hgrown, hhdr.trans (hfront hheader).symm⟩
  | some (.readHeader pts nbytes) =>
    obtain ⟨huntouched, hlength, hpts, hnbytes⟩ := hphase
    have hheader := hfront (le_trans (Nat.le_add_right _ _) hlength)
    refine ⟨huntouched, hlength.trans hgrown, ?_, ?_⟩
    · rw [hheader]
      exact hpts
    · rw [hheader]
      exact hnbytes
  | some (.readFrame _ _) => exact hphase
  | some (.drain _ _) => exact hphase

/-- Draining and returning happen after the last read of a step. -/
theorem VideoDecoderStub.packets_drainBytes (decoder : VideoDecoderStub) (bytes : ℕ)
    (pending : Option UInt64) : (decoder.drainBytes bytes pending).1.packets = decoder.packets := by
  unfold drainBytes
  split_ifs
  · rfl
  · cases pending <;> rfl

namespace PacketStream

variable {width height : ℕ} {s : PacketStream} {consumed complete : List Packet}
  {current : Option Packet} {unread : List UInt8}

/-- A finished push adds its packet to the accepted ones when it returned true. -/
theorem accepted_concat (pushes : List PushRecord) (record : PushRecord) :
    ((pushes ++ [record]).filter (·.accepted)).map (·.packet) =
      (pushes.filter (·.accepted)).map (·.packet) ++
        if record.accepted then [record.packet] else [] := by
  rw [List.filter_append, List.map_append]
  cases haccepted : record.accepted <;> simp [haccepted]

theorem Framed.freeSpace_eq (hframed : Framed width height s consumed current complete unread) :
    s.decoder.packets.freeSpace = 2 ^ 16 - s.decoder.packets.stored.length := by
  rw [hframed.valid.freeSpace_eq, hframed.capacity_eq, ZeroCopyRing.length_stored]

theorem Framed.frameBytes_eq (hframed : Framed width height s consumed current complete unread) :
    s.decoder.frameBytes = i420Size width height := by
  rw [s.decoder.frameBytes_eq, hframed.width_eq, hframed.height_eq]

/-- The start of a push: it is refused without a trace, or there is room for its whole packet. -/
theorem Sound.push (hsound : Sound width height s consumed current complete unread)
    (hidle : s.pushing = none) {packet : Packet} (hlength : packet.payload.length < 2 ^ 63) :
    Sound width height (s.afterPush packet [] (s.decoder, s.decoder.pushPacket packet))
      consumed current complete unread := by
  have hwritten : s.bytesWritten = [] := by
    have hpushing := hsound.pushing
    rwa [hidle] at hpushing
  have hrefused : Sound width height (s.afterPush packet [] (s.decoder, .returned false))
      consumed current complete unread := by
    have haccepted : (s.afterPush packet [] (s.decoder, .returned false)).accepted =
        s.accepted := by
      rw [accepted, afterPush, accepted_concat]
      exact List.append_nil _
    refine { hsound with
      accepted_eq := haccepted.trans hsound.accepted_eq
      stored_eq := ?_, fits := ?_, pushing := rfl, pushes := ?_ }
    · have hstored := hsound.stored_eq
      rwa [hwritten] at hstored
    · rw [haccepted]
      exact hsound.fits
    · intro record hrecord
      rcases List.mem_append.mp hrecord with hold | hnew
      · exact hsound.pushes record hold
      · rw [List.mem_singleton.mp hnew]
        rfl
  unfold VideoDecoderStub.pushPacket
  dsimp only
  split_ifs with hrefuse hroom
  · exact hrefused
  · exact hrefused
  · have hpos : packet.payload.length ≠ 0 := fun hzero ↦ hrefuse (Or.inr hzero)
    have hneed : addMod word64 headerBytes packet.payload.length =
        headerBytes + packet.payload.length :=
      Nat.mod_eq_of_lt (by unfold headerBytes word64; omega)
    rw [hneed, hsound.freeSpace_eq] at hroom
    have hfits : packetLayout.Fits packet :=
      Packet.fits hpos (by unfold headerBytes at hroom; unfold word32; omega)
    refine { hsound with stored_eq := ?_, pushing := ⟨rfl, hfits, ?_⟩ }
    · have hstored := hsound.stored_eq
      rwa [hwritten] at hstored
    · rw [Packet.length_encode]
      unfold headerBytes at hroom ⊢
      change s.decoder.packets.stored.length + _ ≤ _
      omega

/-- The next step of a push: its header and then its payload go into the queue as a whole, and it
returns true. -/
theorem Sound.advancePush (hsound : Sound width height s consumed current complete unread)
    {pc : VideoDecoderStub.PushPc} (hpc : s.pushing = some pc) :
    ∃ complete', Sound width height
      (s.afterPush pc.packet
        (s.bytesWritten ++ added s.decoder.packets (s.decoder.advancePush pc).1.packets)
        (s.decoder.advancePush pc)) consumed current complete' unread := by
  have hpushing := hsound.pushing
  rw [hpc] at hpushing
  cases pc with
  | writeHeader packet =>
    obtain ⟨hwritten, hfits, hroom⟩ := hpushing
    rw [Packet.length_encode] at hroom
    have hfree : packet.header.length ≤ s.decoder.packets.freeSpace := by
      rw [hsound.freeSpace_eq, Packet.length_header]
      omega
    obtain ⟨hvalid, hcapacity, hstored, hcount⟩ := hsound.valid.write hfree
    rw [Packet.length_header] at hcount
    have hstep : s.decoder.advancePush (.writeHeader packet) =
        ({ s.decoder with packets := (s.decoder.packets.write packet.header).1 },
          .running (.writePayload packet)) := by
      simp only [VideoDecoderStub.advancePush, hcount, ne_eq, not_true_eq_false, if_false]
    rw [hstep, hwritten, added_eq hstored, List.nil_append]
    refine ⟨complete, { hsound with
      valid := hvalid
      capacity_eq := hcapacity.trans hsound.capacity_eq
      stored_eq := ?_, pushing := ⟨rfl, hfits, ?_⟩
      decoding := hsound.decoding.append hstored }⟩
    · change (s.decoder.packets.write packet.header).1.stored = _
      rw [hstored, hsound.stored_eq, hwritten, List.append_nil]
      rfl
    · change (s.decoder.packets.write packet.header).1.stored.length + _ ≤ _
      rw [hstored, List.length_append, Packet.length_header]
      omega
  | writePayload packet =>
    obtain ⟨hwritten, hfits, hroom⟩ := hpushing
    have hfree : packet.payload.length ≤ s.decoder.packets.freeSpace := by
      rw [hsound.freeSpace_eq]
      omega
    obtain ⟨hvalid, hcapacity, hstored, hcount⟩ := hsound.valid.write hfree
    have hstep : s.decoder.advancePush (.writePayload packet) =
        ({ s.decoder with packets := (s.decoder.packets.write packet.payload).1 },
          .returned true) := by
      simp only [VideoDecoderStub.advancePush, hcount, beq_self_eq_true]
    have hencode : packet.header ++ packet.payload = packet.encode := rfl
    rw [hstep, hwritten, added_eq hstored, hencode]
    have haccepted : (s.afterPush packet packet.encode
        ({ s.decoder with packets := (s.decoder.packets.write packet.payload).1 },
          .returned true)).accepted = s.accepted ++ [packet] := by
      rw [accepted, afterPush, accepted_concat]
      rfl
    refine ⟨complete ++ [packet], { hsound with
      valid := hvalid
      capacity_eq := hcapacity.trans hsound.capacity_eq
      accepted_eq := ?_, stored_eq := ?_, fits := ?_, pushing := rfl, pushes := ?_
      decoding := hsound.decoding.append hstored }⟩
    · exact haccepted.trans (by rw [hsound.accepted_eq, List.append_assoc])
    · change (s.decoder.packets.write packet.payload).1.stored = _ ++ []
      rw [hstored, hsound.stored_eq, hwritten, List.flatMap_append, List.append_nil,
        List.flatMap_singleton, ← hencode]
      simp only [List.append_assoc]
    · intro other hother
      change other ∈ (s.afterPush packet packet.encode _).accepted at hother
      rw [haccepted, List.mem_append, List.mem_singleton] at hother
      rcases hother with hold | rfl
      · exact hsound.fits other hold
      · exact hfits
    · intro record hrecord
      rcases List.mem_append.mp hrecord with hold | hnew
      · exact hsound.pushes record hold
      · rw [List.mem_singleton.mp hnew]
        rfl

/-! ### Steps of the decode -/

/-- A decode goes on. -/
theorem Framed.running (hframed : Framed width height s consumed current complete unread)
    {read : List UInt8} {pc : VideoDecoderStub.DecodePc}
    (hphase : DecodePhase (i420Size width height) s.decoder read current unread (some pc)) :
    Sound width height (s.afterDecode read (s.decoder, .running pc)) consumed current complete
      unread :=
  { hframed with decoding := hphase }

/-- A decode that has taken nothing out of the queue returns. -/
theorem Framed.returned_untouched (hframed : Framed width height s consumed none complete [])
    (result : VideoDecoderStub.DecodeResult) :
    Sound width height (s.afterDecode [] (s.decoder, .returned result)) consumed none complete
      [] := by
  refine { hframed with decodes := ?_, decoding := ⟨rfl, rfl, rfl⟩ }
  rw [afterDecode, List.filter_append]
  have hskipped : ∀ contents, [DecodeRecord.mk [] result contents].filter (·.consuming) = [] :=
    fun _ ↦ rfl
  rw [hskipped, List.append_nil]
  exact hframed.decodes

/-- A decode that has taken a whole packet out of the queue returns what the packet yields. -/
theorem Framed.returned_consumed {packet : Packet}
    (hframed : Framed width height s consumed (some packet) complete [])
    {result : VideoDecoderStub.DecodeResult}
    (hyields : Yields (i420Size width height) packet
      ⟨packet.encode, result, frameContents s.decoder result.out⟩) :
    Sound width height (s.afterDecode packet.encode (s.decoder, .returned result))
      (consumed ++ [packet]) none complete [] := by
  refine { hframed with accepted_eq := ?_, decodes := ?_, decoding := ⟨rfl, rfl, rfl⟩ }
  · refine hframed.accepted_eq.trans ?_
    simp only [Option.toList_some, Option.toList_none, List.append_nil]
  · rw [afterDecode, List.filter_append]
    have hkept : [DecodeRecord.mk packet.encode result
        (frameContents s.decoder result.out)].filter (·.consuming) =
          [⟨packet.encode, result, frameContents s.decoder result.out⟩] := by
      refine List.filter_cons_of_pos ?_
      rw [DecodeRecord.consuming, Bool.not_eq_true', List.isEmpty_eq_false_iff]
      exact Framing.encode_ne_nil packet
    rw [hkept]
    exact List.rel_append hframed.decodes (.cons hyields .nil)

/-- Moving on to the next slot leaves everything but the slot as it is. -/
theorem Framed.nextSlot (hframed : Framed width height s consumed current complete unread)
    (pts : UInt64) :
    Framed width height { s with decoder := (s.decoder.finishFrame pts).1 } consumed current
      complete unread :=
  { hframed with slot_lt := Nat.mod_lt _ (Nat.zero_lt_succ 2) }

/-- The return of a decode that has taken a whole packet out of the queue. -/
theorem Framed.afterDrain {packet : Packet}
    (hframed : Framed width height s consumed (some packet) complete [])
    {pending : Option UInt64}
    (hpending : DecodePhase.Pending (i420Size width height) s.decoder packet pending) :
    Sound width height (s.afterDecode packet.encode (s.decoder.afterDrain pending))
      (consumed ++ [packet]) none complete [] := by
  cases pending with
  | none =>
    refine hframed.returned_consumed ⟨rfl, ?_⟩
    rw [if_neg (Nat.not_le.mpr hpending)]
  | some pts =>
    obtain ⟨hpts, hlength, hcontents⟩ := hpending
    refine (hframed.nextSlot pts).returned_consumed ⟨rfl, ?_⟩
    rw [if_pos hlength]
    refine ⟨rfl, hpts, ?_⟩
    change cells s.decoder.frames.bytes s.decoder.slotOffset s.decoder.frameBytes = _
    rw [hframed.frameBytes_eq]
    exact hcontents

/-- `drain_bytes` from the head of its loop on: there is more to drain, or the packet has been taken
out of the queue as a whole and the decode returns. -/
theorem Framed.drainBytes {packet : Packet}
    (hframed : Framed width height s consumed (some packet) complete unread)
    {read : List UInt8} (hstarted : read ≠ []) (hread : read ++ unread = packet.encode)
    {pending : Option UInt64}
    (hpending : DecodePhase.Pending (i420Size width height) s.decoder packet pending) :
    ∃ consumed' current' unread',
      Sound width height (s.afterDecode read (s.decoder.drainBytes unread.length pending)) consumed'
        current' complete unread' := by
  unfold VideoDecoderStub.drainBytes
  split_ifs with hmore
  · exact ⟨consumed, some packet, unread,
      hframed.running ⟨packet, rfl, hstarted, hread, rfl, hmore, hpending⟩⟩
  · have hnil : unread = [] := List.length_eq_zero_iff.mp (by omega)
    subst hnil
    rw [List.append_nil] at hread
    rw [hread]
    exact ⟨consumed ++ [packet], none, [], hframed.afterDrain hpending⟩

theorem Sound.untouched (hsound : Sound width height s consumed current complete unread)
    (hidle : s.decoding = none) : Untouched s.bytesRead current unread := by
  have hdecoding := hsound.decoding
  rwa [hidle] at hdecoding

/-- Drawing the pattern changes the contents of the frame pool only. -/
theorem Framed.fillPattern (hframed : Framed width height s consumed current complete unread)
    {filled : VideoDecoderStub} (hfilled : s.decoder.fillPattern = some filled) (nextPts : UInt64) :
    Framed width height { s with decoder := { filled with nextPts := nextPts } } consumed current
      complete unread := by
  simp only [VideoDecoderStub.fillPattern, Option.map_eq_some_iff, FramePool.store,
    Option.ite_none_right_eq_some, Option.some.injEq] at hfilled
  obtain ⟨pool, ⟨-, rfl⟩, rfl⟩ := hfilled
  exact { hframed with }

/-- The start of a decode: it returns without touching the queue, or it goes on to peek at the first
header. -/
theorem Sound.decode (hsound : Sound width height s consumed current complete unread)
    (hidle : s.decoding = none) {next : VideoDecoderStub.DecodeStep}
    (hnext : s.decoder.decodeNext = some next) :
    Sound width height (s.afterDecode [] next) consumed current complete unread := by
  obtain ⟨-, rfl, rfl⟩ := hsound.untouched hidle
  simp only [VideoDecoderStub.decodeNext] at hnext
  split_ifs at hnext with hclosed hqueued hpattern
  · obtain rfl := Option.some.inj hnext
    exact hsound.returned_untouched _
  · obtain rfl := Option.some.inj hnext
    refine hsound.running ⟨⟨rfl, rfl, rfl⟩, ?_⟩
    rw [ZeroCopyRing.length_stored]
    exact hqueued
  · obtain rfl := Option.some.inj hnext
    exact hsound.returned_untouched _
  · obtain ⟨filled, hfilled, rfl⟩ := Option.map_eq_some_iff.mp hnext
    exact ((hsound.fillPattern hfilled _).nextSlot filled.nextPts).returned_untouched _

/-- Taking bytes out of the queue that are left of the packet being consumed. -/
theorem Framed.read (hframed : Framed width height s consumed current complete unread) {count : ℕ}
    (hcount : count ≤ unread.length) :
    Framed width height
      { s with decoder := { s.decoder with packets := (s.decoder.packets.read count).1 } }
      consumed current complete (unread.drop count) := by
  obtain ⟨hvalid, hcapacity, hstored, -⟩ := hframed.valid.read count
  refine { hframed with
    valid := hvalid
    capacity_eq := hcapacity.trans hframed.capacity_eq
    stored_eq := ?_, pushing := ?_ }
  · change (s.decoder.packets.read count).1.stored = _
    rw [hstored, hframed.stored_eq, List.append_assoc, List.drop_append_of_le_length hcount,
      List.append_assoc]
  · refine hframed.pushing.of_length_le ?_
    change (s.decoder.packets.read count).1.stored.length ≤ _
    rw [hstored, List.length_drop]
    exact Nat.sub_le _ _

/-- The bytes that a read takes are the first of those left of the packet being consumed. -/
theorem Framed.take_stored (hframed : Framed width height s consumed current complete unread)
    {count : ℕ} (hcount : count ≤ unread.length) :
    s.decoder.packets.stored.take count = unread.take count := by
  rw [hframed.stored_eq, List.append_assoc, List.take_append_of_le_length hcount]

/-- The bytes left of the packet being consumed are in the queue. -/
theorem Framed.length_unread_le (hframed : Framed width height s consumed current complete unread) :
    unread.length ≤ s.decoder.packets.stored.length := by
  rw [hframed.stored_eq, List.append_assoc, List.length_append]
  exact Nat.le_add_right _ _

/-- The read of a header starts the consumption of the first packet in the queue: that packet is
complete, and the header says what it is. -/
theorem Framed.consume (hframed : Framed width height s consumed none complete [])
    (hlength : headerBytes + headerNbytes (s.decoder.packets.stored.take headerBytes) ≤
      s.decoder.packets.stored.length) :
    ∃ packet others, complete = packet :: others ∧
      s.decoder.packets.stored.take headerBytes = packet.header ∧
      packetLayout.Fits packet ∧
      Framed width height s consumed (some packet) others packet.encode := by
  have hstored := hframed.stored_eq
  rw [List.nil_append] at hstored
  obtain ⟨packet, others, rfl⟩ :=
    Framing.exists_cons_of_le hframed.pushing.isPartial hstored hlength
  rw [List.flatMap_cons] at hstored
  have haccepted : s.accepted = consumed ++ [packet] ++ others := by
    rw [hframed.accepted_eq, Option.toList_none, List.append_nil, List.append_assoc]
    rfl
  refine ⟨packet, others, rfl, ?_, hframed.fits packet (by rw [haccepted]; simp), ?_⟩
  · rw [hstored, List.append_assoc]
    exact @Framing.take_encode_append _ _ packetLayout packet _
  · exact { hframed with accepted_eq := haccepted, stored_eq := hstored }

/-- The current slot lies in the frame pool. Assumes: the pool does not wrap. -/
theorem Framed.slot_inPool (hframed : Framed width height s consumed current complete unread)
    (hsmall : i420Size width height < 2 ^ 62) :
    s.decoder.slotOffset + i420Size width height ≤ s.decoder.frames.size := by
  have hframe := hframed.frameBytes_eq
  rw [← hframe] at hsmall ⊢
  refine VideoDecoderStub.slotOffset_le hframed.slot_lt ?_ hsmall
  rw [hframe]
  exact hframed.poolSize_eq

/-- The peek at the first header. -/
theorem Sound.peek (hsound : Sound width height s consumed current complete unread)
    (hpc : s.decoding = some .peek) {next : VideoDecoderStub.DecodeStep}
    (hnext : s.decoder.advanceDecode .peek = some next) :
    next.1.packets = s.decoder.packets ∧
      Sound width height (s.afterDecode [] next) consumed current complete unread := by
  have hphase := hsound.decoding
  rw [hpc] at hphase
  obtain ⟨⟨-, rfl, rfl⟩, hheader⟩ := hphase
  have hpeek := ZeroCopyRing.peek_eq hsound.valid headerBytes
  rw [← ZeroCopyRing.length_stored, min_eq_left hheader] at hpeek
  simp only [VideoDecoderStub.advanceDecode, hpeek, ne_eq, not_true_eq_false, if_false,
    Option.some.injEq] at hnext
  subst hnext
  exact ⟨rfl, hsound.running ⟨⟨rfl, rfl, rfl⟩, hheader, rfl⟩⟩

/-- The check that the first packet is complete: without it the decode fails and leaves everything
as it was. -/
theorem Sound.checkSize (hsound : Sound width height s consumed current complete unread)
    {hdr : List UInt8} (hpc : s.decoding = some (.checkSize hdr))
    {next : VideoDecoderStub.DecodeStep}
    (hnext : s.decoder.advanceDecode (.checkSize hdr) = some next) :
    next.1.packets = s.decoder.packets ∧
      Sound width height (s.afterDecode [] next) consumed current complete unread := by
  have hphase := hsound.decoding
  rw [hpc] at hphase
  obtain ⟨⟨-, rfl, rfl⟩, hheader, rfl⟩ := hphase
  simp only [VideoDecoderStub.advanceDecode, Option.some.injEq] at hnext
  subst hnext
  split_ifs with hshort
  · exact ⟨rfl, hsound.returned_untouched _⟩
  · rw [← ZeroCopyRing.length_stored, Nat.not_lt] at hshort
    exact ⟨rfl, hsound.running ⟨⟨rfl, rfl, rfl⟩, hshort, rfl, rfl⟩⟩

/-- The read of a header: it is the header of the first packet, and what is left is its payload. -/
theorem Sound.readHeader (hsound : Sound width height s consumed current complete unread)
    {pts : UInt64} {nbytes : ℕ} (hpc : s.decoding = some (.readHeader pts nbytes))
    {next : VideoDecoderStub.DecodeStep}
    (hnext : s.decoder.advanceDecode (.readHeader pts nbytes) = some next) :
    ∃ consumed' current' complete' unread', Sound width height
      (s.afterDecode (s.bytesRead ++ removed s.decoder.packets next.1.packets) next) consumed'
        current' complete' unread' := by
  have hphase := hsound.decoding
  rw [hpc] at hphase
  obtain ⟨⟨hread, rfl, rfl⟩, hlength, rfl, rfl⟩ := hphase
  obtain ⟨packet, others, rfl, hheader, hfits, hframed⟩ := hsound.consume hlength
  have hnbytes : headerNbytes packet.header = packet.payload.length := hfits.bodyLength_eq
  have hcount : headerBytes ≤ packet.encode.length := by
    rw [Packet.length_encode]
    exact Nat.le_add_right _ _
  have hpayload : packet.encode.drop headerBytes = packet.payload := by
    have hdrop := @Framing.drop_encode_append _ _ packetLayout packet []
    rwa [List.append_nil, List.append_nil] at hdrop
  have hrest := hframed.read hcount
  rw [hpayload] at hrest
  have hremoved := removed_eq (hsound.valid.read headerBytes).2.2.1
  rw [hheader] at hremoved
  simp only [VideoDecoderStub.advanceDecode, hheader, hnbytes, headerPts_header,
    Option.some.injEq] at hnext
  subst hnext
  have hframe : ({ s.decoder with packets := (s.decoder.packets.read headerBytes).1 } :
      VideoDecoderStub).frameBytes = i420Size width height := hsound.frameBytes_eq
  rw [hread, List.nil_append, hframe]
  split_ifs with hshort
  · have hpending : DecodePhase.Pending (i420Size width height)
        { s.decoder with packets := (s.decoder.packets.read headerBytes).1 } packet none := hshort
    obtain ⟨consumed', current', unread', hdrained⟩ :=
      hrest.drainBytes packet.header_ne_nil rfl hpending
    refine ⟨consumed', current', others, unread', ?_⟩
    rw [VideoDecoderStub.packets_drainBytes, hremoved]
    exact hdrained
  · refine ⟨consumed, some packet, others, packet.payload, ?_⟩
    rw [hremoved]
    exact hrest.running ⟨packet, rfl, rfl, rfl, rfl, rfl, Nat.not_lt.mp hshort⟩

/-- The read of a frame: the first bytes of the payload go into the current slot. -/
theorem Sound.readFrame (hsound : Sound width height s consumed current complete unread)
    {pts : UInt64} {nbytes : ℕ} (hpc : s.decoding = some (.readFrame pts nbytes)) :
    ∃ next consumed' current' unread',
      s.decoder.advanceDecode (.readFrame pts nbytes) = some next ∧ Sound width height
        (s.afterDecode (s.bytesRead ++ removed s.decoder.packets next.1.packets) next) consumed'
          current' complete unread' := by
  have hphase := hsound.decoding
  rw [hpc] at hphase
  obtain ⟨packet, rfl, hread, rfl, rfl, rfl, hlong⟩ := hphase
  have hfits : packetLayout.Fits packet := hsound.fits packet (by rw [hsound.accepted_eq]; simp)
  have hframe := hsound.frameBytes_eq
  have hslot : i420Size width height < 2 ^ 62 →
      s.decoder.slotOffset + i420Size width height ≤ s.decoder.frames.size := hsound.slot_inPool
  have hsmall : i420Size width height < 2 ^ 62 := by
    have hlt := headerNbytes_lt packet.header
    rw [show headerNbytes packet.header = packet.payload.length from hfits.bodyLength_eq] at hlt
    unfold word32 at hlt
    omega
  have hdata := hsound.take_stored hlong
  obtain ⟨-, -, hstored, hresult⟩ := hsound.valid.read (i420Size width height)
  have hdataLength : (packet.payload.take (i420Size width height)).length =
      i420Size width height := by
    rw [List.length_take, min_eq_left hlong]
  rw [hdata, min_eq_left (hlong.trans hsound.length_unread_le)] at hresult
  have hcopy : s.decoder.frames.copyIn s.decoder.slotOffset
      (packet.payload.take (i420Size width height)) =
        some ⟨s.decoder.frames.size, splice s.decoder.frames.bytes s.decoder.slotOffset
          (packet.payload.take (i420Size width height))⟩ :=
    if_pos (by rw [hdataLength]; exact hslot hsmall)
  have hcontents := cells_splice_self s.decoder.frames.bytes s.decoder.slotOffset
    (packet.payload.take (i420Size width height))
  rw [hdataLength] at hcontents
  generalize hframes : (⟨s.decoder.frames.size, splice s.decoder.frames.bytes s.decoder.slotOffset
    (packet.payload.take (i420Size width height))⟩ : FramePool) = frames at hcopy
  have hrest : Framed width height
      { s with decoder :=
        { s.decoder with
          packets := (s.decoder.packets.read (i420Size width height)).1, frames := frames } }
      consumed (some packet) complete (packet.payload.drop (i420Size width height)) := by
    subst hframes
    exact { hsound.read hlong with }
  have hwhole : packet.header ++ packet.payload.take (i420Size width height) ++
      packet.payload.drop (i420Size width height) = packet.encode := by
    rw [List.append_assoc, List.take_append_drop]
    rfl
  obtain ⟨consumed', current', unread', hdrained⟩ := hrest.drainBytes
    (List.append_ne_nil_of_left_ne_nil packet.header_ne_nil _) hwhole
    (show DecodePhase.Pending (i420Size width height) _ packet (some packet.pts) from
      ⟨rfl, hlong, by rw [← hframes]; exact hcontents⟩)
  rw [List.length_drop] at hdrained
  refine ⟨VideoDecoderStub.drainBytes
      { s.decoder with
        packets := (s.decoder.packets.read (i420Size width height)).1, frames := frames }
      (packet.payload.length - i420Size width height) (some packet.pts), consumed', current',
    unread', ?_, ?_⟩
  · simp only [VideoDecoderStub.advanceDecode, hframe, hresult, hcopy, Option.map_some, ne_eq,
      not_true_eq_false, if_false]
    rw [VideoDecoderStub.drainBytes_some]
  · rw [VideoDecoderStub.packets_drainBytes, hread, removed_eq hstored, hdata]
    exact hdrained

/-- A round of `drain_bytes`. -/
theorem Sound.drain (hsound : Sound width height s consumed current complete unread)
    {bytes : ℕ} {pending : Option UInt64} (hpc : s.decoding = some (.drain bytes pending))
    {next : VideoDecoderStub.DecodeStep}
    (hnext : s.decoder.advanceDecode (.drain bytes pending) = some next) :
    ∃ consumed' current' unread', Sound width height
      (s.afterDecode (s.bytesRead ++ removed s.decoder.packets next.1.packets) next) consumed'
        current' complete unread' := by
  have hphase := hsound.decoding
  rw [hpc] at hphase
  obtain ⟨packet, rfl, hstarted, hread, rfl, hpos, hpending⟩ := hphase
  generalize hn : (if unread.length < 64 then unread.length else 64) = n at *
  have hle : n ≤ unread.length := by
    rw [← hn]
    split_ifs <;> omega
  have hsome : 0 < n := by
    rw [← hn]
    split_ifs <;> omega
  have hrest := hsound.read hle
  obtain ⟨-, -, hstored, hresult⟩ := hsound.valid.read n
  rw [min_eq_left (hle.trans hsound.length_unread_le)] at hresult
  simp only [VideoDecoderStub.advanceDecode, hn, hresult, Option.some.injEq,
    if_neg (Nat.ne_of_gt hsome)] at hnext
  subst hnext
  have hwhole : s.bytesRead ++ unread.take n ++ unread.drop n = packet.encode := by
    rw [List.append_assoc, List.take_append_drop, hread]
  have hdrained :=
    hrest.drainBytes (List.append_ne_nil_of_left_ne_nil hstarted _) hwhole hpending
  rw [List.length_drop] at hdrained
  rw [VideoDecoderStub.packets_drainBytes, removed_eq hstored, hsound.take_stored hle]
  exact hdrained

/-- The next step of a decode is always possible and keeps the invariant. -/
theorem Sound.advanceDecode (hsound : Sound width height s consumed current complete unread)
    {pc : VideoDecoderStub.DecodePc} (hpc : s.decoding = some pc) :
    ∃ next consumed' current' complete' unread', s.decoder.advanceDecode pc = some next ∧
      Sound width height
        (s.afterDecode (s.bytesRead ++ removed s.decoder.packets next.1.packets) next) consumed'
          current' complete' unread' := by
  have hphase := hsound.decoding
  rw [hpc] at hphase
  cases pc with
  | peek =>
    obtain ⟨hring, hnext⟩ := hsound.peek hpc rfl
    refine ⟨_, consumed, current, complete, unread, rfl, ?_⟩
    rw [hring, removed_self, hphase.1.bytesRead_eq]
    exact hnext
  | checkSize hdr =>
    obtain ⟨hring, hnext⟩ := hsound.checkSize hpc rfl
    refine ⟨_, consumed, current, complete, unread, rfl, ?_⟩
    rw [hring, removed_self, hphase.1.bytesRead_eq]
    exact hnext
  | readHeader pts nbytes =>
    obtain ⟨consumed', current', complete', unread', hnext⟩ := hsound.readHeader hpc rfl
    exact ⟨_, consumed', current', complete', unread', rfl, hnext⟩
  | readFrame pts nbytes =>
    obtain ⟨next, consumed', current', unread', hnext, hnextSound⟩ := hsound.readFrame hpc
    exact ⟨next, consumed', current', complete, unread', hnext, hnextSound⟩
  | drain bytes pending =>
    obtain ⟨consumed', current', unread', hnext⟩ := hsound.drain hpc rfl
    exact ⟨_, consumed', current', complete, unread', rfl, hnext⟩

/-! ### Runs -/

/-- The step lemma. -/
theorem step_sound (hsound : Sound width height s consumed current complete unread)
    {action : StreamAction} {next : PacketStream} (hguard : payloadsInMemory s action)
    (hnext : streamStep s action = some next) :
    ∃ consumed' current' complete' unread',
      Sound width height next consumed' current' complete' unread' := by
  cases action with
  | push packet =>
    cases hpushing : s.pushing with
    | none =>
      simp only [streamStep, hpushing, Option.some.injEq] at hnext
      exact ⟨consumed, current, complete, unread, hnext ▸ hsound.push hpushing hguard⟩
    | some pc => simp only [streamStep, hpushing, reduceCtorEq] at hnext
  | advancePush =>
    cases hpushing : s.pushing with
    | none => simp only [streamStep, hpushing, reduceCtorEq] at hnext
    | some pc =>
      simp only [streamStep, hpushing, Option.some.injEq] at hnext
      obtain ⟨complete', hpushed⟩ := hsound.advancePush hpushing
      exact ⟨consumed, current, complete', unread, hnext ▸ hpushed⟩
  | decode =>
    cases hdecoding : s.decoding with
    | none =>
      simp only [streamStep, hdecoding, Option.map_eq_some_iff] at hnext
      obtain ⟨step, hstep, rfl⟩ := hnext
      exact ⟨consumed, current, complete, unread, hsound.decode hdecoding hstep⟩
    | some pc => simp only [streamStep, hdecoding, reduceCtorEq] at hnext
  | advanceDecode =>
    cases hdecoding : s.decoding with
    | none => simp only [streamStep, hdecoding, reduceCtorEq] at hnext
    | some pc =>
      obtain ⟨step, consumed', current', complete', unread', hstep, hadvanced⟩ :=
        hsound.advanceDecode hdecoding
      simp only [streamStep, hdecoding, hstep, Option.map_some, Option.some.injEq] at hnext
      exact ⟨consumed', current', complete', unread', hnext ▸ hadvanced⟩

/-- A newly opened decoder. -/
theorem initial_sound (memory : ℕ → UInt8) {width height : ℕ}
    (hopen : ((VideoDecoderStub.create memory).openPattern width height).2 = true) :
    Sound width height
      (.initial ((VideoDecoderStub.create memory).openPattern width height).1) [] none [] [] := by
  have hring := ZeroCopyRing.create_represents (show 1 <<< 16 ≤ 2 ^ 63 by decide) memory
  have hstored : (ZeroCopyRing.create (1 <<< 16) memory).stored = [] :=
    (congrArg ByteQueue.stored hring.eq).symm
  have hcapacity : (ZeroCopyRing.create (1 <<< 16) memory).capacity = 2 ^ 16 :=
    show nextPow2 (1 <<< 16) = 2 ^ 16 by decide
  unfold VideoDecoderStub.openPattern at hopen ⊢
  split_ifs at hopen ⊢ with hrefused
  refine ⟨⟨hring.valid, hcapacity, rfl, rfl, ?_, Nat.zero_lt_succ 2, rfl, ?_, ?_, rfl, ?_, .nil⟩,
    ⟨rfl, rfl, rfl⟩⟩
  · exact congrArg (· * VideoDecoderStub.kFrameSlots % word64)
      (VideoDecoderStub.frameBytes_eq _)
  · exact hstored
  · intro packet hpacket
    exact absurd hpacket List.not_mem_nil
  · intro record hrecord
    exact absurd hrecord List.not_mem_nil

end PacketStream

/-- An upper bound on the number of steps that a decode still takes. -/
def VideoDecoderStub.DecodePc.remaining : VideoDecoderStub.DecodePc → ℕ
  | .peek => word32 + 4
  | .checkSize hdr => headerNbytes hdr + 4
  | .readHeader _ nbytes => nbytes + 3
  | .readFrame _ nbytes => nbytes + 2
  | .drain bytes _ => bytes + 1

namespace VideoDecoderStub

/-- After its last read a decode returns. -/
theorem afterDrain_ne_running (decoder : VideoDecoderStub) (pending : Option UInt64)
    (pc : DecodePc) : (decoder.afterDrain pending).2 ≠ .running pc := by
  intro hrunning
  cases pending <;> cases hrunning

theorem remaining_drainBytes {decoder : VideoDecoderStub} {bytes : ℕ} {pending : Option UInt64}
    {pc : DecodePc} (hrunning : (decoder.drainBytes bytes pending).2 = .running pc) :
    0 < bytes ∧ pc.remaining = bytes + 1 := by
  unfold drainBytes at hrunning
  split_ifs at hrunning with hmore
  · cases hrunning
    exact ⟨hmore, rfl⟩
  · exact absurd hrunning (afterDrain_ne_running _ _ _)

/-- Every step of a decode brings it closer to its return. -/
theorem remaining_advanceDecode {decoder : VideoDecoderStub} {pc pc' : DecodePc}
    {next : DecodeStep} (hnext : decoder.advanceDecode pc = some next)
    (hrunning : next.2 = .running pc') : pc'.remaining < pc.remaining := by
  cases pc with
  | peek =>
    simp only [advanceDecode, Option.some.injEq] at hnext
    subst hnext
    split_ifs at hrunning
    · exact absurd hrunning (afterDrain_ne_running _ none _)
    · cases hrunning
      exact Nat.add_lt_add_right (headerNbytes_lt _) 4
  | checkSize hdr =>
    simp only [advanceDecode, Option.some.injEq] at hnext
    subst hnext
    split_ifs at hrunning
    · exact absurd hrunning (afterDrain_ne_running _ none _)
    · cases hrunning
      exact Nat.add_lt_add_left (by decide) _
  | readHeader pts nbytes =>
    simp only [advanceDecode, Option.some.injEq] at hnext
    subst hnext
    split_ifs at hrunning
    · rw [(remaining_drainBytes hrunning).2]
      exact Nat.add_lt_add_left (by decide) _
    · cases hrunning
      exact Nat.add_lt_add_left (by decide) _
  | readFrame pts nbytes =>
    simp only [advanceDecode, Option.map_eq_some_iff] at hnext
    obtain ⟨frames, -, rfl⟩ := hnext
    split_ifs at hrunning
    · exact absurd hrunning (afterDrain_ne_running _ none _)
    · rw [(remaining_drainBytes hrunning).2]
      change nbytes - _ + 1 < nbytes + 2
      omega
    · exact absurd hrunning (afterDrain_ne_running _ (some pts) _)
  | drain bytes pending =>
    simp only [advanceDecode, Option.some.injEq] at hnext
    subst hnext
    generalize decoder.packets.read _ = result at hrunning
    split_ifs at hrunning with hgot
    · exact absurd hrunning (afterDrain_ne_running _ _ _)
    · obtain ⟨hmore, hremaining⟩ := remaining_drainBytes hrunning
      rw [hremaining]
      exact Nat.add_lt_add_right (Nat.sub_lt (by omega) (Nat.pos_of_ne_zero hgot)) 1

end VideoDecoderStub

/-! ### Results -/

namespace PacketStream

/-- Every state of a run from a newly opened decoder is sound. -/
theorem sound_of_reaches (memory : ℕ → UInt8) {width height : ℕ}
    (hopen : ((VideoDecoderStub.create memory).openPattern width height).2 = true)
    {s : PacketStream} (hreach : streamSystem.Reaches payloadsInMemory
      (.initial ((VideoDecoderStub.create memory).openPattern width height).1) s) :
    ∃ consumed current complete unread,
      Sound width height s consumed current complete unread := by
  refine hreach.invariant ⟨[], none, [], [], initial_sound memory hopen⟩ ?_
  rintro state action next ⟨consumed, current, complete, unread, hsound⟩ hguard hnext
  exact step_sound hsound hguard hnext

/-- The bytes that the decode in progress has taken out of the queue and those left of its packet
make up the packet that it is consuming. -/
theorem Sound.read_append_unread {width height : ℕ} {s : PacketStream}
    {consumed complete : List Packet} {current : Option Packet} {unread : List UInt8}
    (hsound : Sound width height s consumed current complete unread) :
    s.bytesRead ++ unread = current.toList.flatMap Packet.encode ∧
      (s.bytesRead = [] → current = none) := by
  have huntouched : Untouched s.bytesRead current unread →
      s.bytesRead ++ unread = current.toList.flatMap Packet.encode ∧
        (s.bytesRead = [] → current = none) := by
    rintro ⟨hread, rfl, rfl⟩
    exact ⟨by rw [hread]; rfl, fun _ ↦ rfl⟩
  have hphase := hsound.decoding
  match hpc : s.decoding with
  | none =>
    rw [hpc] at hphase
    exact huntouched hphase
  | some .peek | some (.checkSize _) | some (.readHeader _ _) =>
    rw [hpc] at hphase
    exact huntouched hphase.1
  | some (.readFrame pts nbytes) =>
    rw [hpc] at hphase
    obtain ⟨packet, rfl, hread, rfl, -⟩ := hphase
    rw [hread, Option.toList_some, List.flatMap_singleton]
    exact ⟨rfl, fun hnil ↦ absurd hnil packet.header_ne_nil⟩
  | some (.drain bytes pending) =>
    rw [hpc] at hphase
    obtain ⟨packet, rfl, hstarted, hread, -⟩ := hphase
    rw [hread, Option.toList_some, List.flatMap_singleton]
    exact ⟨rfl, fun hnil ↦ absurd hnil hstarted⟩

/-- What an unfinished push has put into the queue: nothing, or the header of its packet. -/
theorem Framed.bytesWritten_eq {width height : ℕ} {s : PacketStream}
    {consumed complete : List Packet} {current : Option Packet} {unread : List UInt8}
    (hframed : Framed width height s consumed current complete unread) :
    s.bytesWritten = [] ∨
      ∃ packet, s.pushing = some (.writePayload packet) ∧ s.bytesWritten = packet.header := by
  have hphase := hframed.pushing
  match hpc : s.pushing with
  | none =>
    rw [hpc] at hphase
    exact Or.inl hphase
  | some (.writeHeader packet) =>
    rw [hpc] at hphase
    exact Or.inl hphase.1
  | some (.writePayload packet) =>
    rw [hpc] at hphase
    exact Or.inr ⟨packet, rfl, hphase.1⟩

/-- A decode in progress can take its next step, and that brings it closer to its return. -/
theorem Sound.progress {width height : ℕ} {s : PacketStream}
    {consumed complete : List Packet} {current : Option Packet} {unread : List UInt8}
    (hsound : Sound width height s consumed current complete unread)
    {pc : VideoDecoderStub.DecodePc} (hpc : s.decoding = some pc) :
    ∃ next, streamStep s .advanceDecode = some next ∧
      ∀ pc', next.decoding = some pc' → pc'.remaining < pc.remaining := by
  obtain ⟨step, -, -, -, -, hstep, -⟩ := hsound.advanceDecode hpc
  refine ⟨s.afterDecode (s.bytesRead ++ removed s.decoder.packets step.1.packets) step,
    by simp only [streamStep, hpc, hstep, Option.map_some], fun pc' hpc' ↦ ?_⟩
  refine VideoDecoderStub.remaining_advanceDecode hstep ?_
  cases hresult : step.2 with
  | running other =>
    simp only [afterDecode, hresult, Option.some.injEq] at hpc'
    rw [hpc']
  | returned result => simp only [afterDecode, hresult, reduceCtorEq] at hpc'

/-- A decode can always start: drawing the pattern stays in the frame pool. Assumes: the dimensions
are even, and the exact frame size is below `2 ^ 62`. -/
theorem Sound.decode_defined {width height : ℕ} {s : PacketStream}
    {consumed complete : List Packet} {current : Option Packet} {unread : List UInt8}
    (hsound : Sound width height s consumed current complete unread) (hidle : s.decoding = none)
    (hwidth : width % 2 = 0) (hheight : height % 2 = 0)
    (hexact : width * height * 3 / 2 < 2 ^ 62) : ∃ next, streamStep s .decode = some next := by
  have hwrites := @VideoDecoderStub.patternWrites_lt s.decoder (by rwa [hsound.width_eq])
    (by rwa [hsound.height_eq]) (by rwa [hsound.width_eq, hsound.height_eq])
  rw [hsound.width_eq, hsound.height_eq] at hwrites
  have hsize := (VideoDecoderStub.i420Size_of_exact hexact).2
  have hslot := hsound.slot_inPool (by omega)
  have hpool : ∀ write ∈ s.decoder.patternWrites,
      s.decoder.slotOffset + write.1 < s.decoder.frames.size := fun write hwrite ↦
    lt_of_lt_of_le (Nat.add_lt_add_left (hwrites write hwrite) _) hslot
  simp only [streamStep, hidle, VideoDecoderStub.decodeNext, VideoDecoderStub.fillPattern,
    FramePool.store, if_pos hpool, Option.map_some]
  split_ifs <;> exact ⟨_, rfl⟩

/-- A decode whose first packet is not complete fails and leaves everything but the record of it as
it was. -/
theorem Sound.checkSize_incomplete {width height : ℕ} {s : PacketStream} {consumed : List Packet}
    {current : Option Packet} {unread : List UInt8}
    (hsound : Sound width height s consumed current [] unread) {hdr : List UInt8}
    (hpc : s.decoding = some (.checkSize hdr)) :
    streamStep s .advanceDecode = some
      { s with decoding := none, decodes := s.decodes ++ [⟨[], ⟨false, .null⟩, []⟩] } := by
  have hphase := hsound.decoding
  rw [hpc] at hphase
  obtain ⟨⟨hread, rfl, rfl⟩, hheader, rfl⟩ := hphase
  have hshort : s.decoder.packets.size <
      headerBytes + headerNbytes (s.decoder.packets.stored.take headerBytes) := by
    by_contra hlong
    rw [Nat.not_lt, ← ZeroCopyRing.length_stored] at hlong
    obtain ⟨packet, others, hcomplete, -⟩ := hsound.consume hlong
    exact absurd hcomplete (List.cons_ne_nil _ _).symm
  simp only [streamStep, hpc, VideoDecoderStub.advanceDecode, if_pos hshort, Option.map_some,
    VideoDecoderStub.failed, removed_self, List.append_nil, hread]
  rfl

end PacketStream

open PacketStream

/-- The queue of a 2 by 2 decoder in the middle of the decode of a one-byte packet: no push is in
progress, and the single queued byte is no sequence of complete packets. -/
theorem queued_not_packets : ¬ ∀ s, streamSystem.Reaches payloadsInMemory
    (.initial ((VideoDecoderStub.create fun _ ↦ 0).openPattern 2 2).1) s →
      ∃ (complete : List Packet) (rest : List UInt8),
        s.decoder.packets.stored = complete.flatMap Packet.encode ++ rest ∧
        (∀ packet ∈ complete, packet ∈ s.accepted) ∧ (s.pushing = none → rest = []) := by
  intro hall
  obtain ⟨s, hreach, htest⟩ := TransitionSystem.Reaches.exists_of_any streamSystem
    (.initial ((VideoDecoderStub.create fun _ ↦ 0).openPattern 2 2).1)
    [.push ⟨42, [7]⟩, .advancePush, .advancePush, .decode, .advanceDecode, .advanceDecode,
      .advanceDecode]
    (fun s action ↦ payloadsInMemory s action)
    (fun s ↦ s.decoder.packets.stored = [7] ∧ s.pushing = none)
    (fun _ _ hguard ↦ of_decide_eq_true hguard) (by decide) (by decide)
  obtain ⟨hstored, hidle⟩ := of_decide_eq_true htest
  obtain ⟨complete, rest, hsplit, -, hrest⟩ := hall s hreach
  rw [hstored, hrest hidle, List.append_nil] at hsplit
  have hlength := congrArg List.length hsplit
  cases complete with
  | nil => exact absurd hlength (by decide)
  | cons packet others =>
    rw [List.flatMap_cons, List.length_append, Packet.length_encode] at hlength
    unfold headerBytes at hlength
    simp only [List.length_singleton] at hlength
    omega

/-- Packets between one pusher and one decoder, in every reachable state. The accepted packets are
those consumed, then the one that the decode in progress is consuming, if any, then those complete
in the queue. The queued bytes are what is left of the second, then the third, then the header of
the packet being pushed, if it is written. A push that returned false has written nothing, one that
returned true its whole packet. The decodes that have taken bytes out of the queue have, in this
order, consumed one packet each and returned what it yields. A decode in progress always reaches its
return, one can always start where the frame size does not wrap, and one that meets a packet that is
not complete fails and consumes nothing. -/
theorem packets_framed (memory : ℕ → UInt8) {width height : ℕ}
    (hopen : ((VideoDecoderStub.create memory).openPattern width height).2 = true)
    {s : PacketStream} (hreach : streamSystem.Reaches payloadsInMemory
      (.initial ((VideoDecoderStub.create memory).openPattern width height).1) s) :
    ∃ consumed current complete unread,
      s.accepted = consumed ++ current.toList ++ complete ∧
      s.decoder.packets.stored = unread ++ complete.flatMap Packet.encode ++ s.bytesWritten ∧
      s.bytesRead ++ unread = current.toList.flatMap Packet.encode ∧
      (s.bytesRead = [] → current = none) ∧
      (s.decoding = none → s.bytesRead = []) ∧
      (s.bytesWritten = [] ∨
        ∃ packet, s.pushing = some (.writePayload packet) ∧ s.bytesWritten = packet.header) ∧
      (∀ record ∈ s.pushes,
        record.written = if record.accepted then record.packet.encode else []) ∧
      List.Forall₂ (Yields (i420Size width height)) consumed (s.decodes.filter (·.consuming)) ∧
      (∀ pc, s.decoding = some pc → ∃ next, streamStep s .advanceDecode = some next ∧
        ∀ pc', next.decoding = some pc' → pc'.remaining < pc.remaining) ∧
      (width * height * 3 / 2 < 2 ^ 62 → s.decoding = none →
        ∃ next, streamStep s .decode = some next) ∧
      (∀ hdr, s.decoding = some (.checkSize hdr) → complete = [] →
        streamStep s .advanceDecode = some
          { s with decoding := none, decodes := s.decodes ++ [⟨[], ⟨false, .null⟩, []⟩] }) := by
  obtain ⟨consumed, current, complete, unread, hsound⟩ := sound_of_reaches memory hopen hreach
  refine ⟨consumed, current, complete, unread, hsound.accepted_eq, hsound.stored_eq,
    hsound.read_append_unread.1, hsound.read_append_unread.2, ?_, hsound.bytesWritten_eq,
    hsound.pushes, hsound.decodes, fun pc hpc ↦ hsound.progress hpc, ?_, ?_⟩
  · exact fun hidle ↦ (hsound.untouched hidle).bytesRead_eq
  · intro hexact hidle
    obtain ⟨hwidth, hheight⟩ := VideoDecoderStub.even_of_openPattern hopen
    exact hsound.decode_defined hidle hwidth hheight hexact
  · rintro hdr hpc rfl
    exact hsound.checkSize_incomplete hpc

/-- The theorem at a 2 by 2 decoder: the first of two packets is decoded while the second is being
pushed, and the second decode meets the second packet before its payload is written. -/
theorem packets_framed_overlapping : ∃ s : PacketStream,
    s.accepted = [⟨42, [1, 2, 3, 4, 5, 6, 7]⟩] ∧ s.bytesWritten.length = 12 ∧
    s.decodes.map (·.result.decoded) = [true, false] ∧
    ∃ consumed, List.Forall₂ (Yields (i420Size 2 2)) consumed (s.decodes.filter (·.consuming)) := by
  obtain ⟨s, hreach, htest⟩ := TransitionSystem.Reaches.exists_of_any streamSystem
    (.initial ((VideoDecoderStub.create fun _ ↦ 0).openPattern 2 2).1)
    [.push ⟨42, [1, 2, 3, 4, 5, 6, 7]⟩, .advancePush, .decode, .advancePush, .advanceDecode,
      .advanceDecode, .advanceDecode, .push ⟨43, [8]⟩, .advanceDecode, .advancePush, .advanceDecode,
      .decode, .advanceDecode, .advanceDecode]
    (fun s action ↦ payloadsInMemory s action)
    (fun s ↦ s.accepted = [⟨42, [1, 2, 3, 4, 5, 6, 7]⟩] ∧ s.bytesWritten.length = 12 ∧
      s.decodes.map (·.result.decoded) = [true, false])
    (fun _ _ hguard ↦ of_decide_eq_true hguard) (by decide) (by decide)
  obtain ⟨haccepted, hwritten, hdecoded⟩ := of_decide_eq_true htest
  obtain ⟨consumed, _, _, _, -, -, -, -, -, -, -, hyields, -⟩ :=
    packets_framed (fun _ ↦ 0) (by decide) hreach
  exact ⟨s, haccepted, hwritten, hdecoded, consumed, hyields⟩

end GameEngine.Multimedia
