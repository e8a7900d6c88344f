import GameEngine.Library.TransitionSystem
import GameEngine.Multimedia.RingRefinement
import GameEngine.Multimedia.VideoDecoder

/-!
# Whole calls to the video decoder

With one thread every call to the decoder runs to its return before the next one starts. `push` and
`decode` are the steps of `push_packet` and `decode_next` one after the other; `openUri` and `close`
are the calls that touch no packet. `push_eq` and `decode_eq` say what the whole calls do, as
functions of the decoder and the queued bytes. The ring enters only through its stored bytes and its
free space, so that two decoders that differ in the positions of their rings do the same.
-/

set_option autoImplicit false
set_option relaxedAutoImplicit false

namespace GameEngine.Multimedia

open GameEngine.Library GameEngine.Library.MachineWord

namespace VideoDecoderStub

/-! ### The calls -/

/-- A call from one of its points to its return, in a number of rounds. -/
def complete {Pc Result : Type}
    (advance : VideoDecoderStub → Pc → Option (VideoDecoderStub × CallStep Pc Result)) :
    ℕ → VideoDecoderStub × CallStep Pc Result → Option (VideoDecoderStub × Result)
  | _, (decoder, .returned result) => some (decoder, result)
  | 0, (_, .running _) => none
  | rounds + 1, (decoder, .running pc) => (advance decoder pc).bind (complete advance rounds)

/-- `push_packet`, which touches the ring twice. -/
def push (decoder : VideoDecoderStub) (packet : Packet) : Option (VideoDecoderStub × Bool) :=
  complete (fun decoder pc ↦ some (decoder.advancePush pc)) 2 (decoder, decoder.pushPacket packet)

/-- `decode_next`. Every round of the loop of `drain_bytes` takes a byte out of the ring, and there
are four other steps. -/
def decode (decoder : VideoDecoderStub) : Option (VideoDecoderStub × DecodeResult) :=
  decoder.decodeNext.bind (complete advanceDecode (decoder.packets.size + 4))

/-- `close`. -/
def close (decoder : VideoDecoderStub) : VideoDecoderStub :=
  { decoder with isOpen := false, pattern := false, width := 0, height := 0, frames := .assign 0 }

/-- The dimensions for which `open` opens a pattern. A null pointer is `none`. -/
def uriDimensions : Option String → Option (ℕ × ℕ)
  | none => none
  | some uri =>
    if uri = "" then none
    else if uri.toList.take 7 = "pattern".toList then some (64, 48)
    else some (16, 16)

/-- `open`. -/
def openUri (decoder : VideoDecoderStub) (uri : Option String) : VideoDecoderStub × Bool :=
  match uriDimensions uri with
  | none => (decoder.close, false)
  | some (width, height) => decoder.close.openPattern width height

/-- The decoder after an exception of the allocation in `setup_buffers`, which leaves `frames` in
the member `frames_`. -/
def openPatternThrow (decoder : VideoDecoderStub) (width height : ℕ) (frames : FramePool) :
    VideoDecoderStub :=
  if width < 2 ∨ height < 2 ∨ width % 2 ≠ 0 ∨ height % 2 ≠ 0 then decoder
  else
    { decoder with
      isOpen := true, pattern := true, width := width, height := height, frames := frames }

/-- The two calls that use the packet queue. -/
inductive StreamCall
  | push (packet : Packet)
  | decode
deriving DecidableEq

/-- What such a call returns, with the bytes of a returned frame. -/
inductive StreamResult
  | pushed (accepted : Bool)
  | decoded (result : DecodeResult) (contents : List UInt8)
deriving DecidableEq, Repr

/-- One such call. -/
def performStream (decoder : VideoDecoderStub) :
    StreamCall → Option (VideoDecoderStub × StreamResult)
  | .push packet => (decoder.push packet).map fun next ↦ (next.1, .pushed next.2)
  | .decode => decoder.decode.map fun next ↦
      (next.1, .decoded next.2 (frameContents next.1 next.2.out))

/-- What a list of such calls returns. -/
def outcomes : VideoDecoderStub → List StreamCall → Option (List StreamResult)
  | _, [] => some []
  | decoder, call :: rest =>
    (decoder.performStream call).bind fun next ↦ (outcomes next.1 rest).map (next.2 :: ·)

/-- A call to the decoder. -/
inductive DecoderCall
  | openUri (uri : Option String)
  | openPattern (width height : ℕ)
  | openUriThrow (uri : Option String) (frames : FramePool)
  | openPatternThrow (width height : ℕ) (frames : FramePool)
  | close
  | stream (call : StreamCall)

/-- The decoder after a call. -/
def performCall (decoder : VideoDecoderStub) : DecoderCall → Option VideoDecoderStub
  | .openUri uri => some (decoder.openUri uri).1
  | .openPattern width height => some (decoder.openPattern width height).1
  | .openUriThrow uri frames =>
    some ((uriDimensions uri).elim decoder.close fun dimensions ↦
      decoder.close.openPatternThrow dimensions.1 dimensions.2 frames)
  | .openPatternThrow width height frames => some (decoder.openPatternThrow width height frames)
  | .close => some decoder.close
  | .stream call => (decoder.performStream call).map Prod.fst

/-- The decoder as a transition system. -/
def decoderSystem : TransitionSystem VideoDecoderStub DecoderCall := ⟨performCall⟩

/-- A call that does not open or close the decoder. -/
def DecoderCall.isStream : DecoderCall → Bool
  | .stream _ => true
  | _ => false

/-! ### What a push does -/

/-- A ring into which bytes have been put. -/
structure Appended (ring ring' : ZeroCopyRing) (data : List UInt8) : Prop where
  valid : ring'.Valid
  capacity_eq : ring'.capacity = ring.capacity
  stored_eq : ring'.stored = ring.stored ++ data

/-- What a whole `push_packet` puts into a queue with some free space, and what it returns. -/
def pushOn (decoder : VideoDecoderStub) (free : ℕ) (packet : Packet) : List UInt8 × Bool :=
  if !decoder.isOpen ∨ packet.payload.length = 0 then ([], false)
  else if free < addMod word64 headerBytes packet.payload.length then ([], false)
  else if free < headerBytes then (packet.header.take free, false)
  else (packet.header ++ packet.payload.take (free - headerBytes),
    decide (packet.payload.length ≤ free - headerBytes))

/-- A whole push. Assumes: the ring is valid. -/
theorem push_eq {decoder : VideoDecoderStub} (hvalid : decoder.packets.Valid) (packet : Packet) :
    ∃ packets,
      Appended decoder.packets packets (decoder.pushOn decoder.packets.freeSpace packet).1 ∧
      decoder.push packet = some ({ decoder with packets := packets },
        (decoder.pushOn decoder.packets.freeSpace packet).2) := by
  have hsame : Appended decoder.packets decoder.packets [] := ⟨hvalid, rfl, by simp⟩
  unfold push pushPacket pushOn
  dsimp only
  split_ifs with hrefused hroom hheader
  · exact ⟨_, hsame, rfl⟩
  · exact ⟨_, hsame, rfl⟩
  · obtain ⟨hnext, hcapacity, hstored, hcount⟩ := hvalid.write_clamped packet.header
    refine ⟨_, ⟨hnext, hcapacity, hstored⟩, ?_⟩
    rw [Packet.length_header, min_eq_right hheader.le] at hcount
    simp [complete, advancePush, hcount, hheader.ne]
  · obtain ⟨hfirst, hcapacity, hstored, hcount⟩ := hvalid.write_clamped packet.header
    have hfits : packet.header.take decoder.packets.freeSpace = packet.header :=
      List.take_of_length_le (by rw [Packet.length_header]; omega)
    rw [Packet.length_header, min_eq_left (Nat.le_of_not_lt hheader)] at hcount
    rw [hfits] at hstored
    obtain ⟨hsecond, hcapacity', hstored', hcount'⟩ := hfirst.write_clamped packet.payload
    have hfree : (decoder.packets.write packet.header).1.freeSpace =
        decoder.packets.freeSpace - headerBytes := by
      have hlength := congrArg List.length hstored
      rw [ZeroCopyRing.length_stored, List.length_append, ZeroCopyRing.length_stored,
        Packet.length_header] at hlength
      rw [hfirst.freeSpace_eq, hvalid.freeSpace_eq, hcapacity, hlength, Nat.sub_sub]
    rw [hfree] at hstored' hcount'
    refine ⟨_, ⟨hsecond, hcapacity'.trans hcapacity, ?_⟩, ?_⟩
    · rw [hstored', hstored, List.append_assoc]
    · have hall : (min packet.payload.length (decoder.packets.freeSpace - headerBytes) ==
          packet.payload.length) =
          decide (packet.payload.length ≤ decoder.packets.freeSpace - headerBytes) := by
        rw [Bool.eq_iff_iff, beq_iff_eq, decide_eq_true_iff, min_eq_left_iff]
      simp [complete, advancePush, hcount, hcount', hall]

/-! ### What a decode does -/

/-- A ring out of which bytes have been taken. -/
structure Consumed (ring ring' : ZeroCopyRing) (count : ℕ) : Prop where
  valid : ring'.Valid
  capacity_eq : ring'.capacity = ring.capacity
  stored_eq : ring'.stored = ring.stored.drop count

theorem Consumed.refl {ring : ZeroCopyRing} (hvalid : ring.Valid) : Consumed ring ring 0 :=
  ⟨hvalid, rfl, rfl⟩

theorem Consumed.read {ring : ZeroCopyRing} (hvalid : ring.Valid) (count : ℕ) :
    Consumed ring (ring.read count).1 count := by
  obtain ⟨hnext, hcapacity, hstored, -⟩ := hvalid.read count
  exact ⟨hnext, hcapacity, hstored⟩

theorem Consumed.trans {first second third : ZeroCopyRing} {count count' : ℕ}
    (hfirst : Consumed first second count) (hsecond : Consumed second third count') :
    Consumed first third (count + count') := by
  refine ⟨hsecond.valid, hsecond.capacity_eq.trans hfirst.capacity_eq, ?_⟩
  rw [hsecond.stored_eq, hfirst.stored_eq, List.drop_drop]

/-- A failed decode. -/
abbrev failure (decoder : VideoDecoderStub) : VideoDecoderStub × DecodeResult :=
  (decoder, ⟨false, .null⟩)

/-- A decode that returns the frame in the current slot, where the pool is as given. -/
def served (decoder : VideoDecoderStub) (pts : UInt64) (frames : FramePool) :
    VideoDecoderStub × DecodeResult :=
  ({ decoder with
      frames := frames
      slot := (decoder.slot + 1) % kFrameSlots
      framesDecoded := addMod word64 decoder.framesDecoded 1 },
    ⟨true, decoder.frameInSlot pts⟩)

/-- What a whole `decode_next` does with the queued bytes: how many it takes out of the queue, and
the decoder without this change of the queue, with what is returned. -/
def decodeOn (decoder : VideoDecoderStub) (queued : List UInt8) :
    ℕ × Option (VideoDecoderStub × DecodeResult) :=
  if !decoder.isOpen ∨ decoder.frames.size = 0 then (0, some decoder.failure)
  else if headerBytes ≤ queued.length then
    let hdr := queued.take headerBytes
    let total := headerBytes + headerNbytes hdr
    if queued.length < total then (0, some decoder.failure)
    else if headerNbytes hdr < decoder.frameBytes then (total, some decoder.failure)
    else
      (total, (decoder.frames.copyIn decoder.slotOffset
        ((queued.drop headerBytes).take decoder.frameBytes)).map (decoder.served (headerPts hdr)))
  else if !decoder.pattern then (0, some decoder.failure)
  else
    (0, (decoder.frames.store decoder.slotOffset decoder.patternWrites).map fun frames ↦
      { decoder with nextPts := decoder.nextPts + 1 }.served decoder.nextPts frames)

/-- What a decode returns at the end of `drain_bytes`. -/
def drained (decoder : VideoDecoderStub) : Option UInt64 → VideoDecoderStub × DecodeResult
  | none => decoder.failure
  | some pts => decoder.served pts decoder.frames

/-- The whole of `drain_bytes`, and the return. Assumes: the bytes to drain are queued. -/
theorem complete_drainBytes (rounds : ℕ) {decoder : VideoDecoderStub} {bytes : ℕ}
    (pending : Option UInt64) (hvalid : decoder.packets.Valid)
    (hbytes : bytes ≤ decoder.packets.stored.length) (hrounds : bytes ≤ rounds) :
    ∃ packets, Consumed decoder.packets packets bytes ∧
      complete advanceDecode rounds (decoder.drainBytes bytes pending) =
        some ({ decoder with packets := packets }.drained pending) := by
  induction rounds generalizing decoder bytes with
  | zero =>
    obtain rfl : bytes = 0 := Nat.le_zero.mp hrounds
    refine ⟨_, .refl hvalid, ?_⟩
    cases pending <;> rfl
  | succ rounds ih =>
    by_cases hzero : bytes = 0
    · subst hzero
      refine ⟨_, .refl hvalid, ?_⟩
      cases pending <;> rfl
    · obtain ⟨n, hn⟩ : ∃ n, n = if bytes < 64 then bytes else 64 := ⟨_, rfl⟩
      have hpos : n ≠ 0 := by
        rw [hn]
        split_ifs <;> omega
      have hle : n ≤ bytes := by
        rw [hn]
        split_ifs <;> omega
      have hcount : (decoder.packets.read n).2.1 = n := by
        rw [(hvalid.read n).2.2.2]
        exact min_eq_left (hle.trans hbytes)
      have hconsumed := Consumed.read hvalid n
      obtain ⟨packets, hrest, hresult⟩ := @ih { decoder with packets := (decoder.packets.read n).1 }
        (bytes - n) hconsumed.valid
        (by
          rw [hconsumed.stored_eq, List.length_drop]
          omega)
        (by omega)
      refine ⟨packets, ?_, ?_⟩
      · have hall := hconsumed.trans hrest
        rwa [Nat.add_sub_cancel' hle] at hall
      · have hdrain : decoder.drainBytes bytes pending =
            (decoder, .running (.drain bytes pending)) := if_pos (by omega)
        have hadvance : decoder.advanceDecode (.drain bytes pending) =
            some ({ decoder with packets := (decoder.packets.read n).1 }.drainBytes
              (bytes - n) pending) := by
          simp only [advanceDecode, ← hn, hcount, hpos, if_false]
        rw [hdrain, complete, hadvance]
        exact hresult

theorem complete_failed (rounds : ℕ) (decoder : VideoDecoderStub) :
    complete advanceDecode rounds decoder.failed = some decoder.failure := by
  cases rounds <;> rfl

/-- The read of a frame into the current slot. Assumes: the frame is queued. -/
theorem advance_readFrame {decoder : VideoDecoderStub} (hvalid : decoder.packets.Valid)
    (hqueued : decoder.frameBytes ≤ decoder.packets.stored.length) (pts : UInt64) (nbytes : ℕ) :
    decoder.advanceDecode (.readFrame pts nbytes) =
      (decoder.frames.copyIn decoder.slotOffset
        (decoder.packets.stored.take decoder.frameBytes)).map fun frames ↦
          { decoder with
            packets := (decoder.packets.read decoder.frameBytes).1
            frames := frames }.drainBytes (nbytes - decoder.frameBytes) (some pts) := by
  obtain ⟨-, -, -, hdata⟩ := hvalid.read decoder.frameBytes
  rw [min_eq_left hqueued] at hdata
  simp only [advanceDecode, hdata, ne_eq, not_true_eq_false, if_false, drainBytes_some]

/-- A whole decode. Assumes: the ring is valid. -/
theorem decode_eq {decoder : VideoDecoderStub} (hvalid : decoder.packets.Valid) :
    ∃ packets, Consumed decoder.packets packets (decoder.decodeOn decoder.packets.stored).1 ∧
      decoder.decode = (decoder.decodeOn decoder.packets.stored).2.map fun next ↦
        ({ next.1 with packets := packets }, next.2) := by
  have hsize : decoder.packets.stored.length = decoder.packets.size :=
    decoder.packets.length_stored
  have hsame := Consumed.refl hvalid
  unfold decode decodeNext decodeOn
  rw [hsize]
  split_ifs with hclosed hheader hpattern
  · refine ⟨_, hsame, ?_⟩
    rw [Option.bind_some, complete_failed]
    rfl
  · -- A header is queued.
    have hpeek := ZeroCopyRing.peek_eq hvalid headerBytes
    rw [min_eq_left hheader] at hpeek
    obtain ⟨hdr, hhdr⟩ : ∃ hdr, hdr = decoder.packets.stored.take headerBytes := ⟨_, rfl⟩
    rw [← hhdr] at hpeek
    have hpeeked : decoder.advanceDecode .peek = some (decoder, .running (.checkSize hdr)) := by
      simp [advanceDecode, hpeek]
    have hchecked : decoder.advanceDecode (.checkSize hdr) =
        some (if decoder.packets.size < headerBytes + headerNbytes hdr then decoder.failed
          else (decoder, .running (.readHeader (headerPts hdr) (headerNbytes hdr)))) := rfl
    rw [Option.bind_some, complete, hpeeked, Option.bind_some, complete, hchecked,
      Option.bind_some]
    dsimp only
    rw [← hhdr]
    split_ifs with hshort hsmall
    · refine ⟨_, hsame, ?_⟩
      rw [complete_failed]
      rfl
    · -- The packet is too small for a frame and drained.
      have hread := Consumed.read hvalid headerBytes
      obtain ⟨packets, hdrained, hresult⟩ := @complete_drainBytes (decoder.packets.size + 1)
        { decoder with packets := (decoder.packets.read headerBytes).1 } (headerNbytes hdr) none
        hread.valid
        (by
          rw [hread.stored_eq, List.length_drop, hsize]
          omega)
        (by omega)
      refine ⟨packets, hread.trans hdrained, ?_⟩
      have hadvance : decoder.advanceDecode (.readHeader (headerPts hdr) (headerNbytes hdr)) =
          some ({ decoder with packets := (decoder.packets.read headerBytes).1 }.drainBytes
            (headerNbytes hdr) none) := by
        have hneed : headerNbytes hdr < { decoder with
            packets := (decoder.packets.read headerBytes).1 }.frameBytes := hsmall
        simp only [advanceDecode, hneed, if_true]
      rw [complete, hadvance, Option.bind_some, hresult]
      rfl
    · -- The frame is read into the current slot, and what is left of the packet is drained.
      have hread := Consumed.read hvalid headerBytes
      have hadvance : decoder.advanceDecode (.readHeader (headerPts hdr) (headerNbytes hdr)) =
          some ({ decoder with packets := (decoder.packets.read headerBytes).1 },
            .running (.readFrame (headerPts hdr) (headerNbytes hdr))) := by
        have hneed : ¬ headerNbytes hdr < { decoder with
            packets := (decoder.packets.read headerBytes).1 }.frameBytes := hsmall
        simp only [advanceDecode, hneed, if_false]
      have hframe := Consumed.read hread.valid decoder.frameBytes
      have hqueued : decoder.frameBytes ≤
          (decoder.packets.read headerBytes).1.stored.length := by
        rw [hread.stored_eq, List.length_drop, hsize]
        omega
      have hcopy : advanceDecode { decoder with packets := (decoder.packets.read headerBytes).1 }
          (.readFrame (headerPts hdr) (headerNbytes hdr)) =
          (decoder.frames.copyIn decoder.slotOffset
            ((decoder.packets.stored.drop headerBytes).take decoder.frameBytes)).map fun frames ↦
              { decoder with
                packets := ((decoder.packets.read headerBytes).1.read decoder.frameBytes).1
                frames := frames }.drainBytes (headerNbytes hdr - decoder.frameBytes)
                  (some (headerPts hdr)) := by
        rw [← hread.stored_eq]
        exact advance_readFrame hread.valid hqueued _ _
      rw [complete, hadvance, Option.bind_some, complete, hcopy]
      cases decoder.frames.copyIn decoder.slotOffset
          ((decoder.packets.stored.drop headerBytes).take decoder.frameBytes) with
      | none => exact ⟨_, hread.trans (Consumed.read hread.valid (headerNbytes hdr)), rfl⟩
      | some frames =>
        obtain ⟨packets, hdrained, hresult⟩ := @complete_drainBytes decoder.packets.size
          { decoder with
            packets := ((decoder.packets.read headerBytes).1.read decoder.frameBytes).1
            frames := frames }
          (headerNbytes hdr - decoder.frameBytes) (some (headerPts hdr)) hframe.valid
          (by
            rw [hframe.stored_eq, hread.stored_eq, List.length_drop, List.length_drop, hsize]
            omega)
          (by omega)
        have htotal := hread.trans (hframe.trans hdrained)
        rw [Nat.add_sub_cancel' (Nat.le_of_not_lt hsmall)] at htotal
        refine ⟨packets, htotal, ?_⟩
        rw [Option.map_some, Option.bind_some]
        exact hresult
  · refine ⟨_, hsame, ?_⟩
    rw [Option.bind_some, complete_failed]
    rfl
  · refine ⟨_, hsame, ?_⟩
    unfold fillPattern
    cases decoder.frames.store decoder.slotOffset decoder.patternWrites with
    | none => rfl
    | some frames =>
      simp only [Option.map_some, Option.bind_some, finishFrame]
      rfl

/-- What a successful decode has written into the current slot: the bytes of a packet or the
pattern. -/
inductive WritesFrame (decoder : VideoDecoderStub) (frames : FramePool) : Prop
  | packet (data : List UInt8) : data.length = decoder.frameBytes →
      decoder.frames.copyIn decoder.slotOffset data = some frames → WritesFrame decoder frames
  | pattern : decoder.frames.store decoder.slotOffset decoder.patternWrites = some frames →
      WritesFrame decoder frames

/-- What a whole decode can do: fail, with at most the queue changed, or return the frame in the
current slot after writing it. -/
theorem decode_cases {decoder next : VideoDecoderStub} {result : DecodeResult}
    (hvalid : decoder.packets.Valid) (hdecode : decoder.decode = some (next, result)) :
    ∃ packets count, Consumed decoder.packets packets count ∧
      (next = { decoder with packets := packets } ∧ result = ⟨false, .null⟩ ∨
        ∃ frames pts nextPts,
          next = { decoder with
            packets := packets
            frames := frames
            nextPts := nextPts
            slot := (decoder.slot + 1) % kFrameSlots
            framesDecoded := addMod word64 decoder.framesDecoded 1 } ∧
          result = ⟨true, decoder.frameInSlot pts⟩ ∧ decoder.WritesFrame frames ∧
          decoder.frames.size ≠ 0) := by
  obtain ⟨packets, hconsumed, heq⟩ := decode_eq hvalid
  refine ⟨packets, _, hconsumed, ?_⟩
  rw [heq, Option.map_eq_some_iff] at hdecode
  obtain ⟨after, hafter, hnext⟩ := hdecode
  obtain ⟨rfl, rfl⟩ := Prod.mk.inj hnext
  have hfailed : some decoder.failure = some after →
      { after.1 with packets := packets } = { decoder with packets := packets } ∧
        after.2 = ⟨false, .null⟩ := by
    intro hsame
    obtain rfl := Option.some.inj hsame
    exact ⟨rfl, rfl⟩
  unfold decodeOn at hafter
  dsimp only at hafter
  split_ifs at hafter with hclosed hheader hshort hsmall hpattern
  · exact .inl (hfailed hafter)
  · exact .inl (hfailed hafter)
  · exact .inl (hfailed hafter)
  · obtain ⟨frames, hframes, rfl⟩ := Option.map_eq_some_iff.mp hafter
    refine .inr ⟨frames, _, decoder.nextPts, rfl, rfl, .packet _ ?_ hframes,
      fun hempty ↦ hclosed (.inr hempty)⟩
    rw [List.length_take, List.length_drop]
    omega
  · exact .inl (hfailed hafter)
  · obtain ⟨frames, hframes, rfl⟩ := Option.map_eq_some_iff.mp hafter
    exact .inr ⟨frames, _, decoder.nextPts + 1, rfl, rfl, .pattern hframes,
      fun hempty ↦ hclosed (.inr hempty)⟩

/-! ### The ring in every history -/

/-- The queue of a decoder is a ring of `2 ^ 16` bytes. -/
structure RingReady (decoder : VideoDecoderStub) : Prop where
  valid : decoder.packets.Valid
  capacity_eq : decoder.packets.capacity = 2 ^ 16

theorem ringReady_create (memory : ℕ → UInt8) : (create memory).RingReady where
  valid := (ZeroCopyRing.create_represents (show 1 <<< 16 ≤ 2 ^ 63 by decide) memory).valid
  capacity_eq := by
    change nextPow2 (if 1 <<< 16 = 0 then 4096 else 1 <<< 16) = 2 ^ 16
    decide

theorem size_create (memory : ℕ → UInt8) : (create memory).packets.size = 0 :=
  subMod_of_le le_rfl word64_pos

theorem RingReady.congr {decoder next : VideoDecoderStub} (hready : decoder.RingReady)
    (hsame : next.packets = decoder.packets) : next.RingReady := by
  obtain ⟨hvalid, hcapacity⟩ := hready
  rw [← hsame] at hvalid hcapacity
  exact ⟨hvalid, hcapacity⟩

theorem packets_openPattern (decoder : VideoDecoderStub) (width height : ℕ) :
    (decoder.openPattern width height).1.packets = decoder.packets := by
  unfold openPattern
  split_ifs <;> rfl

theorem packets_openPatternThrow (decoder : VideoDecoderStub) (width height : ℕ)
    (frames : FramePool) :
    (decoder.openPatternThrow width height frames).packets = decoder.packets := by
  unfold openPatternThrow
  split_ifs <;> rfl

/-- A push or a decode. -/
theorem RingReady.performStream {decoder next : VideoDecoderStub} {call : StreamCall}
    {result : StreamResult} (hready : decoder.RingReady)
    (hstep : decoder.performStream call = some (next, result)) : next.RingReady := by
  cases call with
  | push packet =>
    obtain ⟨packets, happended, heq⟩ := push_eq hready.valid packet
    rw [VideoDecoderStub.performStream, heq] at hstep
    obtain ⟨rfl, -⟩ := Prod.mk.inj (Option.some.inj hstep)
    exact ⟨happended.valid, happended.capacity_eq.trans hready.capacity_eq⟩
  | decode =>
    rw [VideoDecoderStub.performStream, Option.map_eq_some_iff] at hstep
    obtain ⟨after, hdecode, hnext⟩ := hstep
    obtain ⟨rfl, -⟩ := Prod.mk.inj hnext
    obtain ⟨packets, count, hconsumed, ⟨hafter, -⟩ | ⟨frames, pts, nextPts, hafter, -⟩⟩ :=
      decode_cases hready.valid hdecode
    · rw [hafter]
      exact ⟨hconsumed.valid, hconsumed.capacity_eq.trans hready.capacity_eq⟩
    · rw [hafter]
      exact ⟨hconsumed.valid, hconsumed.capacity_eq.trans hready.capacity_eq⟩

/-- Any call. -/
theorem RingReady.performCall {decoder next : VideoDecoderStub} {call : DecoderCall}
    (hready : decoder.RingReady) (hstep : decoder.performCall call = some next) :
    next.RingReady := by
  cases call with
  | openUri uri =>
    obtain rfl := Option.some.inj hstep
    refine hready.congr ?_
    unfold VideoDecoderStub.openUri
    cases uriDimensions uri with
    | none => rfl
    | some dimensions => exact packets_openPattern decoder.close _ _
  | openPattern width height =>
    obtain rfl := Option.some.inj hstep
    exact hready.congr (packets_openPattern decoder width height)
  | openUriThrow uri frames =>
    obtain rfl := Option.some.inj hstep
    refine hready.congr ?_
    cases uriDimensions uri with
    | none => rfl
    | some dimensions => exact packets_openPatternThrow decoder.close _ _ _
  | openPatternThrow width height frames =>
    obtain rfl := Option.some.inj hstep
    exact hready.congr (packets_openPatternThrow decoder width height frames)
  | close =>
    obtain rfl := Option.some.inj hstep
    exact hready.congr rfl
  | stream call =>
    obtain ⟨after, hafter, rfl⟩ := Option.map_eq_some_iff.mp hstep
    exact hready.performStream hafter

/-- The ring is sound after every history of calls. -/
theorem reachable_ringReady {guard : VideoDecoderStub → DecoderCall → Prop} {memory : ℕ → UInt8}
    {decoder : VideoDecoderStub} (hreach : decoderSystem.Reaches guard (create memory) decoder) :
    decoder.RingReady :=
  hreach.invariant (ringReady_create memory) fun _ _ _ hready _ hstep ↦ hready.performCall hstep

/-! ### An open decoder -/

/-- A decoder opened with the given dimensions. -/
structure OpenedAs (width height : ℕ) (decoder : VideoDecoderStub) : Prop
    extends RingReady decoder where
  isOpen : decoder.isOpen = true
  pattern : decoder.pattern = true
  width_eq : decoder.width = width
  height_eq : decoder.height = height
  poolSize_eq : decoder.frames.size = i420Size width height * kFrameSlots % word64
  slot_lt : decoder.slot < kFrameSlots

theorem OpenedAs.frameBytes_eq {width height : ℕ} {decoder : VideoDecoderStub}
    (hopened : decoder.OpenedAs width height) : decoder.frameBytes = i420Size width height := by
  rw [decoder.frameBytes_eq, hopened.width_eq, hopened.height_eq]

theorem openedAs_openPattern {decoder : VideoDecoderStub} (hready : decoder.RingReady)
    {width height : ℕ} (hopen : (decoder.openPattern width height).2 = true) :
    (decoder.openPattern width height).1.OpenedAs width height := by
  have hready' := hready.congr (packets_openPattern decoder width height)
  unfold openPattern at hopen hready' ⊢
  split_ifs at hopen hready' ⊢
  refine { hready' with
    isOpen := rfl, pattern := rfl, width_eq := rfl, height_eq := rfl, poolSize_eq := ?_
    slot_lt := Nat.zero_lt_succ 2 }
  change frameBytes _ * kFrameSlots % word64 = _
  rw [frameBytes_eq]

/-- Writing a frame keeps the size of the pool. -/
theorem WritesFrame.size_eq {decoder : VideoDecoderStub} {frames : FramePool}
    (hwrites : decoder.WritesFrame frames) : frames.size = decoder.frames.size := by
  cases hwrites with
  | packet data _ hframes =>
    unfold FramePool.copyIn at hframes
    split_ifs at hframes
    rw [← Option.some.inj hframes]
  | pattern hframes =>
    unfold FramePool.store at hframes
    split_ifs at hframes
    rw [← Option.some.inj hframes]

/-- A push or a decode keeps the decoder open. -/
theorem OpenedAs.performStream {width height : ℕ} {decoder next : VideoDecoderStub}
    {call : StreamCall} {result : StreamResult} (hopened : decoder.OpenedAs width height)
    (hstep : decoder.performStream call = some (next, result)) : next.OpenedAs width height := by
  have hready := hopened.toRingReady.performStream hstep
  cases call with
  | push packet =>
    obtain ⟨packets, -, heq⟩ := push_eq hopened.valid packet
    rw [VideoDecoderStub.performStream, heq] at hstep
    obtain ⟨rfl, -⟩ := Prod.mk.inj (Option.some.inj hstep)
    exact { hready, hopened with }
  | decode =>
    rw [VideoDecoderStub.performStream, Option.map_eq_some_iff] at hstep
    obtain ⟨after, hdecode, hnext⟩ := hstep
    obtain ⟨rfl, -⟩ := Prod.mk.inj hnext
    obtain ⟨packets, count, -, ⟨hafter, -⟩ | ⟨frames, pts, nextPts, hafter, -, hwrites, -⟩⟩ :=
      decode_cases hopened.valid hdecode
    · rw [hafter] at hready ⊢
      exact { hready, hopened with }
    · rw [hafter] at hready ⊢
      exact { hready with
        isOpen := hopened.isOpen
        pattern := hopened.pattern
        width_eq := hopened.width_eq
        height_eq := hopened.height_eq
        poolSize_eq := hwrites.size_eq.trans hopened.poolSize_eq
        slot_lt := Nat.mod_lt _ (by decide) }

/-- A run of pushes and decodes keeps the decoder open. -/
theorem OpenedAs.reaches {width height : ℕ} {decoder next : VideoDecoderStub}
    (hopened : decoder.OpenedAs width height)
    (hreach : decoderSystem.Reaches (fun _ call ↦ call.isStream = true) decoder next) :
    next.OpenedAs width height := by
  refine hreach.invariant hopened fun state call after hstate hguard hstep ↦ ?_
  cases call with
  | stream call =>
    obtain ⟨next, hnext, rfl⟩ := Option.map_eq_some_iff.mp hstep
    exact hstate.performStream hnext
  | _ => contradiction

end VideoDecoderStub

end GameEngine.Multimedia
