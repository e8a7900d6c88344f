import GameEngine.Library.RecordStream
import GameEngine.Multimedia.ZeroCopyRing
import Mathlib.Tactic.Ring

/-!
# The video decoder stub

`VideoDecoderStub` of `multimedia/video_decoder_stub`: a queue of packets in a byte ring, and a
pool of `kFrameSlots` frames into which packets are decoded or, when no packet is queued, a moving
pattern is drawn. Lengths and dimensions are 64-bit words. Words in a packet header lie lowest byte
first; nothing depends on the order, since the same decoder reads them back.

`push_packet` and `decode_next` touch the ring several times. Each is given by its start
(`pushPacket`, `decodeNext`) and by what follows from each point where it is about to touch the
ring again (`advancePush`, `advanceDecode`), up to the next such point or the return. A write
outside the frame pool is undefined behaviour, and what would follow it is `none`.
-/

set_option autoImplicit false
set_option relaxedAutoImplicit false

namespace GameEngine.Multimedia

open GameEngine.Library.MachineWord GameEngine.Library.CircularBuffer
open GameEngine.Library.RecordStream

/-! ### Packets -/

/-- The arguments of `push_packet`. A null pointer is an empty payload: both are refused by the same
check. -/
structure Packet where
  pts : UInt64
  payload : List UInt8
deriving DecidableEq, Repr

/-- `sizeof(std::uint64_t) + sizeof(std::uint32_t)`. -/
def headerBytes : ℕ := 12

/-- The header that `push_packet` puts before a payload: the pts, and the length cut to 32 bits. -/
def Packet.header (packet : Packet) : List UInt8 :=
  toBytes 8 packet.pts.toNat ++ toBytes 4 (packet.payload.length % word32)

/-- The pts that `decode_next` copies out of a header. -/
def headerPts (hdr : List UInt8) : UInt64 := .ofNat (ofBytes (hdr.take 8))

/-- The payload length that `decode_next` copies out of a header. -/
def headerNbytes (hdr : List UInt8) : ℕ := ofBytes ((hdr.drop 8).take 4)

@[simp] theorem Packet.length_header (packet : Packet) : packet.header.length = headerBytes := by
  simp [header, headerBytes]

/-- A header gives the pts back. -/
theorem headerPts_header (packet : Packet) : headerPts packet.header = packet.pts := by
  have htake : packet.header.take 8 = toBytes 8 packet.pts.toNat :=
    List.take_left' (length_toBytes 8 _)
  have hlt : packet.pts.toNat < 256 ^ 8 := lt_of_lt_of_eq packet.pts.toNat_lt (by norm_num)
  rw [headerPts, htake, ofBytes_toBytes, Nat.mod_eq_of_lt hlt]
  exact UInt64.ofNat_toNat

/-- A header gives the payload length back, cut to 32 bits. -/
theorem headerNbytes_header (packet : Packet) :
    headerNbytes packet.header = packet.payload.length % word32 := by
  have hdrop : packet.header.drop 8 = toBytes 4 (packet.payload.length % word32) :=
    List.drop_left' (length_toBytes 8 _)
  have hpow : (256 : ℕ) ^ 4 = word32 := by norm_num [word32]
  rw [headerNbytes, hdrop, List.take_of_length_le (by rw [length_toBytes]), ofBytes_toBytes, hpow,
    Nat.mod_mod]

theorem headerNbytes_lt (hdr : List UInt8) : headerNbytes hdr < word32 := by
  refine lt_of_lt_of_le (ofBytes_lt _) ?_
  have hlength : ((hdr.drop 8).take 4).length ≤ 4 := List.length_take_le _ _
  calc 256 ^ ((hdr.drop 8).take 4).length ≤ 256 ^ 4 := Nat.pow_le_pow_right (by omega) hlength
    _ = word32 := by norm_num [word32]

/-! ### Frames and the frame pool -/

/-- `VideoFrame`. A pointer is null or an index into the frame pool. -/
structure VideoFrame where
  data : Option ℕ
  y : Option ℕ
  u : Option ℕ
  v : Option ℕ
  width : ℕ
  height : ℕ
  strideY : ℕ
  strideUv : ℕ
  pts : UInt64
deriving DecidableEq, Repr

/-- `VideoFrame{}`. -/
def VideoFrame.null : VideoFrame := ⟨none, none, none, none, 0, 0, 0, 0, 0⟩

/-- The vector `frames_`. -/
structure FramePool where
  size : ℕ
  bytes : ℕ → UInt8

/-- `assign(size, 0)`. -/
def FramePool.assign (size : ℕ) : FramePool := ⟨size, fun _ ↦ 0⟩

/-- Copies bytes into the pool. -/
def FramePool.copyIn (pool : FramePool) (offset : ℕ) (data : List UInt8) : Option FramePool :=
  if offset + data.length ≤ pool.size then
    some { pool with bytes := splice pool.bytes offset data }
  else none

/-- Stores single bytes at indices relative to an offset, in order. -/
def FramePool.store (pool : FramePool) (offset : ℕ) (writes : List (ℕ × UInt8)) :
    Option FramePool :=
  if ∀ write ∈ writes, offset + write.1 < pool.size then
    some { pool with
      bytes := writes.foldl (fun bytes write ↦ Function.update bytes (offset + write.1) write.2)
        pool.bytes }
  else none

/-- `i420_size`. -/
def i420Size (width height : ℕ) : ℕ :=
  addMod word64 (width * height % word64) (width * height % word64 / 2)

/-! ### The decoder -/

/-- `VideoDecoderStub`. -/
structure VideoDecoderStub where
  isOpen : Bool
  pattern : Bool
  width : ℕ
  height : ℕ
  slot : ℕ
  framesDecoded : ℕ
  nextPts : UInt64
  packets : ZeroCopyRing
  frames : FramePool

namespace VideoDecoderStub

/-- `kFrameSlots`. -/
def kFrameSlots : ℕ := 3

/-- The constructor. `memory` is what the buffer of the ring holds at first. -/
def create (memory : ℕ → UInt8) : VideoDecoderStub where
  isOpen := false
  pattern := false
  width := 0
  height := 0
  slot := 0
  framesDecoded := 0
  nextPts := 0
  packets := .create (1 <<< 16) memory
  frames := .assign 0

/-- `frame_bytes`. -/
def frameBytes (decoder : VideoDecoderStub) : ℕ :=
  if decoder.width = 0 ∨ decoder.height = 0 then 0 else i420Size decoder.width decoder.height

theorem frameBytes_eq (decoder : VideoDecoderStub) :
    decoder.frameBytes = i420Size decoder.width decoder.height := by
  unfold frameBytes
  split_ifs with hzero
  · rcases hzero with hzero | hzero <;> simp [i420Size, addMod, hzero]
  · rfl

/-- `setup_buffers`, where the allocation succeeds. -/
def setupBuffers (decoder : VideoDecoderStub) : VideoDecoderStub :=
  { decoder with
    frames := .assign (decoder.frameBytes * kFrameSlots % word64)
    slot := 0
    framesDecoded := 0
    nextPts := 0 }

/-- `open_pattern`. -/
def openPattern (decoder : VideoDecoderStub) (width height : ℕ) : VideoDecoderStub × Bool :=
  if width < 2 ∨ height < 2 ∨ width % 2 ≠ 0 ∨ height % 2 ≠ 0 then (decoder, false)
  else
    (setupBuffers
      { decoder with isOpen := true, pattern := true, width := width, height := height }, true)

/-- `open_pattern` accepts even dimensions only. -/
theorem even_of_openPattern {decoder : VideoDecoderStub} {width height : ℕ}
    (hopen : (decoder.openPattern width height).2 = true) : width % 2 = 0 ∧ height % 2 = 0 := by
  unfold openPattern at hopen
  split_ifs at hopen
  omega

/-- What follows a step of a call: the call goes on, or it returns. -/
inductive CallStep (Pc Result : Type)
  | running (pc : Pc)
  | returned (result : Result)
deriving DecidableEq

/-! ### Pushing a packet -/

/-- Where a `push_packet` is about to touch the ring. -/
inductive PushPc
  /-- To write the header. -/
  | writeHeader (packet : Packet)
  /-- To write the payload. -/
  | writePayload (packet : Packet)
deriving DecidableEq

/-- The packet of a call. -/
def PushPc.packet : PushPc → Packet
  | .writeHeader packet => packet
  | .writePayload packet => packet

/-- `push_packet` up to and including its query of the free space. -/
def pushPacket (decoder : VideoDecoderStub) (packet : Packet) : CallStep PushPc Bool :=
  if !decoder.isOpen ∨ packet.payload.length = 0 then .returned false
  else
    let need := addMod word64 headerBytes packet.payload.length
    if decoder.packets.freeSpace < need then .returned false else .running (.writeHeader packet)

/-- The next step of `push_packet`. -/
def advancePush (decoder : VideoDecoderStub) : PushPc → VideoDecoderStub × CallStep PushPc Bool
  | .writeHeader packet =>
    let (packets, count) := decoder.packets.write packet.header
    ({ decoder with packets := packets },
      if count ≠ headerBytes then .returned false else .running (.writePayload packet))
  | .writePayload packet =>
    let (packets, count) := decoder.packets.write packet.payload
    ({ decoder with packets := packets }, .returned (count == packet.payload.length))

/-! ### Decoding a frame -/

/-- Where a `decode_next` is about to touch the ring. -/
inductive DecodePc
  /-- To peek at a header. -/
  | peek
  /-- To query the size for the packet with the peeked header. -/
  | checkSize (hdr : List UInt8)
  /-- To read the header. -/
  | readHeader (pts : UInt64) (nbytes : ℕ)
  /-- To read a frame. -/
  | readFrame (pts : UInt64) (nbytes : ℕ)
  /-- In `drain_bytes`, before a read, with `bytes` bytes left to drain. `pending` is the pts of the
  frame to return afterwards, if the call has one. -/
  | drain (bytes : ℕ) (pending : Option UInt64)
deriving DecidableEq

/-- What `decode_next` returns, with the frame it leaves in `out`. -/
structure DecodeResult where
  decoded : Bool
  out : VideoFrame
deriving DecidableEq, Repr

/-- A decoder after a step of `decode_next`, with what follows. -/
abbrev DecodeStep := VideoDecoderStub × CallStep DecodePc DecodeResult

/-- The failed return with the empty frame. -/
def failed (decoder : VideoDecoderStub) : DecodeStep := (decoder, .returned ⟨false, .null⟩)

/-- The index of the current slot in the frame pool. -/
def slotOffset (decoder : VideoDecoderStub) : ℕ := decoder.slot * decoder.frameBytes % word64

/-- The frame in the current slot. -/
def frameInSlot (decoder : VideoDecoderStub) (pts : UInt64) : VideoFrame :=
  let dst := decoder.slotOffset
  let ySize := decoder.width * decoder.height % word64
  let uvSize := ySize / 4
  { data := some dst
    y := some dst
    u := some (dst + ySize)
    v := some (dst + ySize + uvSize)
    width := decoder.width
    height := decoder.height
    strideY := decoder.width
    strideUv := decoder.width / 2
    pts := pts }

/-- The successful return of the frame in the current slot. -/
def finishFrame (decoder : VideoDecoderStub) (pts : UInt64) : DecodeStep :=
  ({ decoder with
      slot := (decoder.slot + 1) % kFrameSlots
      framesDecoded := addMod word64 decoder.framesDecoded 1 },
    .returned ⟨true, decoder.frameInSlot pts⟩)

/-- The bytes that `fill_pattern` stores, in order, at indices relative to `dst`. -/
def patternWrites (decoder : VideoDecoderStub) : List (ℕ × UInt8) :=
  let ySize := decoder.width * decoder.height % word64
  let uvSize := ySize / 4
  let t := decoder.framesDecoded * 3 % 256
  let cw := decoder.width / 2
  let ch := decoder.height / 2
  ((List.range decoder.height).flatMap fun y ↦ (List.range decoder.width).map fun x ↦
    ((y * decoder.width + x) % word64, UInt8.ofNat ((x + y + t) % 256))) ++
  (List.range ch).flatMap fun y ↦ (List.range cw).flatMap fun x ↦
    [(ySize + (y * cw + x) % word64, 128),
      (ySize + uvSize + (y * cw + x) % word64, UInt8.ofNat (64 + (x + t) % 64))]

/-- `fill_pattern` on the current slot. -/
def fillPattern (decoder : VideoDecoderStub) : Option VideoDecoderStub :=
  (decoder.frames.store decoder.slotOffset decoder.patternWrites).map fun frames ↦
    { decoder with frames := frames }

/-- `decode_next` up to and including its first query of the size; without a queued header, all of
it. -/
def decodeNext (decoder : VideoDecoderStub) : Option DecodeStep :=
  if !decoder.isOpen ∨ decoder.frames.size = 0 then some decoder.failed
  else if decoder.packets.size ≥ headerBytes then some (decoder, .running .peek)
  else if !decoder.pattern then some decoder.failed
  else
    decoder.fillPattern.map fun filled ↦
      finishFrame { filled with nextPts := filled.nextPts + 1 } filled.nextPts

/-- The part of `decode_next` after its last read. -/
def afterDrain (decoder : VideoDecoderStub) : Option UInt64 → DecodeStep
  | none => decoder.failed
  | some pts => decoder.finishFrame pts

/-- `drain_bytes` from the head of its loop on. -/
def drainBytes (decoder : VideoDecoderStub) (bytes : ℕ) (pending : Option UInt64) : DecodeStep :=
  if bytes > 0 then (decoder, .running (.drain bytes pending)) else decoder.afterDrain pending

/-- The next step of `decode_next`. -/
def advanceDecode (decoder : VideoDecoderStub) : DecodePc → Option DecodeStep
  | .peek =>
    let (count, hdr) := decoder.packets.peek headerBytes
    some (if count ≠ headerBytes then decoder.failed else (decoder, .running (.checkSize hdr)))
  | .checkSize hdr =>
    some (if decoder.packets.size < headerBytes + headerNbytes hdr then decoder.failed
      else (decoder, .running (.readHeader (headerPts hdr) (headerNbytes hdr))))
  | .readHeader pts nbytes =>
    let (packets, _, _) := decoder.packets.read headerBytes
    let decoder := { decoder with packets := packets }
    some (if nbytes < decoder.frameBytes then decoder.drainBytes nbytes none
      else (decoder, .running (.readFrame pts nbytes)))
  | .readFrame pts nbytes =>
    let need := decoder.frameBytes
    let (packets, count, data) := decoder.packets.read need
    (decoder.frames.copyIn decoder.slotOffset data).map fun frames ↦
      let decoder := { decoder with packets := packets, frames := frames }
      if count ≠ need then decoder.failed
      else if nbytes > need then decoder.drainBytes (nbytes - need) (some pts)
      else decoder.finishFrame pts
  | .drain bytes pending =>
    let n := if bytes < 64 then bytes else 64
    let (packets, got, _) := decoder.packets.read n
    let decoder := { decoder with packets := packets }
    some (if got = 0 then decoder.afterDrain pending else decoder.drainBytes (bytes - got) pending)

/-- A frame without a rest to drain is returned at once. -/
theorem drainBytes_some (decoder : VideoDecoderStub) (nbytes need : ℕ)
    (pts : UInt64) : (if nbytes > need then decoder.drainBytes (nbytes - need) (some pts)
      else decoder.finishFrame pts) = decoder.drainBytes (nbytes - need) (some pts) := by
  split_ifs with hmore
  · rfl
  · rw [drainBytes, if_neg (by omega)]
    rfl

/-! ### The pattern stays in its slot -/

/-- An index in a plane of the given number of rows. -/
theorem plane_index_lt {rows columns y x : ℕ} (hy : y < rows) (hx : x < columns) :
    y * columns + x < rows * columns := by
  calc y * columns + x < y * columns + columns := Nat.add_lt_add_left hx _
    _ = (y + 1) * columns := (Nat.succ_mul y columns).symm
    _ ≤ rows * columns := Nat.mul_le_mul_right columns hy

/-- The two chroma planes of an even frame are a quarter of its luma plane each. -/
theorem chroma_size {width height : ℕ} (hwidth : width % 2 = 0) (hheight : height % 2 = 0) :
    height / 2 * (width / 2) = width * height / 4 := by
  obtain ⟨w, rfl⟩ := Nat.dvd_of_mod_eq_zero hwidth
  obtain ⟨h, rfl⟩ := Nat.dvd_of_mod_eq_zero hheight
  rw [Nat.mul_div_cancel_left _ Nat.two_pos, Nat.mul_div_cancel_left _ Nat.two_pos,
    show 2 * w * (2 * h) = 4 * (h * w) by ring, Nat.mul_div_cancel_left _ (by omega)]

/-- `i420_size` where nothing wraps. -/
theorem i420Size_eq {width height : ℕ} (hsize : width * height + width * height / 2 < word64) :
    i420Size width height = width * height + width * height / 2 := by
  have hlt : width * height < word64 := lt_of_le_of_lt (Nat.le_add_right _ _) hsize
  rw [i420Size, addMod, Nat.mod_eq_of_lt hlt, Nat.mod_eq_of_lt hsize]

/-- `i420_size` for a frame size below `2 ^ 62`. -/
theorem i420Size_of_exact {width height : ℕ} (hexact : width * height * 3 / 2 < 2 ^ 62) :
    width * height < word64 ∧
      i420Size width height = width * height + width * height / 2 := by
  have hsize : width * height + width * height / 2 < word64 := by
    unfold word64
    omega
  exact ⟨lt_of_le_of_lt (Nat.le_add_right _ _) hsize, i420Size_eq hsize⟩

/-- The luma bytes that `fill_pattern` stores. -/
def lumaWrites (decoder : VideoDecoderStub) : List (ℕ × UInt8) :=
  (List.range decoder.height).flatMap fun y ↦ (List.range decoder.width).map fun x ↦
    ((y * decoder.width + x) % word64,
      UInt8.ofNat ((x + y + decoder.framesDecoded * 3 % 256) % 256))

/-- The pairs of chroma bytes that `fill_pattern` stores. -/
def chromaWrites (decoder : VideoDecoderStub) : List ((ℕ × UInt8) × (ℕ × UInt8)) :=
  let ySize := decoder.width * decoder.height % word64
  let uvSize := ySize / 4
  let cw := decoder.width / 2
  (List.range (decoder.height / 2)).flatMap fun y ↦ (List.range cw).map fun x ↦
    ((ySize + (y * cw + x) % word64, 128),
      (ySize + uvSize + (y * cw + x) % word64,
        UInt8.ofNat (64 + (x + decoder.framesDecoded * 3 % 256) % 64)))

theorem patternWrites_eq (decoder : VideoDecoderStub) :
    decoder.patternWrites =
      decoder.lumaWrites ++ decoder.chromaWrites.flatMap fun pair ↦ [pair.1, pair.2] := by
  simp only [patternWrites, lumaWrites, chromaWrites, List.flatMap_assoc, List.flatMap_map]

/-- The luma bytes go to the luma plane. Assumes: its size does not wrap. -/
theorem lumaWrites_lt {decoder : VideoDecoderStub}
    (hlt : decoder.width * decoder.height < word64) :
    ∀ write ∈ decoder.lumaWrites, write.1 < decoder.width * decoder.height % word64 := by
  intro write hwrite
  simp only [lumaWrites, List.mem_flatMap, List.mem_map, List.mem_range] at hwrite
  obtain ⟨y, hy, x, hx, rfl⟩ := hwrite
  have hindex := plane_index_lt hy hx
  rw [Nat.mul_comm decoder.height] at hindex
  rw [Nat.mod_eq_of_lt hlt]
  exact lt_of_le_of_lt (Nat.mod_le _ _) hindex

/-- The two bytes of a pair go to the two chroma planes. Assumes: the dimensions are even, and the
size of the luma plane does not wrap. -/
theorem chromaWrites_inside {decoder : VideoDecoderStub} (hwidth : decoder.width % 2 = 0)
    (hheight : decoder.height % 2 = 0) (hlt : decoder.width * decoder.height < word64) :
    ∀ pair ∈ decoder.chromaWrites,
      let ySize := decoder.width * decoder.height % word64
      let uvSize := ySize / 4
      ySize ≤ pair.1.1 ∧ pair.1.1 < ySize + uvSize ∧
        ySize + uvSize ≤ pair.2.1 ∧ pair.2.1 < ySize + uvSize + uvSize := by
  intro pair hpair
  simp only [chromaWrites, List.mem_flatMap, List.mem_map, List.mem_range] at hpair
  obtain ⟨y, hy, x, hx, rfl⟩ := hpair
  have hindex := plane_index_lt hy hx
  rw [chroma_size hwidth hheight] at hindex
  have hle := Nat.mod_le (y * (decoder.width / 2) + x) word64
  dsimp only
  rw [Nat.mod_eq_of_lt hlt]
  omega

/-- `fill_pattern` stores inside one frame. Assumes: the dimensions are even, and the frame size
does not wrap. -/
theorem patternWrites_lt {decoder : VideoDecoderStub} (hwidth : decoder.width % 2 = 0)
    (hheight : decoder.height % 2 = 0)
    (hexact : decoder.width * decoder.height * 3 / 2 < 2 ^ 62) :
    ∀ write ∈ decoder.patternWrites, write.1 < i420Size decoder.width decoder.height := by
  obtain ⟨hlt, hframe⟩ := i420Size_of_exact hexact
  intro write hwrite
  rw [patternWrites_eq, List.mem_append, List.mem_flatMap] at hwrite
  rcases hwrite with hluma | ⟨pair, hpair, hmem⟩
  · have hinside := lumaWrites_lt hlt write hluma
    rw [Nat.mod_eq_of_lt hlt] at hinside
    omega
  · have hinside := chromaWrites_inside hwidth hheight hlt pair hpair
    dsimp only at hinside
    rw [Nat.mod_eq_of_lt hlt] at hinside
    rcases List.mem_pair.mp hmem with rfl | rfl <;> omega

/-- The slots follow each other. Assumes: the size of the pool does not wrap. -/
theorem slotStart_eq {slot bytes : ℕ} (hslot : slot < kFrameSlots)
    (hsmall : bytes * kFrameSlots < word64) : slot * bytes % word64 = slot * bytes := by
  have hle : slot * bytes ≤ kFrameSlots * bytes := Nat.mul_le_mul_right _ hslot.le
  rw [Nat.mul_comm kFrameSlots] at hle
  exact Nat.mod_eq_of_lt (lt_of_le_of_lt hle hsmall)

/-- A slot lies in a pool of `kFrameSlots` frames. Assumes: the size of the pool does not wrap. -/
theorem slot_inside {slot bytes : ℕ} (hslot : slot < kFrameSlots)
    (hsmall : bytes * kFrameSlots < word64) :
    slot * bytes % word64 + bytes ≤ bytes * kFrameSlots % word64 := by
  have hle : (slot + 1) * bytes ≤ kFrameSlots * bytes := Nat.mul_le_mul_right _ hslot
  rw [slotStart_eq hslot hsmall, Nat.mod_eq_of_lt hsmall, ← Nat.succ_mul, Nat.mul_comm bytes]
  exact hle

/-- The current slot lies in the frame pool. Assumes: the pool has the size of `kFrameSlots` frames,
and that does not wrap. -/
theorem slotOffset_le {decoder : VideoDecoderStub} (hslot : decoder.slot < kFrameSlots)
    (hpool : decoder.frames.size = decoder.frameBytes * kFrameSlots % word64)
    (hsmall : decoder.frameBytes < 2 ^ 62) :
    decoder.slotOffset + decoder.frameBytes ≤ decoder.frames.size := by
  rw [hpool]
  refine slot_inside hslot ?_
  unfold kFrameSlots word64
  omega

end VideoDecoderStub

/-- The `frame_bytes` bytes that a frame points to. -/
def frameContents (decoder : VideoDecoderStub) (frame : VideoFrame) : List UInt8 :=
  match frame.data with
  | none => []
  | some dst => cells decoder.frames.bytes dst decoder.frameBytes

end GameEngine.Multimedia
