import GameEngine.Bench.AssetPack
import GameEngine.Bench.TickArena
import GameEngine.Library.RowMajor
import GameEngine.Multimedia.FrameLifetime

/-!
# Playing the packed clip

The benchmark opens a decoder, decodes up to eight frames of the pattern, pushes the first frame of
its clip and decodes it, and then pushes and decodes once in every tick that gets its memory from
the frame arena. `playVideo` is this part of `main` and of `run_ticks`, with the frames that a
reader of `frame` would see.

The pattern that `fill_pattern` computes and the frames that `asset_pack.py` writes are the same
(`pattern_eq_packedFrame`). `play_shows` says which frames the benchmark shows. If a frame fits into
the packet ring, they are the pattern, the first frame of the clip, and in every tick the window of
the clip that the tick asks for; otherwise every push is refused and the pattern goes on. In an
arena that is too small for a tick no tick shows anything.
-/

set_option autoImplicit false
set_option relaxedAutoImplicit false

namespace GameEngine.Bench

open GameEngine.Library GameEngine.Core GameEngine.Multimedia
open MachineWord CircularBuffer RowMajor

/-! ### The benchmark -/

/-- What a decoded frame shows. -/
structure Shown where
  pts : UInt64
  planes : List UInt8

/-- A `decode_next` with what its frame shows, if it decodes one. -/
def showNext (video : VideoDecoderStub) : Option (VideoDecoderStub × Option Shown) :=
  video.decode.map fun (next, result) ↦
    (next, if result.decoded then some ⟨result.out.pts, next.planeBytes result.out⟩ else none)

/-- The decoder is opened for the packed assets, or for the pattern if there are none. -/
def openVideo (packed : Option PackedAssets) (video : VideoDecoderStub) : VideoDecoderStub × Bool :=
  match packed with
  | some assets => video.openPattern assets.width assets.height
  | none => video.openUri (some "pattern")

/-- The first loop of `main` over the decoder, from the given number of rounds on. -/
def decodeWhile (ok : Bool) : ℕ → VideoDecoderStub → Option (VideoDecoderStub × List Shown)
  | 0, video => some (video, [])
  | rounds + 1, video =>
    if ok then
      (showNext video).bind fun (video, shown) ↦
        match shown with
        | none => some (video, [])
        | some shown => (decodeWhile ok rounds video).map fun (video, rest) ↦ (video, shown :: rest)
    else some (video, [])

/-- The packet that `main` pushes, and the decode if it is accepted. -/
def playPacket (packed : Option PackedAssets) (ok : Bool) (video : VideoDecoderStub) :
    Option (VideoDecoderStub × List Shown) :=
  let filler := List.replicate video.frameBytes 7
  let payload := match packed with
    | some assets =>
      if ok ∧ video.frameBytes ≤ assets.i420.length then assets.i420.take video.frameBytes
      else filler
    | none => filler
  if ok then
    (video.push ⟨42, payload⟩).bind fun (video, pushed) ↦
      if pushed then (showNext video).map fun (video, shown) ↦ (video, shown.toList)
      else some (video, [])
  else some (video, [])

/-- Where the packet of a tick starts in a clip. -/
def clipOffset (length frameBytes f : ℕ) : ℕ :=
  f * frameBytes % word64 % (length - frameBytes + 1)

/-- What a tick of `run_ticks` that has its memory does with the decoder. -/
def decodeTick (packed : Option PackedAssets) (frameBytes f : ℕ) (video : VideoDecoderStub) :
    Option (VideoDecoderStub × Option Shown) :=
  let i420 := packed.elim [] PackedAssets.i420
  let pushed := if i420 ≠ [] ∧ 0 < frameBytes ∧ frameBytes ≤ i420.length then
      (video.push ⟨.ofNat f, (i420.drop (clipOffset i420.length frameBytes f)).take frameBytes⟩).map
        Prod.fst
    else some video
  pushed.bind showNext

/-- What a tick of `run_ticks` does with the decoder. Without its memory it goes on with the next
tick at once. -/
def videoTick (packed : Option PackedAssets) (frameBytes f : ℕ) (arena : LinearArenaAllocator)
    (video : VideoDecoderStub) : Option (VideoDecoderStub × Option Shown) :=
  if (tickMemory arena).2 then decodeTick packed frameBytes f video else some (video, none)

/-- The ticks from a number on, as many as given. -/
def videoTicks (packed : Option PackedAssets) (frameBytes : ℕ) :
    ℕ → ℕ → LinearArenaAllocator → VideoDecoderStub →
      Option (VideoDecoderStub × List (Option Shown))
  | 0, _, _, video => some (video, [])
  | ticks + 1, f, arena, video =>
    (videoTick packed frameBytes f arena video).bind fun (video, shown) ↦
      (videoTicks packed frameBytes ticks (f + 1) (tickMemory arena).1 video).map
        fun (video, rest) ↦ (video, shown :: rest)

/-- What the decoder shows: before the ticks, and in them. -/
structure Playback where
  before : List Shown
  ticks : List (Option Shown)

/-- The part of `main` and `run_ticks` that is about the decoder. `memory` is what the buffer of the
packet ring holds at first. -/
def playVideo (arenaBytes : UInt64) (packed : Option PackedAssets) (ticks : ℕ)
    (memory : ℕ → UInt8) : Option Playback :=
  let (video, ok) := openVideo packed (.create memory)
  (decodeWhile ok 8 video).bind fun (video, pattern) ↦
    (playPacket packed ok video).bind fun (video, packet) ↦
      (videoTicks packed video.frameBytes ticks 0 (frameArena arenaBytes) video).map
        fun (_, shown) ↦ ⟨pattern ++ packet, shown⟩

/-! ### The pattern -/

/-- The byte of the pattern at an index of a frame. -/
def patternByte (width height t index : ℕ) : UInt8 :=
  let quarter := width * height / 4
  if index < width * height then .ofNat ((index % width + index / width + t) % 256)
  else if index < width * height + quarter then 128
  else .ofNat (64 + ((index - (width * height + quarter)) % (width / 2) + t) % 64)

theorem packedFrame_eq_map {width height : ℕ} (heven : EvenSize width height) (f : ℕ) :
    packedFrame width height f =
      (List.range (width * height + width * height / 4 + width * height / 4)).map
        (patternByte width height (f * 3 % 256)) := by
  have hchroma : height / 2 * (width / 2) = width * height / 4 :=
    VideoDecoderStub.chroma_size (Nat.mod_eq_zero_of_dvd heven.1) (Nat.mod_eq_zero_of_dvd heven.2)
  have hluma : (plane height width fun y x ↦ UInt8.ofNat ((x + y + f * 3 % 256) % 256)) =
      (List.range (width * height)).map (patternByte width height (f * 3 % 256)) := by
    rw [plane_eq_map, Nat.mul_comm height]
    refine List.map_congr_left fun index hindex ↦ ?_
    rw [patternByte, if_pos (List.mem_range.mp hindex)]
  have hu : List.replicate (width * height / 4) (128 : UInt8) =
      (List.range (width * height / 4)).map fun index ↦
        patternByte width height (f * 3 % 256) (width * height + index) := by
    symm
    rw [List.eq_replicate_iff]
    refine ⟨by simp, fun byte hbyte ↦ ?_⟩
    obtain ⟨index, hindex, rfl⟩ := List.mem_map.mp hbyte
    have hindex := List.mem_range.mp hindex
    rw [patternByte, if_neg (by omega), if_pos (by omega)]
  have hv : (plane (height / 2) (width / 2) fun _ x ↦
      UInt8.ofNat (64 + (x + f * 3 % 256) % 64)) =
        (List.range (width * height / 4)).map fun index ↦
          patternByte width height (f * 3 % 256)
            (width * height + width * height / 4 + index) := by
    rw [plane_eq_map, hchroma]
    refine List.map_congr_left fun index hindex ↦ ?_
    rw [patternByte, if_neg (by omega), if_neg (by omega), Nat.add_sub_cancel_left]
  have hlength : (plane (height / 2) (width / 2) fun _ x ↦
      UInt8.ofNat (64 + (x + f * 3 % 256) % 64)).length = width * height / 4 := by
    rw [RowMajor.length_plane, hchroma]
  rw [List.range_add, List.range_add, List.map_append, List.map_append, List.map_map, List.map_map]
  change _ ++ _ ++ (if (plane _ _ _).length = _ then plane _ _ _ else _) = _
  rw [if_pos hlength, hv, ← hluma, hu]
  rfl

section Pattern

variable {width height : ℕ} {decoder : VideoDecoderStub}

/-- The dimensions of an open decoder are those that the tool accepts. -/
theorem evenSize_of_opened (hopened : decoder.OpenedExactly width height) :
    EvenSize width height :=
  ⟨Nat.dvd_of_mod_eq_zero hopened.even_width, Nat.dvd_of_mod_eq_zero hopened.even_height⟩

/-- The stores of `fill_pattern`, without the words that wrap. -/
theorem mem_patternWrites (hopened : decoder.OpenedExactly width height) {write : ℕ × UInt8} :
    write ∈ decoder.patternWrites ↔
      let t := decoder.framesDecoded * 3 % 256
      let quarter := width * height / 4
      (∃ y < height, ∃ x < width,
        write = (y * width + x, UInt8.ofNat ((x + y + t) % 256))) ∨
      ∃ y < height / 2, ∃ x < width / 2,
        write = (width * height + (y * (width / 2) + x), 128) ∨
        write = (width * height + quarter + (y * (width / 2) + x),
          UInt8.ofNat (64 + (x + t) % 64)) := by
  obtain ⟨hlt, -⟩ := VideoDecoderStub.i420Size_of_exact hopened.exact
  have hchroma := VideoDecoderStub.chroma_size hopened.even_width hopened.even_height
  have hluma : ∀ y < height, ∀ x < width, (y * width + x) % word64 = y * width + x := by
    intro y hy x hx
    have hindex := VideoDecoderStub.plane_index_lt hy hx
    rw [Nat.mul_comm height] at hindex
    exact Nat.mod_eq_of_lt (hindex.trans hlt)
  have hindex : ∀ y < height / 2, ∀ x < width / 2,
      (y * (width / 2) + x) % word64 = y * (width / 2) + x := by
    intro y hy x hx
    have hindex := VideoDecoderStub.plane_index_lt hy hx
    rw [hchroma] at hindex
    exact Nat.mod_eq_of_lt (by omega)
  simp only [VideoDecoderStub.patternWrites, hopened.width_eq, hopened.height_eq, List.mem_append,
    List.mem_flatMap, List.mem_map, List.mem_range, List.mem_cons, List.not_mem_nil, or_false,
    Nat.mod_eq_of_lt hlt]
  constructor
  · rintro (⟨y, hy, x, hx, rfl⟩ | ⟨y, hy, x, hx, hwrite⟩)
    · exact .inl ⟨y, hy, x, hx, by rw [hluma y hy x hx]⟩
    · rw [hindex y hy x hx] at hwrite
      exact .inr ⟨y, hy, x, hx, hwrite⟩
  · rintro (⟨y, hy, x, hx, rfl⟩ | ⟨y, hy, x, hx, hwrite⟩)
    · exact .inl ⟨y, hy, x, hx, by rw [hluma y hy x hx]⟩
    · exact .inr ⟨y, hy, x, hx, by rwa [hindex y hy x hx]⟩

/-- `fill_pattern` fills the current slot with the frame that the tool writes. -/
theorem pattern_eq_packedFrame (hopened : decoder.OpenedExactly width height) :
    cells (stores decoder.frames.bytes decoder.slotOffset decoder.patternWrites)
      decoder.slotOffset decoder.frameBytes = packedFrame width height decoder.framesDecoded := by
  have heven := evenSize_of_opened hopened
  have hchroma := VideoDecoderStub.chroma_size hopened.even_width hopened.even_height
  have hsize : decoder.frameBytes =
      width * height + width * height / 4 + width * height / 4 := by
    obtain ⟨quarter, hquarter⟩ :=
      VideoDecoderStub.four_dvd_size hopened.even_width hopened.even_height
    rw [hopened.frameBytes_eq, (VideoDecoderStub.i420Size_of_exact hopened.exact).2]
    omega
  rw [packedFrame_eq_map heven, hsize]
  refine cells_stores (fun write hwrite ↦ ?_) _ fun index hindex ↦ ?_
  · rcases (mem_patternWrites hopened).mp hwrite with ⟨y, hy, x, hx, rfl⟩ |
      ⟨y, hy, x, hx, rfl | rfl⟩
    · have hlt := VideoDecoderStub.plane_index_lt hy hx
      rw [Nat.mul_comm height] at hlt
      have hpos : 0 < width := Nat.zero_lt_of_lt hx
      rw [patternByte, if_pos hlt, Nat.mul_comm y, Nat.mul_add_div hpos, Nat.mul_add_mod,
        Nat.div_eq_of_lt hx, Nat.mod_eq_of_lt hx, Nat.add_zero]
    · have hlt := VideoDecoderStub.plane_index_lt hy hx
      rw [patternByte, if_neg (by dsimp only; omega), if_pos (by dsimp only; omega)]
    · rw [patternByte, if_neg (by dsimp only; omega), if_neg (by dsimp only; omega),
        Nat.add_sub_cancel_left, Nat.mul_comm y, Nat.mul_add_mod, Nat.mod_eq_of_lt hx]
  · by_cases hluma : index < width * height
    · rw [Nat.mul_comm] at hluma
      obtain ⟨y, hy, x, hx, rfl⟩ := exists_pixel hluma
      exact ⟨_, (mem_patternWrites hopened).mpr (.inl ⟨y, hy, x, hx, rfl⟩), rfl⟩
    · by_cases hu : index < width * height + width * height / 4
      · obtain ⟨y, hy, x, hx, hindex⟩ :=
          @exists_pixel (height / 2) (width / 2) (index - width * height) (by omega)
        refine ⟨_, (mem_patternWrites hopened).mpr (.inr ⟨y, hy, x, hx, .inl rfl⟩), ?_⟩
        dsimp only
        omega
      · obtain ⟨y, hy, x, hx, hindex⟩ := @exists_pixel (height / 2) (width / 2)
          (index - (width * height + width * height / 4)) (by omega)
        refine ⟨_, (mem_patternWrites hopened).mpr (.inr ⟨y, hy, x, hx, .inr rfl⟩), ?_⟩
        dsimp only
        omega

/-! ### One frame -/

/-- An open decoder without queued bytes, which has decoded frames, as many as given modulo `256`,
and is to give the next frame of the pattern the given pts. -/
structure Playing (width height decoded pts : ℕ) (decoder : VideoDecoderStub) : Prop
    extends decoder.OpenedExactly width height where
  pos : 0 < width * height
  stored_eq : decoder.packets.stored = []
  decoded_eq : decoder.framesDecoded % 256 = decoded % 256
  nextPts_eq : decoder.nextPts = .ofNat pts

variable {decoded pts : ℕ}

theorem Playing.size_ne_zero (hplaying : Playing width height decoded pts decoder) :
    decoder.frames.size ≠ 0 := by
  obtain ⟨hlt, -⟩ := VideoDecoderStub.i420Size_of_exact hplaying.exact
  refine hplaying.toOpenedAs.size_ne_zero hplaying.even_width hplaying.even_height ?_
  rw [Nat.mod_eq_of_lt hlt]
  exact hplaying.pos.ne'

/-- The tool repeats its frames. -/
theorem packedFrame_mod (width height : ℕ) {f f' : ℕ} (hmod : f % 256 = f' % 256) :
    packedFrame width height f = packedFrame width height f' := by
  have ht : f * 3 % 256 = f' * 3 % 256 := by omega
  rw [packedFrame, packedFrame, ht]

/-- A decode that returns a frame and leaves nothing queued. -/
theorem Playing.after_decode (hplaying : Playing width height decoded pts decoder)
    {start next : VideoDecoderStub} {frame : VideoFrame} {contents : List UInt8} {pts' : ℕ}
    (hopened : start.OpenedExactly width height)
    (hdecode : start.decode = some (next, ⟨true, frame⟩)) (hstored : next.packets.stored = [])
    (hdecoded : next.framesDecoded = addMod word64 decoder.framesDecoded 1)
    (hpts : next.nextPts = .ofNat pts') (hcontents : next.planeBytes frame = contents) :
    showNext start = some (next, some ⟨frame.pts, contents⟩) ∧
      Playing width height (decoded + 1) pts' next := by
  have hstep : start.performStream .decode =
      some (next, .decoded ⟨true, frame⟩ (frameContents next frame)) := by
    rw [VideoDecoderStub.performStream, hdecode, Option.map_some]
  refine ⟨?_, { hopened.performStream hstep with
    pos := hplaying.pos
    stored_eq := hstored
    decoded_eq := ?_
    nextPts_eq := hpts }⟩
  · rw [showNext, hdecode, ← hcontents]
    rfl
  · have hmod := hplaying.decoded_eq
    rw [hdecoded]
    unfold addMod word64
    omega

/-- Without a packet the next frame is that of the pattern. -/
theorem Playing.shows_pattern (hplaying : Playing width height decoded pts decoder) :
    ∃ next, showNext decoder = some (next, some ⟨.ofNat pts, packedFrame width height decoded⟩) ∧
      Playing width height (decoded + 1) (pts + 1) next := by
  have hopened := hplaying.toOpenedExactly
  have hslot := hopened.slot_le hopened.frameGeometry
  obtain ⟨packets, hconsumed, hdecode⟩ := VideoDecoderStub.decode_eq hplaying.valid
  have hstore : decoder.frames.store decoder.slotOffset decoder.patternWrites =
      some { decoder.frames with
        bytes := stores decoder.frames.bytes decoder.slotOffset decoder.patternWrites } := by
    refine if_pos fun write hwrite ↦ ?_
    have hlt := hopened.patternWrites_lt write hwrite
    omega
  have hdecodeOn : decoder.decodeOn decoder.packets.stored =
      (0, some ({ decoder with nextPts := decoder.nextPts + 1 }.served decoder.nextPts
        { decoder.frames with
          bytes := stores decoder.frames.bytes decoder.slotOffset decoder.patternWrites })) := by
    rw [VideoDecoderStub.decodeOn, hplaying.isOpen, hplaying.pattern, hplaying.stored_eq,
      if_neg (by simpa using hplaying.size_ne_zero), if_neg (by decide), if_neg (by decide), hstore]
    rfl
  rw [hdecodeOn] at hconsumed hdecode
  have hstored : packets.stored = [] := by
    rw [hconsumed.stored_eq, hplaying.stored_eq, List.drop_nil]
  have hpts : decoder.nextPts + 1 = .ofNat (pts + 1) := by
    rw [hplaying.nextPts_eq, UInt64.ofNat_add]
    rfl
  obtain ⟨hshow, hnext⟩ := hplaying.after_decode hopened hdecode hstored rfl hpts
    ((VideoDecoderStub.planeBytes_eq (hopened.frameGeometry.planes decoder.nextPts)).trans
      ((pattern_eq_packedFrame hopened).trans (packedFrame_mod _ _ hplaying.decoded_eq)))
  refine ⟨_, hshow.trans ?_, hnext⟩
  rw [← hplaying.nextPts_eq]
  rfl

/-- The queue of an open decoder into which one packet of a frame has been pushed. -/
theorem Playing.push (hplaying : Playing width height decoded pts decoder) {packet : Packet}
    (hlength : packet.payload.length = decoder.frameBytes)
    (hfits : headerBytes + decoder.frameBytes ≤ 2 ^ 16) :
    ∃ queue, { decoder with packets := queue }.OpenedExactly width height ∧
      queue.stored = packet.header ++ packet.payload ∧
      decoder.push packet = some ({ decoder with packets := queue }, true) := by
  obtain ⟨queue, happended, hpush⟩ := VideoDecoderStub.push_eq hplaying.valid packet
  have hneed : addMod word64 headerBytes packet.payload.length =
      headerBytes + packet.payload.length := Nat.mod_eq_of_lt (by unfold word64; omega)
  have hempty : decoder.packets.size = 0 := by
    rw [← ZeroCopyRing.length_stored, hplaying.stored_eq, List.length_nil]
  have hpos : packet.payload.length ≠ 0 := by
    obtain ⟨-, hsize⟩ := VideoDecoderStub.i420Size_of_exact hplaying.exact
    have hpos := hplaying.pos
    rw [hlength, hplaying.frameBytes_eq, hsize]
    omega
  have hpushOn : decoder.pushOn decoder.packets.freeSpace packet =
      (packet.header ++ packet.payload, true) := by
    have hroom : packet.payload.length ≤ 2 ^ 16 - headerBytes := by omega
    unfold VideoDecoderStub.pushOn
    rw [hneed, hplaying.isOpen, hplaying.valid.freeSpace_eq, hplaying.capacity_eq, hempty,
      Nat.sub_zero, if_neg (by simpa using hpos), if_neg (by omega), if_neg (by decide),
      List.take_of_length_le hroom, decide_eq_true hroom]
  rw [hpushOn] at happended hpush
  have hstep : decoder.performStream (.push packet) = some (_, .pushed true) :=
    (congrArg (Option.map _) hpush).trans rfl
  refine ⟨queue, hplaying.toOpenedExactly.performStream hstep, ?_, hpush⟩
  rw [happended.stored_eq, hplaying.stored_eq, List.nil_append]

/-- A packet of a frame that has been pushed is the next frame. -/
theorem Playing.shows_packet (hplaying : Playing width height decoded pts decoder)
    {packet : Packet} (hlength : packet.payload.length = decoder.frameBytes)
    (hfits : headerBytes + decoder.frameBytes ≤ 2 ^ 16) :
    ∃ pushed next, decoder.push packet = some (pushed, true) ∧
      showNext pushed = some (next, some ⟨packet.pts, packet.payload⟩) ∧
      Playing width height (decoded + 1) pts next := by
  obtain ⟨queue, hopened, hqueued, hpush⟩ := hplaying.push hlength hfits
  have hgeometry := hplaying.toOpenedExactly.frameGeometry
  have hslot := hplaying.slot_le hgeometry
  obtain ⟨packets, hconsumed, hdecode⟩ := VideoDecoderStub.decode_eq hopened.valid
  have hheader : queue.stored.take headerBytes = packet.header := by
    rw [hqueued, List.take_left' packet.length_header]
  have hpayload : queue.stored.drop headerBytes = packet.payload := by
    rw [hqueued, List.drop_left' packet.length_header]
  have htotal : queue.stored.length = headerBytes + packet.payload.length := by
    rw [hqueued, List.length_append, packet.length_header]
  have hnbytes : headerNbytes packet.header = packet.payload.length := by
    rw [headerNbytes_header, Nat.mod_eq_of_lt]
    unfold word32
    omega
  have hcopy : decoder.frames.copyIn decoder.slotOffset packet.payload =
      some { decoder.frames with
        bytes := splice decoder.frames.bytes decoder.slotOffset packet.payload } :=
    if_pos (by rwa [hlength])
  have hdecodeOn : { decoder with packets := queue }.decodeOn queue.stored =
      (headerBytes + packet.payload.length, some ({ decoder with packets := queue }.served
        packet.pts { decoder.frames with
          bytes := splice decoder.frames.bytes decoder.slotOffset packet.payload })) := by
    have hbytes : { decoder with packets := queue }.frameBytes = packet.payload.length :=
      hlength.symm
    have hoffset : { decoder with packets := queue }.slotOffset = decoder.slotOffset := rfl
    unfold VideoDecoderStub.decodeOn
    dsimp only
    rw [hheader, hnbytes, hpayload, htotal, hbytes, hoffset, List.take_length, headerPts_header,
      hcopy, hplaying.isOpen, if_neg (by simpa using hplaying.size_ne_zero),
      if_pos (Nat.le_add_right _ _), if_neg (lt_irrefl _), if_neg (lt_irrefl _)]
    rfl
  rw [hdecodeOn] at hconsumed hdecode
  have hstored : packets.stored = [] := by
    rw [hconsumed.stored_eq, ← htotal, List.drop_length]
  have hcontents : cells (splice decoder.frames.bytes decoder.slotOffset packet.payload)
      decoder.slotOffset decoder.frameBytes = packet.payload := by
    rw [← hlength]
    exact cells_splice_self _ _ _
  obtain ⟨hshow, hnext⟩ := hplaying.after_decode hopened hdecode hstored rfl hplaying.nextPts_eq
    ((VideoDecoderStub.planeBytes_eq (hgeometry.planes packet.pts)).trans hcontents)
  exact ⟨_, _, hpush, hshow, hnext⟩

/-! ### The run -/

/-- The frames of the pattern, with the pts that count from the given one. -/
def patternFrames (width height decoded pts count : ℕ) : List Shown :=
  (List.range count).map fun k ↦ ⟨.ofNat (pts + k), packedFrame width height (decoded + k)⟩

theorem patternFrames_succ (width height decoded pts count : ℕ) :
    patternFrames width height decoded pts (count + 1) =
      ⟨.ofNat pts, packedFrame width height decoded⟩ ::
        patternFrames width height (decoded + 1) (pts + 1) count := by
  simp only [patternFrames, List.range_succ_eq_map, List.map_cons, List.map_map]
  congr 1
  refine List.map_congr_left fun k _ ↦ ?_
  simp only [Function.comp_apply, Nat.add_assoc, Nat.add_comm 1]

theorem getElem?_patternFrames (width height decoded pts : ℕ) {count k : ℕ} (hk : k < count) :
    (patternFrames width height decoded pts count)[k]? =
      some ⟨.ofNat (pts + k), packedFrame width height (decoded + k)⟩ := by
  rw [patternFrames, List.getElem?_map, List.getElem?_range hk, Option.map_some]

/-- The first loop shows the pattern. -/
theorem Playing.decodeWhile (rounds : ℕ) (hplaying : Playing width height decoded pts decoder) :
    ∃ next, decodeWhile true rounds decoder =
        some (next, patternFrames width height decoded pts rounds) ∧
      Playing width height (decoded + rounds) (pts + rounds) next := by
  induction rounds generalizing decoder decoded pts with
  | zero => exact ⟨decoder, rfl, hplaying⟩
  | succ rounds ih =>
    obtain ⟨next, hshow, hnext⟩ := hplaying.shows_pattern
    obtain ⟨last, hrest, hlast⟩ := ih hnext
    refine ⟨last, ?_, ?_⟩
    · rw [Bench.decodeWhile, if_pos rfl, hshow, Option.bind_some]
      dsimp only
      rw [hrest, Option.map_some, patternFrames_succ]
    · rwa [Nat.add_right_comm, Nat.add_right_comm pts] at hlast

/-- A packet that does not fit into the ring is refused. -/
theorem Playing.push_refused (hplaying : Playing width height decoded pts decoder)
    {packet : Packet} (hlength : packet.payload.length = decoder.frameBytes)
    (hfull : 2 ^ 16 < headerBytes + decoder.frameBytes) :
    decoder.push packet = some (decoder, false) := by
  have hlt := hplaying.frameBytes_lt
  refine VideoDecoderStub.push_refused hplaying.toRingReady (by rwa [hlength]) ?_
  rw [hlength]
  unfold headerBytes word64
  omega

/-- The packet of a tick is a window of the clip. -/
theorem length_window {clip : List UInt8} {bytes : ℕ} (hclip : bytes ≤ clip.length) (f : ℕ) :
    ((clip.drop (clipOffset clip.length bytes f)).take bytes).length = bytes := by
  have hoffset : clipOffset clip.length bytes f < clip.length - bytes + 1 :=
    Nat.mod_lt _ (Nat.succ_pos _)
  rw [List.length_take, List.length_drop]
  omega

section Ticks

variable {packed : Option PackedAssets} {bytes : ℕ} {arena : LinearArenaAllocator}

/-- Ticks that each show what is expected show all of it. -/
theorem videoTicks_eq (hroom : 256 ≤ arena.capacity) (inv : ℕ → VideoDecoderStub → Prop)
    (shown : ℕ → Shown)
    (htick : ∀ f decoder, inv f decoder →
      ∃ next, decodeTick packed bytes f decoder = some (next, some (shown f)) ∧ inv (f + 1) next)
    (ticks f : ℕ) (hinv : inv f decoder) :
    ∃ next, videoTicks packed bytes ticks f arena decoder =
      some (next, (List.range ticks).map fun k ↦ some (shown (f + k))) := by
  induction ticks generalizing arena decoder f with
  | zero => exact ⟨decoder, rfl⟩
  | succ ticks ih =>
    obtain ⟨next, hshow, hnext⟩ := htick f decoder hinv
    obtain ⟨last, hrest⟩ := ih ((capacity_tickMemory arena).symm ▸ hroom) (f + 1) hnext
    refine ⟨last, ?_⟩
    rw [videoTicks, videoTick, if_pos ((tickMemory_iff arena).mpr hroom), hshow, Option.bind_some]
    dsimp only
    rw [hrest, Option.map_some, List.range_succ_eq_map, List.map_cons, List.map_map]
    simp only [Function.comp_def, Nat.add_right_comm f, Nat.succ_eq_add_one, Nat.add_assoc,
      Nat.add_zero]

/-- Ticks that each leave the decoder alone show nothing. -/
theorem videoTicks_none (inv : LinearArenaAllocator → Prop)
    (htick : ∀ f arena, inv arena → videoTick packed bytes f arena decoder = some (decoder, none) ∧
      inv (tickMemory arena).1) (ticks f : ℕ) (hinv : inv arena) :
    videoTicks packed bytes ticks f arena decoder =
      some (decoder, List.replicate ticks none) := by
  induction ticks generalizing arena f with
  | zero => rfl
  | succ ticks ih =>
    obtain ⟨hshow, hnext⟩ := htick f arena hinv
    rw [videoTicks, hshow, Option.bind_some]
    dsimp only
    rw [ih (f + 1) hnext, Option.map_some, List.replicate_succ]

/-- The ticks show nothing if the arena is too small for one. -/
theorem videoTicks_starved (hroom : ¬256 ≤ arena.capacity) (ticks f : ℕ) :
    videoTicks packed bytes ticks f arena decoder =
      some (decoder, List.replicate ticks none) := by
  refine videoTicks_none (fun arena ↦ ¬256 ≤ arena.capacity) (fun f arena hroom ↦ ?_) ticks f hroom
  refine ⟨?_, (capacity_tickMemory arena).symm ▸ hroom⟩
  rw [videoTick, if_neg fun hmemory ↦ hroom ((tickMemory_iff arena).mp hmemory)]

end Ticks

/-- The window of a clip for a tick. -/
def clipWindow (clip : List UInt8) (bytes f : ℕ) : List UInt8 :=
  (clip.drop (clipOffset clip.length bytes f)).take bytes

theorem Playing.bytes_pos (hplaying : Playing width height decoded pts decoder) :
    0 < i420Size width height := by
  have hpos := hplaying.pos
  rw [(VideoDecoderStub.i420Size_of_exact hplaying.exact).2]
  omega

/-- A tick with a clip pushes its window. -/
theorem Playing.decodeTick_clip (hplaying : Playing width height decoded pts decoder)
    {assets : PackedAssets} (hclip : i420Size width height ≤ assets.i420.length) (f : ℕ) :
    decodeTick (some assets) (i420Size width height) f decoder =
      ((decoder.push ⟨.ofNat f, clipWindow assets.i420 (i420Size width height) f⟩).map
        Prod.fst).bind showNext := by
  have hpos := hplaying.bytes_pos
  have hne : assets.i420 ≠ [] := by
    rintro hnil
    rw [hnil, List.length_nil] at hclip
    omega
  exact congrArg (fun pushed : Option VideoDecoderStub ↦ pushed.bind showNext)
    (if_pos ⟨hne, hpos, hclip⟩)

/-- The ticks show the windows of the clip if a frame fits into the ring. -/
theorem Playing.videoTicks_fits (hplaying : Playing width height decoded pts decoder)
    {arena : LinearArenaAllocator} (hroom : 256 ≤ arena.capacity) {assets : PackedAssets}
    (hclip : i420Size width height ≤ assets.i420.length)
    (hfits : headerBytes + i420Size width height ≤ 2 ^ 16) (ticks : ℕ) :
    ∃ next, videoTicks (some assets) (i420Size width height) ticks 0 arena decoder =
      some (next, (List.range ticks).map fun f ↦
        some ⟨.ofNat f, clipWindow assets.i420 (i420Size width height) f⟩) := by
  have htick : ∀ f decoder, (∃ decoded, Playing width height decoded pts decoder) →
      ∃ next, decodeTick (some assets) (i420Size width height) f decoder =
        some (next, some ⟨.ofNat f, clipWindow assets.i420 (i420Size width height) f⟩) ∧
          ∃ decoded, Playing width height decoded pts next := by
    rintro f decoder ⟨decoded, hplaying⟩
    have hbytes := hplaying.frameBytes_eq
    have hlength : (Packet.mk (.ofNat f)
        (clipWindow assets.i420 (i420Size width height) f)).payload.length = decoder.frameBytes :=
      (length_window hclip f).trans hbytes.symm
    obtain ⟨pushed, next, hpush, hshow, hnext⟩ := hplaying.shows_packet hlength (by rwa [hbytes])
    refine ⟨next, ?_, decoded + 1, hnext⟩
    rw [hplaying.decodeTick_clip hclip, hpush, Option.map_some, Option.bind_some, hshow]
  obtain ⟨next, hrun⟩ := videoTicks_eq hroom _ _ htick ticks 0 ⟨decoded, hplaying⟩
  exact ⟨next, by simpa only [Nat.zero_add] using hrun⟩

/-- The ticks go on with the pattern if they push nothing that is accepted. -/
theorem Playing.videoTicks_pattern (hplaying : Playing width height decoded pts decoder)
    {arena : LinearArenaAllocator} (hroom : 256 ≤ arena.capacity) {packed : Option PackedAssets}
    {bytes : ℕ}
    (hquiet : ∀ f decoder, (∃ decoded pts, Playing width height decoded pts decoder) →
      decodeTick packed bytes f decoder = showNext decoder) (ticks : ℕ) :
    ∃ next, videoTicks packed bytes ticks 0 arena decoder =
      some (next, (patternFrames width height decoded pts ticks).map some) := by
  have htick : ∀ f decoder, Playing width height (decoded + f) (pts + f) decoder →
      ∃ next, decodeTick packed bytes f decoder =
        some (next, some ⟨.ofNat (pts + f), packedFrame width height (decoded + f)⟩) ∧
          Playing width height (decoded + (f + 1)) (pts + (f + 1)) next := by
    intro f decoder hplaying
    obtain ⟨next, hshow, hnext⟩ := hplaying.shows_pattern
    exact ⟨next, (hquiet f decoder ⟨_, _, hplaying⟩).trans hshow, hnext⟩
  obtain ⟨next, hrun⟩ := videoTicks_eq hroom
    (fun f decoder ↦ Playing width height (decoded + f) (pts + f) decoder) _ htick ticks 0
    hplaying
  refine ⟨next, hrun.trans ?_⟩
  simp only [Nat.zero_add, patternFrames, List.map_map, Function.comp_def]

/-- A new decoder that has been opened. -/
theorem playing_openPattern {closed : VideoDecoderStub}
    (hready : closed.RingReady) (hstored : closed.packets.stored = [])
    (hopen : (closed.openPattern width height).2 = true)
    (hexact : width * height * 3 / 2 < 2 ^ 62) :
    Playing width height 0 0 (closed.openPattern width height).1 := by
  have hopened := VideoDecoderStub.openedAs_openPattern hready hopen
  obtain ⟨hwidth, hheight⟩ := VideoDecoderStub.even_of_openPattern hopen
  have hpos := VideoDecoderStub.frameBytes_pos hopen
  have hpackets := VideoDecoderStub.packets_openPattern closed width height
  unfold VideoDecoderStub.openPattern at hopen hopened hpackets ⊢
  split_ifs at hopen hopened hpackets ⊢
  exact { hopened with
    even_width := hwidth
    even_height := hheight
    exact := hexact
    pos := hpos
    stored_eq := by rw [hpackets, hstored]
    decoded_eq := rfl
    nextPts_eq := rfl }

/-- What the benchmark shows before the ticks and in them, when the decoder has been opened. -/
theorem Playing.play (hplaying : Playing width height 0 0 decoder) {packed : Option PackedAssets}
    {arenaBytes : UInt64} {ticks : ℕ} {memory : ℕ → UInt8}
    (hopen : openVideo packed (.create memory) = (decoder, true)) {packet : List Shown}
    {shown : List (Option Shown)}
    (hpacket : ∀ video, Playing width height 8 8 video → ∃ next,
      playPacket packed true video = some (next, packet) ∧
        (256 ≤ (frameArena arenaBytes).capacity → ∃ last,
          videoTicks packed next.frameBytes ticks 0 (frameArena arenaBytes) next =
            some (last, shown))) :
    playVideo arenaBytes packed ticks memory = some
      { before := patternFrames width height 0 0 8 ++ packet
        ticks := if HoldsTick arenaBytes then shown else List.replicate ticks none } := by
  obtain ⟨video, hpattern, hvideo⟩ := hplaying.decodeWhile 8
  obtain ⟨next, hplayed, hshown⟩ := hpacket video hvideo
  obtain ⟨last, hticks⟩ : ∃ last,
      videoTicks packed next.frameBytes ticks 0 (frameArena arenaBytes) next =
        some (last, if HoldsTick arenaBytes then shown else List.replicate ticks none) := by
    split_ifs with hholds
    · exact hshown ((le_capacity_frameArena arenaBytes).mpr hholds)
    · exact ⟨next, videoTicks_starved (mt (le_capacity_frameArena arenaBytes).mp hholds) ticks 0⟩
  rw [playVideo, hopen]
  dsimp only
  rw [hpattern, Option.bind_some]
  dsimp only
  rw [hplayed, Option.bind_some]
  dsimp only
  rw [hticks]
  rfl

end Pattern

/-- The packet of `main` where the decoder is open and the clip has a frame. -/
theorem playPacket_clip {assets : PackedAssets} {video : VideoDecoderStub}
    (hclip : video.frameBytes ≤ assets.i420.length) :
    playPacket (some assets) true video =
      (video.push ⟨42, assets.i420.take video.frameBytes⟩).bind fun (video, pushed) ↦
        if pushed then (showNext video).map fun (video, shown) ↦ (video, shown.toList)
        else some (video, []) := by
  rw [playPacket]
  dsimp only
  rw [if_pos rfl, if_pos ⟨rfl, hclip⟩]

section Clip

variable {assets : PackedAssets}

/-- Assets with a clip that the decoder can be opened for. -/
structure PackedAssets.Playable (assets : PackedAssets) : Prop where
  two_le_width : 2 ≤ assets.width
  two_le_height : 2 ≤ assets.height
  even : EvenSize assets.width assets.height
  exact : assets.width * assets.height * 3 / 2 < 2 ^ 62
  clip : i420Size assets.width assets.height ≤ assets.i420.length

/-- The decoder is open after `open_pattern`. -/
theorem PackedAssets.Playable.opened (hplayable : assets.Playable) (memory : ℕ → UInt8) :
    ∃ decoder, openVideo (some assets) (.create memory) = (decoder, true) ∧
      Playing assets.width assets.height 0 0 decoder := by
  have hopen : ((VideoDecoderStub.create memory).openPattern assets.width assets.height).2 =
      true := by
    obtain ⟨hwidth, hheight, ⟨hwide, hhigh⟩, -, -⟩ := hplayable
    rw [VideoDecoderStub.openPattern, if_neg (by omega)]
  have hstored : (VideoDecoderStub.create memory).packets.stored = [] :=
    List.length_eq_zero_iff.mp ((ZeroCopyRing.length_stored _).trans
      (VideoDecoderStub.size_create memory))
  exact ⟨_, Prod.ext rfl hopen, playing_openPattern (VideoDecoderStub.ringReady_create memory)
    hstored hopen hplayable.exact⟩

theorem PackedAssets.Playable.length_packet (hplayable : assets.Playable)
    {video : VideoDecoderStub} {decoded pts : ℕ}
    (hvideo : Playing assets.width assets.height decoded pts video) :
    (Packet.mk 42 (assets.i420.take video.frameBytes)).payload.length = video.frameBytes := by
  rw [List.length_take, hvideo.frameBytes_eq]
  exact min_eq_left hplayable.clip

/-- The frames that are shown if a frame fits into the packet ring. -/
theorem play_fits (hplayable : assets.Playable)
    (hfits : headerBytes + i420Size assets.width assets.height ≤ 2 ^ 16) (arenaBytes : UInt64)
    (ticks : ℕ) (memory : ℕ → UInt8) :
    let bytes := i420Size assets.width assets.height
    playVideo arenaBytes (some assets) ticks memory = some
      { before := patternFrames assets.width assets.height 0 0 8 ++ [⟨42, assets.i420.take bytes⟩]
        ticks :=
          if HoldsTick arenaBytes then
            (List.range ticks).map fun f ↦ some ⟨.ofNat f, clipWindow assets.i420 bytes f⟩
          else List.replicate ticks none } := by
  intro bytes
  obtain ⟨decoder, hopened, hplaying⟩ := hplayable.opened memory
  refine hplaying.play hopened fun video hvideo ↦ ?_
  have hbytes : video.frameBytes = bytes := hvideo.frameBytes_eq
  obtain ⟨pushed, next, hpush, hshow, hnext⟩ :=
    hvideo.shows_packet (hplayable.length_packet hvideo) (by rwa [hbytes])
  refine ⟨next, ?_, fun hroom ↦ ?_⟩
  · rw [playPacket_clip (by rw [hbytes]; exact hplayable.clip), hpush, Option.bind_some]
    dsimp only
    rw [if_pos rfl, hshow, hbytes]
    rfl
  · rw [hnext.frameBytes_eq]
    exact hnext.videoTicks_fits hroom hplayable.clip hfits ticks

/-- The frames that are shown if no frame fits into the packet ring. -/
theorem play_full (hplayable : assets.Playable)
    (hfull : 2 ^ 16 < headerBytes + i420Size assets.width assets.height) (arenaBytes : UInt64)
    (ticks : ℕ) (memory : ℕ → UInt8) :
    playVideo arenaBytes (some assets) ticks memory = some
      { before := patternFrames assets.width assets.height 0 0 8
        ticks :=
          if HoldsTick arenaBytes then
            (patternFrames assets.width assets.height 8 8 ticks).map some
          else List.replicate ticks none } := by
  obtain ⟨decoder, hopened, hplaying⟩ := hplayable.opened memory
  rw [← List.append_nil (patternFrames assets.width assets.height 0 0 8)]
  refine hplaying.play hopened fun video hvideo ↦ ?_
  have hbytes := hvideo.frameBytes_eq
  have hrefused := hvideo.push_refused (hplayable.length_packet hvideo) (by rwa [hbytes])
  have hquiet : ∀ f decoder,
      (∃ decoded pts, Playing assets.width assets.height decoded pts decoder) →
      decodeTick (some assets) (i420Size assets.width assets.height) f decoder =
        showNext decoder := by
    rintro f decoder ⟨decoded, pts, hdecoder⟩
    have hbytes := hdecoder.frameBytes_eq
    have hlength : (Packet.mk (.ofNat f) (clipWindow assets.i420
        (i420Size assets.width assets.height) f)).payload.length = decoder.frameBytes :=
      (length_window hplayable.clip f).trans hbytes.symm
    rw [hdecoder.decodeTick_clip hplayable.clip, hdecoder.push_refused hlength (by rwa [hbytes])]
    rfl
  refine ⟨video, ?_, fun hroom ↦ ?_⟩
  · rw [playPacket_clip (by rw [hbytes]; exact hplayable.clip), hrefused, Option.bind_some]
    rfl
  · rw [hbytes]
    exact hvideo.videoTicks_pattern hroom hquiet ticks

/-- A decoder that is not open shows nothing. -/
theorem showNext_closed {decoder : VideoDecoderStub} (hclosed : decoder.isOpen = false) :
    showNext decoder = some (decoder, none) := by
  rw [showNext, VideoDecoderStub.decode, VideoDecoderStub.decodeNext, hclosed]
  rfl

/-- The ticks show nothing if the decoder is not open. -/
theorem videoTicks_closed (packed : Option PackedAssets) (ticks f : ℕ)
    (arena : LinearArenaAllocator) {decoder : VideoDecoderStub}
    (hclosed : decoder.isOpen = false) :
    videoTicks packed 0 ticks f arena decoder = some (decoder, List.replicate ticks none) := by
  refine videoTicks_none (fun _ ↦ True) (fun f arena _ ↦ ⟨?_, trivial⟩) ticks f trivial
  have hdecode : decodeTick packed 0 f decoder = some (decoder, none) := by
    rw [decodeTick, if_neg fun hpush ↦ lt_irrefl _ hpush.2.1, Option.bind_some,
      showNext_closed hclosed]
  rw [videoTick, hdecode, ite_self]

/-- Nothing is shown if `open_pattern` refuses the dimensions. -/
theorem play_refused (hrefused : ¬(2 ≤ assets.width ∧ 2 ≤ assets.height ∧
    EvenSize assets.width assets.height)) (arenaBytes : UInt64) (ticks : ℕ)
    (memory : ℕ → UInt8) :
    playVideo arenaBytes (some assets) ticks memory = some ⟨[], List.replicate ticks none⟩ := by
  have hopened : openVideo (some assets) (.create memory) = (.create memory, false) := by
    refine if_pos ?_
    by_contra haccepted
    push Not at haccepted
    exact hrefused ⟨by omega, by omega, by omega, by omega⟩
  rw [playVideo, hopened]
  change (videoTicks (some assets) 0 ticks 0 (frameArena arenaBytes) (.create memory)).map _ = _
  rw [videoTicks_closed _ _ _ _ rfl]
  rfl

end Clip

/-- The windows that the ticks ask for are the frames of the clip, as long as there are frames. -/
theorem clipWindow_packed {width height : ℕ} (heven : EvenSize width height) {frames : ℤ}
    (hclip : (writeI420 width height frames).length < 2 ^ 62) {f : ℕ} (hf : f < frames.toNat) :
    clipWindow (writeI420 width height frames) (width * height + width * height / 2) f =
      packedFrame width height f := by
  have hlength := length_writeI420 heven frames
  have hoffset : clipOffset (writeI420 width height frames).length
      (width * height + width * height / 2) f =
        f * (width * height + width * height / 2) := by
    have hle : (f + 1) * (width * height + width * height / 2) ≤
        frames.toNat * (width * height + width * height / 2) := Nat.mul_le_mul_right _ hf
    rw [Nat.succ_mul] at hle
    rw [clipOffset, Nat.mod_eq_of_lt (show _ < word64 by unfold word64; omega),
      Nat.mod_eq_of_lt (by omega)]
  have hrange : f < (List.range frames.toNat).length := by rwa [List.length_range]
  rw [clipWindow, hoffset, writeI420,
    RecordStream.take_drop_flatMap_of_length (length_packedFrame heven) hrange, List.getElem_range]

/-- The packed assets can be played, whatever has become of their rate and channels. -/
theorem playable_loaded (tone : ℤ → ℕ → ℤ) {args : PackArgs} (hwidth : 2 ≤ args.width)
    (hheight : 2 ≤ args.height) (heven : EvenSize args.width.toNat args.height.toNat)
    (hframes : 0 < args.frames)
    (hclip : (writeI420 args.width.toNat args.height.toNat args.frames).length < 2 ^ 62)
    (rate channels : ℕ) :
    { args.loaded tone with sampleRate := rate, channels := channels }.Playable ∧
      i420Size args.width.toNat args.height.toNat =
      args.width.toNat * args.height.toNat + args.width.toNat * args.height.toNat / 2 := by
  have hlength := length_writeI420 heven args.frames
  have hone := Nat.le_mul_of_pos_left (args.width.toNat * args.height.toNat +
    args.width.toNat * args.height.toNat / 2) (show 0 < args.frames.toNat by omega)
  have hexact : args.width.toNat * args.height.toNat * 3 / 2 < 2 ^ 62 := by omega
  obtain ⟨-, hsize⟩ := VideoDecoderStub.i420Size_of_exact hexact
  refine ⟨⟨?_, ?_, heven, hexact, ?_⟩, hsize⟩
  · change 2 ≤ args.width.toNat
    omega
  · change 2 ≤ args.height.toNat
    omega
  · change i420Size args.width.toNat args.height.toNat ≤
      (writeI420 args.width.toNat args.height.toNat args.frames).length
    rw [hsize]
    omega

end GameEngine.Bench
