import GameEngine.Multimedia.DecoderCalls

/-!
# Frames in the frame pool

A decoder keeps the frames it returns in the `kFrameSlots` slots of one pool. `geometry_iff` says
for which dimensions the slots lie in the pool, the planes tile their slot, and the pattern stays in
its planes. `packet_roundTrip` says that, for dimensions whose frame size does not wrap, a packet
with the bytes of one frame comes back as that frame if it fits into the ring at all.
-/

set_option autoImplicit false
set_option relaxedAutoImplicit false

namespace GameEngine.Multimedia

open GameEngine.Library GameEngine.Library.MachineWord GameEngine.Library.CircularBuffer

/-! ### The geometry of frames -/

/-- The three planes of a frame, with the sizes that its strides and its height give, follow each
other and fill a range of bytes. -/
structure VideoFrame.Tiles (frame : VideoFrame) (offset bytes : ℕ) : Prop where
  data : frame.data = some offset
  y : frame.y = some offset
  u : frame.u = some (offset + frame.strideY * frame.height)
  v : frame.v = some (offset + frame.strideY * frame.height + frame.strideUv * (frame.height / 2))
  bytes_eq : frame.strideY * frame.height + frame.strideUv * (frame.height / 2) +
    frame.strideUv * (frame.height / 2) = bytes

namespace VideoDecoderStub

/-- Every slot lies in the frame pool, the planes of the frame in the current slot tile that slot,
and every byte of the pattern is stored in the plane it belongs to. -/
structure FrameGeometry (decoder : VideoDecoderStub) : Prop where
  slots : ∀ slot < kFrameSlots,
    slot * decoder.frameBytes % word64 + decoder.frameBytes ≤ decoder.frames.size
  planes : ∀ pts, (decoder.frameInSlot pts).Tiles decoder.slotOffset decoder.frameBytes
  luma : ∀ write ∈ decoder.lumaWrites, write.1 < decoder.width * decoder.height % word64
  chroma : ∀ pair ∈ decoder.chromaWrites,
    let ySize := decoder.width * decoder.height % word64
    let uvSize := ySize / 4
    ySize ≤ pair.1.1 ∧ pair.1.1 < ySize + uvSize ∧
      ySize + uvSize ≤ pair.2.1 ∧ pair.2.1 < ySize + uvSize + uvSize

/-- Nothing wraps in the computation of the size of the pool. -/
def ExactPool (width height : ℕ) : Prop :=
  (width * height + width * height / 2) * kFrameSlots < word64

instance (width height : ℕ) : Decidable (ExactPool width height) :=
  inferInstanceAs (Decidable ((width * height + width * height / 2) * kFrameSlots < word64))

theorem ExactPool.i420Size_eq {width height : ℕ} (hexact : ExactPool width height) :
    width * height < word64 ∧
      i420Size width height = width * height + width * height / 2 := by
  have hsize : width * height + width * height / 2 < word64 :=
    lt_of_le_of_lt (Nat.le_mul_of_pos_right _ (by decide)) hexact
  exact ⟨lt_of_le_of_lt (Nat.le_add_right _ _) hsize, VideoDecoderStub.i420Size_eq hsize⟩

/-- Dimensions whose frame size is below `2 ^ 62` have an exact pool. -/
theorem exactPool_of_lt {width height : ℕ} (hexact : width * height * 3 / 2 < 2 ^ 62) :
    ExactPool width height := by
  unfold ExactPool kFrameSlots word64
  omega

variable {width height : ℕ} {decoder : VideoDecoderStub}

/-- The size of an even luma plane is a multiple of four. -/
theorem four_dvd_size (hwidth : width % 2 = 0) (hheight : height % 2 = 0) :
    4 ∣ width * height :=
  Nat.mul_dvd_mul (Nat.dvd_of_mod_eq_zero hwidth) (Nat.dvd_of_mod_eq_zero hheight)

/-- The geometry is right where nothing wraps. -/
theorem OpenedAs.frameGeometry (hopened : decoder.OpenedAs width height)
    (hwidth : width % 2 = 0) (hheight : height % 2 = 0) (hexact : ExactPool width height) :
    decoder.FrameGeometry := by
  obtain ⟨hlt, hsize⟩ := hexact.i420Size_eq
  obtain ⟨quarter, hquarter⟩ := four_dvd_size hwidth hheight
  have hchroma := chroma_size hwidth hheight
  have hbytes := hopened.frameBytes_eq
  have hpool := hopened.poolSize_eq
  obtain rfl := hopened.width_eq
  obtain rfl := hopened.height_eq
  refine ⟨fun slot hslot ↦ ?_, fun pts ↦ ⟨rfl, rfl, ?_, ?_, ?_⟩, lumaWrites_lt hlt,
    chromaWrites_inside hwidth hheight hlt⟩
  · rw [hpool, hbytes]
    refine slot_inside hslot ?_
    rwa [hsize]
  · simp only [frameInSlot, Nat.mod_eq_of_lt hlt]
  · simp only [frameInSlot, Nat.mod_eq_of_lt hlt]
    rw [Nat.mul_comm (decoder.width / 2), hchroma]
  · simp only [frameInSlot]
    rw [Nat.mul_comm (decoder.width / 2), hchroma, hbytes, hsize, hquarter]
    omega

/-- The pool is empty only if the luma plane has a multiple of `2 ^ 64` bytes. -/
theorem OpenedAs.size_ne_zero (hopened : decoder.OpenedAs width height)
    (hwidth : width % 2 = 0) (hheight : height % 2 = 0) (hwrapped : width * height % word64 ≠ 0) :
    decoder.frames.size ≠ 0 := by
  have hcoprime : Nat.Coprime word64 3 := Nat.Coprime.pow_left 64 (by decide)
  have hfour : 4 ∣ width * height % word64 :=
    (Nat.dvd_mod_iff (by norm_num [word64])).mpr (four_dvd_size hwidth hheight)
  have hlt := Nat.mod_lt (width * height) word64_pos
  rw [hopened.poolSize_eq, i420Size, kFrameSlots]
  generalize width * height % word64 = luma at *
  obtain ⟨quarter, rfl⟩ := hfour
  have hframe : 4 * quarter + 4 * quarter / 2 = 2 * quarter * 3 := by omega
  rw [addMod, hframe]
  intro hempty
  have hbytes : word64 ∣ 2 * quarter * 3 % word64 :=
    hcoprime.dvd_of_dvd_mul_right (Nat.dvd_of_mod_eq_zero hempty)
  have hquarter : word64 ∣ 2 * quarter :=
    hcoprime.dvd_of_dvd_mul_right ((Nat.dvd_mod_iff (dvd_refl _)).mp hbytes)
  have hle := Nat.le_of_dvd (by omega) hquarter
  omega

/-- `fill_pattern` stores a luma byte for every pixel. -/
theorem exists_lumaWrite {y x : ℕ} (hy : y < decoder.height) (hx : x < decoder.width) :
    ∃ write ∈ decoder.lumaWrites, write.1 = (y * decoder.width + x) % word64 :=
  ⟨_, List.mem_flatMap.mpr ⟨y, List.mem_range.mpr hy,
    List.mem_map.mpr ⟨x, List.mem_range.mpr hx, rfl⟩⟩, rfl⟩

/-- The geometry is right only where nothing wraps. -/
theorem FrameGeometry.exactPool (hgeometry : decoder.FrameGeometry)
    (hopened : decoder.OpenedAs width height) (hwidth : width % 2 = 0)
    (hheight : height % 2 = 0) : ExactPool width height := by
  have hpool := hopened.poolSize_eq
  have hbytes := hopened.frameBytes_eq
  obtain rfl := hopened.width_eq
  obtain rfl := hopened.height_eq
  -- Otherwise some luma byte is stored at the size that the code computes for the luma plane.
  have hlt : decoder.width * decoder.height < word64 := by
    by_contra hge
    have hmod := Nat.mod_lt (decoder.width * decoder.height) word64_pos
    obtain ⟨index, hindex⟩ : ∃ index, index = decoder.width * decoder.height % word64 := ⟨_, rfl⟩
    have hpos : 0 < decoder.width := by
      refine Nat.pos_of_ne_zero fun hzero ↦ ?_
      rw [hzero, Nat.zero_mul] at hge
      exact hge word64_pos
    have hy : index / decoder.width < decoder.height := by
      rw [Nat.div_lt_iff_lt_mul hpos, Nat.mul_comm]
      omega
    have hx : index % decoder.width < decoder.width := Nat.mod_lt _ hpos
    obtain ⟨write, hmem, hwrite⟩ := exists_lumaWrite hy hx
    have hinside := hgeometry.luma write hmem
    rw [hwrite, Nat.div_add_mod', Nat.mod_eq_of_lt (by omega)] at hinside
    omega
  have hmod := Nat.mod_eq_of_lt hlt
  -- The planes, with the sizes that their strides give, fill the frame that the code computes.
  have hframe : decoder.width * decoder.height + decoder.width * decoder.height / 2 =
      i420Size decoder.width decoder.height := by
    have hfill := (hgeometry.planes 0).bytes_eq
    obtain ⟨quarter, hquarter⟩ := four_dvd_size hwidth hheight
    simp only [frameInSlot] at hfill
    rw [Nat.mul_comm (decoder.width / 2), chroma_size hwidth hheight, hbytes] at hfill
    omega
  -- The second slot lies in the pool only if the size of the pool has not wrapped.
  have hslot := hgeometry.slots 1 (by decide)
  have hlt' : i420Size decoder.width decoder.height < word64 := Nat.mod_lt _ word64_pos
  rw [hbytes, hpool, Nat.one_mul, Nat.mod_eq_of_lt hlt'] at hslot
  unfold ExactPool
  rw [hframe]
  by_contra hge
  have hwrapped : i420Size decoder.width decoder.height * kFrameSlots % word64 ≤
      i420Size decoder.width decoder.height * kFrameSlots - word64 := by
    rw [Nat.mod_eq_sub_mod (Nat.le_of_not_lt hge)]
    exact Nat.mod_le _ _
  unfold kFrameSlots at *
  omega

/-- After a decoder has been opened, in any history, with dimensions that `open_pattern` accepts:
between all further pushes and decodes, with a frame pool that is not empty, the slots lie in the
pool, the planes tile their slot, and the pattern stays in its planes, if and only if nothing wraps
in the computation of the size of the pool, or the luma plane has a multiple of `2 ^ 64` bytes, so
that the pool is empty. Every successful decode returns the frame in the current slot of a pool that
is not empty. -/
theorem geometry_iff {memory : ℕ → UInt8} {closed : VideoDecoderStub}
    (hhistory : decoderSystem.Reaches TransitionSystem.unguarded (create memory) closed)
    (hopen : (closed.openPattern width height).2 = true) :
    ((∀ decoder, decoderSystem.Reaches (fun _ call ↦ call.isStream = true)
        (closed.openPattern width height).1 decoder → decoder.frames.size ≠ 0 →
        decoder.FrameGeometry) ↔
      ExactPool width height ∨ width * height % word64 = 0) ∧
    ∀ decoder next result, decoderSystem.Reaches (fun _ call ↦ call.isStream = true)
        (closed.openPattern width height).1 decoder →
      decoder.decode = some (next, result) → result.decoded = true →
        decoder.frames.size ≠ 0 ∧ ∃ pts, result.out = decoder.frameInSlot pts := by
  have hopened := openedAs_openPattern (reachable_ringReady hhistory) hopen
  obtain ⟨hwidth, hheight⟩ := even_of_openPattern hopen
  refine ⟨⟨fun hall ↦ ?_, fun hdimensions decoder hreach hsize ↦ ?_⟩,
    fun decoder next result hreach hdecode hdecoded ↦ ?_⟩
  · by_cases hwrapped : width * height % word64 = 0
    · exact .inr hwrapped
    · have hsize := hopened.size_ne_zero hwidth hheight hwrapped
      exact .inl ((hall _ .refl hsize).exactPool hopened hwidth hheight)
  · have hself := hopened.reaches hreach
    rcases hdimensions with hexact | hwrapped
    · exact hself.frameGeometry hwidth hheight hexact
    · refine absurd ?_ hsize
      rw [hself.poolSize_eq, i420Size, hwrapped]
      rfl
  · obtain ⟨packets, count, -, ⟨-, hresult⟩ | ⟨frames, pts, nextPts, -, hresult, -, hsize⟩⟩ :=
      decode_cases (hopened.reaches hreach).valid hdecode
    · rw [hresult] at hdecoded
      contradiction
    · exact ⟨hsize, pts, congrArg DecodeResult.out hresult⟩

/-- The theorem at a decoder that has been opened twice and has decoded a packet and a pattern. -/
theorem geometry_reopened : ∃ decoder : VideoDecoderStub,
    decoder.framesDecoded = 2 ∧ decoder.frames.size = 36 ∧ decoder.FrameGeometry := by
  obtain ⟨closed, hhistory, htest⟩ := TransitionSystem.Reaches.exists_of_schedule decoderSystem
    (create fun _ ↦ 0) [.openPattern 2 2, .stream .decode, .close]
    (fun closed ↦ (closed.openPattern 4 2).2 = true ∧
      decoderSystem.allowed (fun _ call ↦ call.isStream) (closed.openPattern 4 2).1
        [.stream (.push ⟨7, .replicate 12 1⟩), .stream .decode, .stream .decode] = true ∧
      ((decoderSystem.execute (closed.openPattern 4 2).1
        [.stream (.push ⟨7, .replicate 12 1⟩), .stream .decode, .stream .decode]).any
          fun decoder ↦ decoder.framesDecoded = 2 ∧ decoder.frames.size = 36) = true) (by decide)
  obtain ⟨hopen, hallowed, hany⟩ := of_decide_eq_true htest
  obtain ⟨decoder, hreach, hdecoder⟩ := TransitionSystem.Reaches.exists_of_any decoderSystem
    (closed.openPattern 4 2).1 _ (fun _ call ↦ call.isStream) _ (fun _ _ h ↦ h) hallowed hany
  obtain ⟨hframes, hsize⟩ := of_decide_eq_true hdecoder
  refine ⟨decoder, hframes, hsize, ?_⟩
  exact (geometry_iff hhistory hopen).1.mpr (.inl (by decide)) decoder hreach (by simp [hsize])

/-- A decoder of `2 ^ 63 + 2` by 2 pixels: the luma plane wraps to 4 bytes, the frame to 6 and the
pool to 18. `fill_pattern` stores luma bytes behind the luma plane and behind the pool. -/
theorem geometry_wraps :
    let opened := (create fun _ ↦ 0).openPattern (2 ^ 63 + 2) 2
    opened.2 = true ∧ opened.1.frames.size = 18 ∧
      (∃ write ∈ opened.1.lumaWrites, write.1 = 4 ∧
        ¬ write.1 < opened.1.width * opened.1.height % word64) ∧
      (∃ write ∈ opened.1.lumaWrites, write.1 = 18) ∧ opened.1.decode = none := by
  intro opened
  have hwidth : opened.1.width = 2 ^ 63 + 2 := rfl
  have hheight : opened.1.height = 2 := rfl
  have hpool : opened.1.frames.size = 18 := by decide
  have hluma : ∀ x < 2 ^ 63, ∃ write ∈ opened.1.lumaWrites, write.1 = x := by
    intro x hx
    obtain ⟨write, hmem, hwrite⟩ := @exists_lumaWrite opened.1 0 x (by decide)
      (by rw [hwidth]; omega)
    refine ⟨write, hmem, hwrite.trans ?_⟩
    rw [Nat.zero_mul, Nat.zero_add, Nat.mod_eq_of_lt]
    unfold word64
    omega
  obtain ⟨write, hmem, hindex⟩ := hluma 18 (by decide)
  refine ⟨by decide, hpool, ?_, ⟨write, hmem, hindex⟩, ?_⟩
  · obtain ⟨first, hfirst, hvalue⟩ := hluma 4 (by decide)
    refine ⟨first, hfirst, hvalue, ?_⟩
    rw [hvalue, hwidth, hheight]
    decide
  · have hfill : opened.1.fillPattern = none := by
      have hstore : opened.1.frames.store opened.1.slotOffset opened.1.patternWrites = none := by
        refine if_neg fun hall ↦ ?_
        have hinside := hall write (by
          rw [patternWrites_eq]
          exact List.mem_append_left _ hmem)
        rw [hpool, hindex] at hinside
        omega
      rw [fillPattern, hstore]
      rfl
    have hsize : opened.1.packets.size = 0 := size_create _
    have hopen : opened.1.isOpen = true := rfl
    have hpattern : opened.1.pattern = true := rfl
    rw [decode, decodeNext, hopen, hpool, hsize, hpattern, hfill]
    rfl

/-! ### Packets of one frame -/

/-- The bytes of the planes of a frame, with the sizes that its strides and its height give. -/
def planeBytes (decoder : VideoDecoderStub) (frame : VideoFrame) : List UInt8 :=
  let plane := fun (pointer : Option ℕ) (bytes : ℕ) ↦
    pointer.elim [] fun offset ↦ cells decoder.frames.bytes offset bytes
  plane frame.y (frame.strideY * frame.height) ++
    plane frame.u (frame.strideUv * (frame.height / 2)) ++
    plane frame.v (frame.strideUv * (frame.height / 2))

/-- The planes of a frame hold what its slot holds. -/
theorem planeBytes_eq {frame : VideoFrame} {offset bytes : ℕ} (htiles : frame.Tiles offset bytes) :
    decoder.planeBytes frame = cells decoder.frames.bytes offset bytes := by
  obtain ⟨-, hy, hu, hv, hbytes⟩ := htiles
  simp only [planeBytes, hy, hu, hv, Option.elim_some, cells_append, Nat.add_assoc]
  rw [← hbytes, Nat.add_assoc]

/-- The current slot lies in the pool. -/
theorem OpenedAs.slot_le (hopened : decoder.OpenedAs width height)
    (hgeometry : decoder.FrameGeometry) :
    decoder.slotOffset + decoder.frameBytes ≤ decoder.frames.size :=
  hgeometry.slots _ hopened.slot_lt

/-- A packet with the bytes of one frame, on an open decoder without queued packets whose geometry
is right: if it fits into the ring, it is accepted and comes back as the next frame. -/
theorem roundTrip_of_le (hopened : decoder.OpenedAs width height)
    (hgeometry : decoder.FrameGeometry) (hempty : decoder.packets.size = 0) {packet : Packet}
    (hlength : packet.payload.length = decoder.frameBytes) (hpos : decoder.frameBytes ≠ 0)
    (hfits : headerBytes + packet.payload.length ≤ 2 ^ 16) :
    ∃ pushed next frame, decoder.push packet = some (pushed, true) ∧
      pushed.decode = some (next, ⟨true, frame⟩) ∧ frame.pts = packet.pts ∧
      next.planeBytes frame = packet.payload := by
  have hslot := hopened.slot_le hgeometry
  have hstored : decoder.packets.stored = [] :=
    List.length_eq_zero_iff.mp (by rw [ZeroCopyRing.length_stored, hempty])
  -- The push puts the whole packet into the empty ring.
  obtain ⟨packets, happended, hpush⟩ := push_eq hopened.valid packet
  have hneed : addMod word64 headerBytes packet.payload.length =
      headerBytes + packet.payload.length := Nat.mod_eq_of_lt (by unfold word64; omega)
  have hpushOn : decoder.pushOn decoder.packets.freeSpace packet =
      (packet.header ++ packet.payload, true) := by
    have hroom : packet.payload.length ≤ 2 ^ 16 - headerBytes := by omega
    unfold pushOn
    rw [hneed, hopened.isOpen, hopened.valid.freeSpace_eq, hopened.capacity_eq, hempty,
      Nat.sub_zero, if_neg (by simpa [hlength] using hpos), if_neg (by omega), if_neg (by decide),
      List.take_of_length_le hroom, decide_eq_true hroom]
  rw [hpushOn] at happended hpush
  obtain ⟨hvalid, hcapacity, hqueued⟩ := happended
  rw [hstored, List.nil_append] at hqueued
  -- The decode finds the header, and the payload behind it.
  obtain ⟨packets', -, hdecode⟩ := @decode_eq { decoder with packets := packets } hvalid
  have hheader : packets.stored.take headerBytes = packet.header := by
    rw [hqueued, List.take_left' packet.length_header]
  have hpayload : packets.stored.drop headerBytes = packet.payload := by
    rw [hqueued, List.drop_left' packet.length_header]
  have htotal : packets.stored.length = headerBytes + packet.payload.length := by
    rw [hqueued, List.length_append, packet.length_header]
  have hnbytes : headerNbytes packet.header = packet.payload.length := by
    rw [headerNbytes_header, Nat.mod_eq_of_lt]
    unfold word32
    omega
  have hcopy : decoder.frames.copyIn decoder.slotOffset packet.payload =
      some { decoder.frames with
        bytes := splice decoder.frames.bytes decoder.slotOffset packet.payload } :=
    if_pos (by rwa [hlength])
  have hdecodeOn : { decoder with packets := packets }.decodeOn packets.stored =
      (headerBytes + packet.payload.length, some ({ decoder with packets := packets }.served
        packet.pts { decoder.frames with
          bytes := splice decoder.frames.bytes decoder.slotOffset packet.payload })) := by
    have hbytes : { decoder with packets := packets }.frameBytes = packet.payload.length :=
      hlength.symm
    have hoffset : { decoder with packets := packets }.slotOffset = decoder.slotOffset := rfl
    have hframes : decoder.frames.size ≠ 0 := by omega
    unfold decodeOn
    dsimp only
    rw [hheader, hnbytes, hpayload, htotal, hbytes, hoffset, List.take_length, headerPts_header,
      hcopy, hopened.isOpen, if_neg (by simpa using hframes), if_pos (Nat.le_add_right _ _),
      if_neg (lt_irrefl _), if_neg (lt_irrefl _)]
    rfl
  rw [hdecodeOn, Option.map_some] at hdecode
  refine ⟨_, _, _, hpush, hdecode, rfl, ?_⟩
  refine (planeBytes_eq (hgeometry.planes packet.pts)).trans ?_
  rw [← hlength]
  exact cells_splice_self _ _ _

/-- A packet that does not fit into the ring is refused. -/
theorem push_refused (hready : decoder.RingReady) {packet : Packet}
    (hfits : 2 ^ 16 < headerBytes + packet.payload.length)
    (hlt : headerBytes + packet.payload.length < word64) :
    decoder.push packet = some (decoder, false) := by
  have hneed : addMod word64 headerBytes packet.payload.length =
      headerBytes + packet.payload.length := Nat.mod_eq_of_lt hlt
  have hfree : decoder.packets.freeSpace < headerBytes + packet.payload.length := by
    have hle := hready.valid.freeSpace_le
    rw [hready.capacity_eq] at hle
    omega
  have hrefused : decoder.pushPacket packet = .returned false := by
    unfold pushPacket
    rw [hneed]
    split_ifs
    · rfl
    · exact if_pos hfree
  rw [push, hrefused]
  rfl

/-- `open_pattern` accepts no empty frame. -/
theorem frameBytes_pos {decoder : VideoDecoderStub}
    (hopen : (decoder.openPattern width height).2 = true) : 0 < width * height := by
  unfold openPattern at hopen
  split_ifs at hopen with hrefused
  exact Nat.mul_pos (by omega) (by omega)

/-- On an open decoder without queued packets, whose dimensions have an exact frame size below
`2 ^ 62`, a packet with the bytes of one frame is accepted, and the next decode returns them in the
planes of a frame with the pts of the packet, if the header and the frame fit into the ring of
`2 ^ 16` bytes. Otherwise the packet is refused and the decoder stays as it is. -/
theorem packet_roundTrip {memory : ℕ → UInt8} {closed decoder : VideoDecoderStub}
    (hhistory : decoderSystem.Reaches TransitionSystem.unguarded (create memory) closed)
    (hopen : (closed.openPattern width height).2 = true)
    (hexact : width * height * 3 / 2 < 2 ^ 62)
    (hreach : decoderSystem.Reaches (fun _ call ↦ call.isStream = true)
      (closed.openPattern width height).1 decoder)
    (hempty : decoder.packets.size = 0) {packet : Packet}
    (hlength : packet.payload.length = decoder.frameBytes) :
    (headerBytes + decoder.frameBytes ≤ 2 ^ 16 →
      ∃ pushed next frame, decoder.push packet = some (pushed, true) ∧
        pushed.decode = some (next, ⟨true, frame⟩) ∧ frame.pts = packet.pts ∧
        next.planeBytes frame = packet.payload) ∧
    (2 ^ 16 < headerBytes + decoder.frameBytes →
      decoder.push packet = some (decoder, false)) := by
  have hopened := (openedAs_openPattern (reachable_ringReady hhistory) hopen).reaches hreach
  obtain ⟨hwidth, hheight⟩ := even_of_openPattern hopen
  have hpool := exactPool_of_lt hexact
  have hgeometry := hopened.frameGeometry hwidth hheight hpool
  have hsize := hpool.i420Size_eq.2
  have hpos := frameBytes_pos hopen
  rw [← hopened.frameBytes_eq] at hsize
  refine ⟨fun hfits ↦ ?_, fun hfull ↦ ?_⟩
  · exact roundTrip_of_le hopened hgeometry hempty hlength (by omega) (by rwa [hlength])
  · refine push_refused hopened.toRingReady (by rwa [hlength]) ?_
    rw [hlength, hsize]
    unfold headerBytes word64
    omega

/-- The theorem at a decoder of 4 by 2 pixels that has returned a pattern before. -/
theorem packet_roundTrip_small : ∃ decoder pushed next : VideoDecoderStub, ∃ frame,
    decoder.slot = 1 ∧ decoder.push ⟨7, .replicate 12 1⟩ = some (pushed, true) ∧
      pushed.decode = some (next, ⟨true, frame⟩) ∧ frame.pts = 7 ∧
      next.planeBytes frame = .replicate 12 1 := by
  obtain ⟨decoder, hreach, htest⟩ := TransitionSystem.Reaches.exists_of_any decoderSystem
    ((create fun _ ↦ 0).openPattern 4 2).1 [.stream .decode] (fun _ call ↦ call.isStream)
    (fun decoder ↦ decoder.slot = 1 ∧ decoder.packets.size = 0 ∧ decoder.frameBytes = 12)
    (fun _ _ h ↦ h) (by decide) (by decide)
  obtain ⟨hslot, hempty, hbytes⟩ := of_decide_eq_true htest
  have hlength : (⟨7, .replicate 12 1⟩ : Packet).payload.length = decoder.frameBytes := hbytes.symm
  have hfits : headerBytes + decoder.frameBytes ≤ 2 ^ 16 := by
    rw [hbytes]
    decide
  obtain ⟨pushed, next, frame, hresult⟩ :=
    (packet_roundTrip .refl (by decide) (by decide) hreach hempty hlength).1 hfits
  exact ⟨decoder, pushed, next, frame, hslot, hresult⟩

/-- A decoder of 256 by 256 pixels refuses a packet with the bytes of one frame, with nothing
queued. -/
theorem large_packet_refused :
    let opened := (create fun _ ↦ 0).openPattern 256 256
    opened.2 = true ∧ 256 * 256 * 3 / 2 < 2 ^ 62 ∧ opened.1.packets.size = 0 ∧
      ∃ packet : Packet, packet.payload.length = opened.1.frameBytes ∧
        opened.1.push packet = some (opened.1, false) := by
  intro opened
  have hopened : opened.1.OpenedAs 256 256 :=
    openedAs_openPattern (ringReady_create _) (by decide)
  have hbytes : opened.1.frameBytes = 98304 := hopened.frameBytes_eq
  have hlength : (List.replicate 98304 (0 : UInt8)).length = 98304 := List.length_replicate
  refine ⟨by decide, by decide, size_create _, ⟨0, .replicate 98304 0⟩, ?_, ?_⟩
  · rw [hbytes]
    exact hlength
  · refine push_refused hopened.toRingReady ?_ ?_
    · dsimp only
      rw [hlength]
      decide
    · dsimp only
      rw [hlength]
      decide

end VideoDecoderStub

end GameEngine.Multimedia
