import GameEngine.Multimedia.DecoderFrames

/-!
# The lifetime of a returned frame

`decode_next` writes a frame into the current slot and moves on to the next one only when it returns
that frame. With `kFrameSlots` slots in turn, the slot of a returned frame is not written again
before the third frame after it. `frames_kept` says so for every run of pushes and decodes, and that
frames which are less than three apart do not overlap.

`FrameHistory` is a decoder with the frames it has returned since it was opened. `Retained` is the
invariant: the `k`-th returned frame lies in slot `k % kFrameSlots`, and holds the bytes it had when
it was returned as long as at most `kFrameSlots` frames have been returned from it on.
-/

set_option autoImplicit false
set_option relaxedAutoImplicit false

namespace GameEngine.Multimedia

open GameEngine.Library GameEngine.Library.MachineWord GameEngine.Library.CircularBuffer

/-- A frame that a decoder has returned, with the bytes it had then. -/
structure ReturnedFrame where
  frame : VideoFrame
  contents : List UInt8

/-- A decoder with the frames it has returned since it was opened, oldest first. -/
structure FrameHistory where
  decoder : VideoDecoderStub
  returned : List ReturnedFrame

/-- The frame that a call returns. -/
def VideoDecoderStub.StreamResult.returned : VideoDecoderStub.StreamResult → List ReturnedFrame
  | .pushed _ => []
  | .decoded result contents => if result.decoded then [⟨result.out, contents⟩] else []

namespace FrameHistory

open VideoDecoderStub

/-- A push or a decode. -/
def perform (history : FrameHistory) (call : StreamCall) : Option FrameHistory :=
  (history.decoder.performStream call).map fun next ↦
    ⟨next.1, history.returned ++ next.2.returned⟩

/-- A decoder in use as a transition system. -/
def historySystem : TransitionSystem FrameHistory StreamCall := ⟨perform⟩

/-- A decoder that has just been opened. -/
def opened (decoder : VideoDecoderStub) (width height : ℕ) : FrameHistory :=
  ⟨(decoder.openPattern width height).1, []⟩

end FrameHistory

namespace VideoDecoderStub

variable {width height : ℕ} {decoder : VideoDecoderStub}

/-! ### One decode -/

/-- Writing a frame changes no byte outside the current slot. -/
theorem WritesFrame.outside {frames : FramePool} (hwrites : decoder.WritesFrame frames)
    (hpattern : ∀ write ∈ decoder.patternWrites, write.1 < decoder.frameBytes) {index : ℕ}
    (hindex : index < decoder.slotOffset ∨ decoder.slotOffset + decoder.frameBytes ≤ index) :
    frames.bytes index = decoder.frames.bytes index := by
  cases hwrites with
  | packet data hlength hframes =>
    unfold FramePool.copyIn at hframes
    split_ifs at hframes
    rw [← Option.some.inj hframes]
    exact splice_outside (by rwa [hlength])
  | pattern hframes =>
    unfold FramePool.store at hframes
    split_ifs at hframes
    rw [← Option.some.inj hframes]
    -- No store of the pattern hits the index.
    have hstores : ∀ (writes : List (ℕ × UInt8)) (bytes : ℕ → UInt8),
        (∀ write ∈ writes, write.1 < decoder.frameBytes) →
        writes.foldl (fun bytes write ↦
          Function.update bytes (decoder.slotOffset + write.1) write.2) bytes index =
            bytes index := by
      intro writes
      induction writes with
      | nil => exact fun _ _ ↦ rfl
      | cons write rest ih =>
        intro bytes hall
        have hwrite := hall write List.mem_cons_self
        rw [List.foldl_cons, ih _ fun other hother ↦ hall other (List.mem_cons_of_mem _ hother)]
        exact Function.update_of_ne (by omega) _ _
    exact hstores _ _ hpattern

/-- A decoder opened with dimensions whose exact frame size is below `2 ^ 62`. -/
structure OpenedExactly (width height : ℕ) (decoder : VideoDecoderStub) : Prop
    extends OpenedAs width height decoder where
  even_width : width % 2 = 0
  even_height : height % 2 = 0
  exact : width * height * 3 / 2 < 2 ^ 62

/-- A push or a decode keeps the decoder open. -/
theorem OpenedExactly.performStream {next : VideoDecoderStub} {call : StreamCall}
    {result : StreamResult} (hopened : decoder.OpenedExactly width height)
    (hstep : decoder.performStream call = some (next, result)) :
    next.OpenedExactly width height :=
  { hopened.toOpenedAs.performStream hstep, hopened with }

theorem OpenedExactly.frameBytes_lt (hopened : decoder.OpenedExactly width height) :
    decoder.frameBytes < 2 ^ 62 := by
  have hexact := hopened.exact
  rw [hopened.frameBytes_eq, (i420Size_of_exact hexact).2]
  omega

/-- The slots follow each other. -/
theorem OpenedExactly.slotStart_eq (hopened : decoder.OpenedExactly width height) {slot : ℕ}
    (hslot : slot < kFrameSlots) :
    slot * decoder.frameBytes % word64 = slot * decoder.frameBytes := by
  have hlt := hopened.frameBytes_lt
  refine VideoDecoderStub.slotStart_eq hslot ?_
  unfold kFrameSlots word64
  omega

/-- The pattern stays in the current slot. -/
theorem OpenedExactly.patternWrites_lt (hopened : decoder.OpenedExactly width height) :
    ∀ write ∈ decoder.patternWrites, write.1 < decoder.frameBytes := by
  obtain rfl := hopened.width_eq
  obtain rfl := hopened.height_eq
  rw [decoder.frameBytes_eq]
  exact VideoDecoderStub.patternWrites_lt hopened.even_width hopened.even_height hopened.exact

theorem OpenedExactly.frameGeometry (hopened : decoder.OpenedExactly width height) :
    decoder.FrameGeometry :=
  hopened.toOpenedAs.frameGeometry hopened.even_width hopened.even_height
    (exactPool_of_lt hopened.exact)

/-- No push and no decode writes outside the frame pool. -/
theorem OpenedExactly.isSome_performStream (hopened : decoder.OpenedExactly width height)
    (call : StreamCall) : (decoder.performStream call).isSome = true := by
  have hslot := hopened.slot_le hopened.frameGeometry
  cases call with
  | push packet =>
    obtain ⟨packets, -, hpush⟩ := push_eq hopened.valid packet
    rw [VideoDecoderStub.performStream, hpush]
    rfl
  | decode =>
    obtain ⟨packets, -, hdecode⟩ := decode_eq hopened.valid
    rw [VideoDecoderStub.performStream, hdecode, Option.isSome_map, Option.isSome_map]
    unfold decodeOn
    dsimp only
    split_ifs
    · rfl
    · rfl
    · rfl
    · rw [Option.isSome_map]
      have hlength : decoder.slotOffset + ((decoder.packets.stored.drop headerBytes).take
          decoder.frameBytes).length ≤ decoder.frames.size :=
        (Nat.add_le_add_left (List.length_take_le _ _) _).trans hslot
      unfold FramePool.copyIn
      rw [if_pos hlength]
      rfl
    · rfl
    · rw [Option.isSome_map]
      have hinside : ∀ write ∈ decoder.patternWrites,
          decoder.slotOffset + write.1 < decoder.frames.size := by
        intro write hwrite
        have hlt := hopened.patternWrites_lt write hwrite
        omega
      unfold FramePool.store
      rw [if_pos hinside]
      rfl

end VideoDecoderStub

/-! ### Every run -/

namespace FrameHistory

open VideoDecoderStub

variable {width height : ℕ} {history next : FrameHistory}

/-- What holds between all pushes and decodes on a decoder opened with dimensions whose exact frame
size is below `2 ^ 62`. -/
structure Retained (width height : ℕ) (history : FrameHistory) : Prop where
  opened : history.decoder.OpenedExactly width height
  slot_eq : history.decoder.slot = history.returned.length % kFrameSlots
  tiles : ∀ (k : ℕ) (entry : ReturnedFrame), history.returned[k]? = some entry →
    entry.frame.Tiles (k % kFrameSlots * history.decoder.frameBytes) history.decoder.frameBytes
  contents : ∀ (k : ℕ) (entry : ReturnedFrame), history.returned[k]? = some entry →
    history.returned.length ≤ k + kFrameSlots →
      frameContents history.decoder entry.frame = entry.contents

/-- A step that returns no frame and changes neither the frame pool nor the current slot. -/
theorem Retained.quiet (hretained : history.Retained width height)
    (hopened : next.decoder.OpenedExactly width height)
    (hreturned : next.returned = history.returned)
    (hslot : next.decoder.slot = history.decoder.slot)
    (hframes : next.decoder.frames = history.decoder.frames) : next.Retained width height := by
  have hbytes : next.decoder.frameBytes = history.decoder.frameBytes :=
    hopened.frameBytes_eq.trans hretained.opened.frameBytes_eq.symm
  refine ⟨hopened, ?_, ?_, ?_⟩
  · rw [hslot, hreturned, hretained.slot_eq]
  · intro k entry hentry
    rw [hreturned] at hentry
    rw [hbytes]
    exact hretained.tiles k entry hentry
  · intro k entry hentry hrecent
    rw [hreturned] at hentry hrecent
    rw [← hretained.contents k entry hentry hrecent]
    unfold frameContents
    rw [hframes, hbytes]

/-- The slot of a frame lies in the frame pool. -/
theorem Retained.slot_le (hretained : history.Retained width height) (k : ℕ) :
    k % kFrameSlots * history.decoder.frameBytes + history.decoder.frameBytes ≤
      history.decoder.frames.size := by
  have hslot : k % kFrameSlots < kFrameSlots := Nat.mod_lt _ (by decide)
  have hinside := hretained.opened.frameGeometry.slots _ hslot
  rwa [hretained.opened.slotStart_eq hslot] at hinside

/-- Two different slots have no byte in common. -/
theorem slots_disjoint {first second : ℕ} (bytes : ℕ) (hne : first ≠ second) :
    first * bytes + bytes ≤ second * bytes ∨ second * bytes + bytes ≤ first * bytes := by
  rcases Nat.lt_or_gt_of_ne hne with hlt | hgt
  · left
    rw [← Nat.succ_mul]
    exact Nat.mul_le_mul_right bytes hlt
  · right
    rw [← Nat.succ_mul]
    exact Nat.mul_le_mul_right bytes hgt

/-- A step that returns the frame in the current slot after writing it. -/
theorem Retained.returns (hretained : history.Retained width height)
    (hopened : next.decoder.OpenedExactly width height) (pts : UInt64) {frames : FramePool}
    (hwrites : history.decoder.WritesFrame frames)
    (hreturned : next.returned = history.returned ++ [⟨history.decoder.frameInSlot pts,
      frameContents next.decoder (history.decoder.frameInSlot pts)⟩])
    (hslot : next.decoder.slot = (history.decoder.slot + 1) % kFrameSlots)
    (hframes : next.decoder.frames = frames) : next.Retained width height := by
  have hbytes : next.decoder.frameBytes = history.decoder.frameBytes :=
    hopened.frameBytes_eq.trans hretained.opened.frameBytes_eq.symm
  have hoffset : history.decoder.slotOffset =
      history.returned.length % kFrameSlots * history.decoder.frameBytes := by
    rw [slotOffset, hretained.opened.slotStart_eq hretained.opened.slot_lt, hretained.slot_eq]
  -- An entry of the new list is an old one, or the frame that has just been returned.
  have hentries : ∀ k entry, next.returned[k]? = some entry →
      history.returned[k]? = some entry ∨
        k = history.returned.length ∧ entry = ⟨history.decoder.frameInSlot pts,
          frameContents next.decoder (history.decoder.frameInSlot pts)⟩ := by
    intro k entry hentry
    rw [hreturned, List.getElem?_append] at hentry
    split_ifs at hentry with hold
    · exact .inl hentry
    · obtain ⟨hzero, hlast⟩ := List.getElem?_eq_some_iff.mp hentry
      simp only [List.length_singleton, Nat.lt_one_iff] at hzero
      simp only [hzero, List.getElem_cons_zero] at hlast
      exact .inr ⟨by omega, hlast.symm⟩
  have hlength : next.returned.length = history.returned.length + 1 := by
    rw [hreturned, List.length_append, List.length_singleton]
  refine ⟨hopened, ?_, ?_, ?_⟩
  · rw [hslot, hretained.slot_eq, hlength, Nat.mod_add_mod]
  · intro k entry hentry
    rw [hbytes]
    rcases hentries k entry hentry with hold | ⟨rfl, rfl⟩
    · exact hretained.tiles k entry hold
    · rw [← hoffset]
      exact hretained.opened.frameGeometry.planes pts
  · intro k entry hentry hrecent
    rcases hentries k entry hentry with hold | ⟨-, rfl⟩
    · -- The slot of a recent frame is not the one that has just been written.
      rw [hlength] at hrecent
      have hk : k < history.returned.length := (List.getElem?_eq_some_iff.mp hold).1
      have hne : k % kFrameSlots ≠ history.returned.length % kFrameSlots := mod_ne_mod hk hrecent
      rw [← hretained.contents k entry hold (by omega)]
      unfold frameContents
      rw [(hretained.tiles k entry hold).data, hframes, hbytes]
      refine cells_congr fun index hlower hupper ↦ ?_
      refine hwrites.outside hretained.opened.patternWrites_lt ?_
      have hdisjoint := slots_disjoint history.decoder.frameBytes hne
      omega
    · rfl

/-- A push or a decode. -/
theorem Retained.perform (hretained : history.Retained width height) {call : StreamCall}
    (hstep : history.perform call = some next) : next.Retained width height := by
  rw [FrameHistory.perform, Option.map_eq_some_iff] at hstep
  obtain ⟨after, hafter, rfl⟩ := hstep
  have hopened := hretained.opened.performStream hafter
  cases call with
  | push packet =>
    obtain ⟨packets, -, hpush⟩ := push_eq hretained.opened.valid packet
    rw [performStream, hpush] at hafter
    obtain rfl := Option.some.inj hafter
    exact hretained.quiet hopened (List.append_nil _) rfl rfl
  | decode =>
    rw [performStream, Option.map_eq_some_iff] at hafter
    obtain ⟨decoded, hdecode, rfl⟩ := hafter
    obtain ⟨packets, count, -,
      ⟨hnext, hresult⟩ | ⟨frames, pts, nextPts, hnext, hresult, hwrites, -⟩⟩ :=
      decode_cases hretained.opened.valid hdecode
    · refine hretained.quiet hopened ?_ ?_ ?_
      · simp only [hresult, StreamResult.returned, Bool.false_eq_true, if_false, List.append_nil]
      · simp only [hnext]
      · simp only [hnext]
    · refine hretained.returns hopened pts hwrites ?_ ?_ ?_
      · simp only [hresult, StreamResult.returned, if_true]
      · simp only [hnext]
      · simp only [hnext]

/-- A decoder that has just been opened. -/
theorem retained_opened {decoder : VideoDecoderStub} (hready : decoder.RingReady)
    (hopen : (decoder.openPattern width height).2 = true)
    (hexact : width * height * 3 / 2 < 2 ^ 62) :
    (opened decoder width height).Retained width height := by
  have hopened := openedAs_openPattern hready hopen
  obtain ⟨hwidth, hheight⟩ := even_of_openPattern hopen
  have hslot : (decoder.openPattern width height).1.slot = 0 := by
    unfold openPattern at hopen ⊢
    split_ifs at hopen ⊢
    rfl
  refine ⟨{ hopened with even_width := hwidth, even_height := hheight, exact := hexact }, hslot,
    ?_, ?_⟩
  · intro k entry hentry
    simp [opened] at hentry
  · intro k entry hentry
    simp [opened] at hentry

/-- On a decoder that has been opened, in any history, with dimensions whose exact frame size is
below `2 ^ 62`, in every run of pushes and decodes: every further call returns, a frame holds the
bytes it was returned with as long as at most two frames have been returned after it, and the planes
of two frames that are less than three apart lie in ranges of the frame pool without a common
byte. -/
theorem frames_kept {memory : ℕ → UInt8} {closed : VideoDecoderStub}
    (hhistory : decoderSystem.Reaches TransitionSystem.unguarded (create memory) closed)
    (hopen : (closed.openPattern width height).2 = true)
    (hexact : width * height * 3 / 2 < 2 ^ 62)
    (hreach : historySystem.Reaches TransitionSystem.unguarded (opened closed width height)
      history) :
    (∀ call, (history.perform call).isSome = true) ∧
    (∀ k entry, history.returned[k]? = some entry →
      history.returned.length ≤ k + kFrameSlots →
        frameContents history.decoder entry.frame = entry.contents) ∧
    ∀ i j first second, i < j → j < i + kFrameSlots → history.returned[i]? = some first →
      history.returned[j]? = some second →
        ∃ start start', let bytes := history.decoder.frameBytes
          first.frame.Tiles start bytes ∧ second.frame.Tiles start' bytes ∧
            start + bytes ≤ history.decoder.frames.size ∧
            start' + bytes ≤ history.decoder.frames.size ∧
            (start + bytes ≤ start' ∨ start' + bytes ≤ start) := by
  have hretained : history.Retained width height :=
    hreach.invariant (retained_opened (reachable_ringReady hhistory) hopen hexact)
      fun _ _ _ hstate _ hstep ↦ hstate.perform hstep
  refine ⟨fun call ↦ ?_, hretained.contents, ?_⟩
  · rw [FrameHistory.perform, Option.isSome_map]
    exact hretained.opened.isSome_performStream call
  · intro i j first second hlt hnear hfirst hsecond
    exact ⟨_, _, hretained.tiles i first hfirst, hretained.tiles j second hsecond,
      hretained.slot_le i, hretained.slot_le j,
      slots_disjoint _ (mod_ne_mod hlt hnear)⟩

/-- The theorem at a decoder that has been opened twice and, since then, has returned a pattern,
refused an undersized packet, and returned a packet and two more patterns: the first frame is
overwritten, the other three are kept. -/
theorem frames_kept_mixed : ∃ history : FrameHistory, history.returned.length = 4 ∧
    (∀ k entry, history.returned[k]? = some entry → 1 ≤ k →
      frameContents history.decoder entry.frame = entry.contents) ∧
    (history.returned[0]?.any fun entry ↦
      frameContents history.decoder entry.frame ≠ entry.contents) = true := by
  obtain ⟨closed, hhistory, htest⟩ := TransitionSystem.Reaches.exists_of_schedule decoderSystem
    (create fun _ ↦ 0) [.openPattern 2 2, .stream .decode, .close]
    (fun closed ↦ (closed.openPattern 4 2).2 = true ∧
      ((historySystem.execute (opened closed 4 2) [.decode, .push ⟨7, .replicate 5 1⟩, .decode,
        .push ⟨9, .replicate 12 1⟩, .decode, .decode, .decode]).any fun history ↦
          history.returned.length = 4 ∧ history.returned[0]?.any fun entry ↦
            frameContents history.decoder entry.frame ≠ entry.contents) = true) (by decide +kernel)
  obtain ⟨hopen, hany⟩ := of_decide_eq_true htest
  obtain ⟨history, hreach, hhistory'⟩ := TransitionSystem.Reaches.exists_of_schedule historySystem
    (opened closed 4 2) _ _ hany
  obtain ⟨hlength, hfirst⟩ := of_decide_eq_true hhistory'
  refine ⟨history, hlength, ?_, hfirst⟩
  intro k entry hentry hk
  refine (frames_kept hhistory hopen (by decide) hreach).2.1 k entry hentry ?_
  rw [hlength, kFrameSlots]
  omega

end FrameHistory

end GameEngine.Multimedia
