import GameEngine.Multimedia.DecoderCalls

/-!
# Opening a decoder again

`close` and a successful opening reset every member of the decoder but the packet ring, so that
packets pushed before the `close` are decoded after it. `reopened_iff` says when an opened decoder
cannot be told from a fresh one that is opened in the same way: exactly when no bytes were queued at
the `close`. `reopened_decodes_old_packet` is a history after which they can be told apart.
-/

set_option autoImplicit false
set_option relaxedAutoImplicit false

namespace GameEngine.Multimedia

open GameEngine.Library GameEngine.Library.MachineWord

namespace VideoDecoderStub

/-- The arguments with which a decoder is opened. -/
inductive Opening
  | uri (uri : Option String)
  | pattern (width height : ℕ)

/-- Opens a decoder. -/
def openBy (decoder : VideoDecoderStub) : Opening → VideoDecoderStub × Bool
  | .uri uri => decoder.openUri uri
  | .pattern width height => decoder.openPattern width height

/-- A decoder is closed, by `close` or by the one inside `open`, and then opened successfully. -/
inductive Reopens (decoder : VideoDecoderStub) : Opening → VideoDecoderStub → Prop
  | closed (opening : Opening) : (decoder.close.openBy opening).2 = true →
      Reopens decoder opening (decoder.close.openBy opening).1
  | uri (uri : Option String) : (decoder.openUri uri).2 = true →
      Reopens decoder (.uri uri) (decoder.openUri uri).1

/-! ### Decoders with the same stream -/

/-- Two decoders that differ in their rings only, which hold the same bytes. -/
structure SameStream (first second : VideoDecoderStub) : Prop where
  eq : second = { first with packets := second.packets }
  ready : first.RingReady
  ready' : second.RingReady
  stored_eq : second.packets.stored = first.packets.stored

/-- The ring plays no part in what a decode does with the queued bytes. -/
theorem decodeOn_packets (decoder : VideoDecoderStub) (packets : ZeroCopyRing)
    (queued : List UInt8) :
    { decoder with packets := packets }.decodeOn queued =
      ((decoder.decodeOn queued).1, (decoder.decodeOn queued).2.map fun next ↦
        ({ next.1 with packets := packets }, next.2)) := by
  have hbytes : { decoder with packets := packets }.frameBytes = decoder.frameBytes := rfl
  have hoffset : { decoder with packets := packets }.slotOffset = decoder.slotOffset := rfl
  have hwrites : { decoder with packets := packets }.patternWrites = decoder.patternWrites := rfl
  unfold decodeOn
  dsimp only
  rw [hbytes, hoffset, hwrites]
  split_ifs
  · rfl
  · rfl
  · rfl
  · rw [Option.map_map]
    rfl
  · rfl
  · rw [Option.map_map]
    rfl

namespace SameStream

variable {first second : VideoDecoderStub}

theorem freeSpace_eq (hsame : SameStream first second) :
    second.packets.freeSpace = first.packets.freeSpace := by
  have hlength := congrArg List.length hsame.stored_eq
  rw [ZeroCopyRing.length_stored, ZeroCopyRing.length_stored] at hlength
  rw [hsame.ready'.valid.freeSpace_eq, hsame.ready.valid.freeSpace_eq, hlength,
    hsame.ready'.capacity_eq, hsame.ready.capacity_eq]

/-- One call returns the same on both, and they stay the same. -/
theorem performStream (hsame : SameStream first second) (call : StreamCall) :
    (first.performStream call = none ∧ second.performStream call = none) ∨
      ∃ next next' result, first.performStream call = some (next, result) ∧
        second.performStream call = some (next', result) ∧ SameStream next next' := by
  have hfree := hsame.freeSpace_eq
  obtain ⟨heq, hready, hready', hstored⟩ := hsame
  cases call with
  | push packet =>
    obtain ⟨packets, happended, hpush⟩ := push_eq hready.valid packet
    obtain ⟨packets', happended', hpush'⟩ := push_eq hready'.valid packet
    have hon : second.pushOn first.packets.freeSpace packet =
        first.pushOn first.packets.freeSpace packet := by
      rw [heq]
      rfl
    rw [hfree, hon] at happended' hpush'
    refine .inr ⟨_, _, _, by rw [VideoDecoderStub.performStream, hpush]; rfl,
      by rw [VideoDecoderStub.performStream, hpush']; rfl, ?_⟩
    refine ⟨?_, ⟨happended.valid, happended.capacity_eq.trans hready.capacity_eq⟩,
      ⟨happended'.valid, happended'.capacity_eq.trans hready'.capacity_eq⟩, ?_⟩
    · rw [heq]
    · change packets'.stored = packets.stored
      rw [happended.stored_eq, happended'.stored_eq, hstored]
  | decode =>
    obtain ⟨packets, hconsumed, hdecode⟩ := decode_eq hready.valid
    obtain ⟨packets', hconsumed', hdecode'⟩ := decode_eq hready'.valid
    have hon : second.decodeOn second.packets.stored =
        ((first.decodeOn first.packets.stored).1,
          (first.decodeOn first.packets.stored).2.map fun next ↦
            ({ next.1 with packets := second.packets }, next.2)) := by
      rw [hstored, ← decodeOn_packets, ← heq]
    rw [hon] at hconsumed' hdecode'
    cases hafter : (first.decodeOn first.packets.stored).2 with
    | none =>
      rw [hafter] at hdecode hdecode'
      refine .inl ⟨?_, ?_⟩
      · rw [VideoDecoderStub.performStream, hdecode]
        rfl
      · rw [VideoDecoderStub.performStream, hdecode']
        rfl
    | some after =>
      rw [hafter] at hdecode hdecode'
      refine .inr ⟨_, _, _, by rw [VideoDecoderStub.performStream, hdecode]; rfl,
        by rw [VideoDecoderStub.performStream, hdecode']; rfl, ?_⟩
      refine ⟨rfl, ⟨hconsumed.valid, hconsumed.capacity_eq.trans hready.capacity_eq⟩,
        ⟨hconsumed'.valid, hconsumed'.capacity_eq.trans hready'.capacity_eq⟩, ?_⟩
      change packets'.stored = packets.stored
      rw [hconsumed.stored_eq, hconsumed'.stored_eq, hstored]

/-- All further calls return the same on both. -/
theorem outcomes_eq (hsame : SameStream first second) (calls : List StreamCall) :
    second.outcomes calls = first.outcomes calls := by
  induction calls generalizing first second with
  | nil => rfl
  | cons call rest ih =>
    rcases hsame.performStream call with ⟨hfirst, hsecond⟩ |
      ⟨next, next', result, hfirst, hsecond, hnext⟩
    · rw [outcomes, outcomes, hfirst, hsecond]
    · rw [outcomes, outcomes, hfirst, hsecond, Option.bind_some, Option.bind_some, ih hnext]

end SameStream

/-! ### Openings -/

/-- A successful opening sets every member but the ring, in the same way for every decoder. -/
theorem openPattern_eq {decoder : VideoDecoderStub} {width height : ℕ}
    (hopen : (decoder.openPattern width height).2 = true) (other : VideoDecoderStub) :
    (other.openPattern width height).2 = true ∧
      (other.openPattern width height).1 =
        { (decoder.openPattern width height).1 with packets := other.packets } ∧
      (decoder.openPattern width height).1.isOpen = true := by
  unfold openPattern at hopen ⊢
  split_ifs at hopen ⊢
  exact ⟨rfl, rfl, rfl⟩

theorem openBy_eq {decoder : VideoDecoderStub} {opening : Opening}
    (hopen : (decoder.openBy opening).2 = true) (other : VideoDecoderStub) :
    (other.openBy opening).2 = true ∧
      (other.openBy opening).1 =
        { (decoder.openBy opening).1 with packets := other.packets } ∧
      (decoder.openBy opening).1.isOpen = true := by
  cases opening with
  | pattern width height => exact openPattern_eq hopen other
  | uri uri =>
    unfold openBy openUri at hopen ⊢
    cases hdimensions : uriDimensions uri with
    | none => simp [hdimensions] at hopen
    | some dimensions =>
      simp only [hdimensions] at hopen ⊢
      exact openPattern_eq hopen other.close

/-- A decoder that has been opened again has the ring that it had before. -/
theorem Reopens.exists_openBy {decoder reopened : VideoDecoderStub} {opening : Opening}
    (hreopen : decoder.Reopens opening reopened) :
    ∃ base : VideoDecoderStub, base.packets = decoder.packets ∧
      (base.openBy opening).2 = true ∧ reopened = (base.openBy opening).1 := by
  cases hreopen with
  | closed _ hopen => exact ⟨decoder.close, rfl, hopen, rfl⟩
  | uri uri hopen => exact ⟨decoder, rfl, hopen, rfl⟩

/-! ### The largest packet -/

/-- The packet that fills an empty ring. -/
def largestPacket : Packet := ⟨0, .replicate (2 ^ 16 - headerBytes) 0⟩

/-- The largest packet is accepted exactly when nothing is queued. -/
theorem outcomes_largestPacket {decoder : VideoDecoderStub} (hready : decoder.RingReady)
    (hopen : decoder.isOpen = true) :
    decoder.outcomes [.push largestPacket] =
      some [.pushed (decide (decoder.packets.size = 0))] := by
  obtain ⟨packets, -, hpush⟩ := push_eq hready.valid largestPacket
  have hlength : largestPacket.payload.length = 65524 := List.length_replicate
  have hneed : addMod word64 headerBytes 65524 = 65536 := rfl
  have hfree : decoder.packets.freeSpace = 65536 - decoder.packets.size := by
    rw [hready.valid.freeSpace_eq, hready.capacity_eq]
    norm_num
  have hresult : (decoder.pushOn decoder.packets.freeSpace largestPacket).2 =
      decide (decoder.packets.size = 0) := by
    unfold pushOn
    rw [hlength, hneed, hopen, hfree]
    by_cases hsize : decoder.packets.size = 0
    · simp [hsize, headerBytes]
    · have hfull : 65536 - decoder.packets.size < 65536 := by omega
      simp [hsize, hfull]
  rw [outcomes, performStream, hpush, Option.map_some, Option.bind_some, hresult]
  rfl

/-! ### Histories -/

/-- After every history of calls, and a `close` followed by a successful opening, all further pushes
and decodes return the same results, frame contents and pts values as on a new decoder opened in the
same way if and only if no bytes were queued at the `close`. -/
theorem reopened_iff {memory : ℕ → UInt8} {decoder reopened : VideoDecoderStub}
    {opening : Opening}
    (hreach : decoderSystem.Reaches TransitionSystem.unguarded (create memory) decoder)
    (hreopen : decoder.Reopens opening reopened) :
    (∀ memory' calls, reopened.outcomes calls =
      ((create memory').openBy opening).1.outcomes calls) ↔ decoder.packets.size = 0 := by
  have hready := reachable_ringReady hreach
  obtain ⟨base, hpackets, hopen, rfl⟩ := hreopen.exists_openBy
  obtain ⟨-, hself, hisOpen⟩ := openBy_eq hopen base
  have hsamePackets : (base.openBy opening).1.packets = decoder.packets := by
    rw [hself, hpackets]
  have hreopened : (base.openBy opening).1.RingReady := hready.congr hsamePackets
  have hfresh : ∀ memory', ((create memory').openBy opening).1 =
      { (base.openBy opening).1 with packets := (create memory').packets } :=
    fun memory' ↦ (openBy_eq hopen (create memory')).2.1
  have hfreshReady : ∀ memory', ((create memory').openBy opening).1.RingReady := by
    intro memory'
    rw [hfresh]
    exact (ringReady_create memory').congr rfl
  constructor
  · intro hall
    have hlargest := hall memory [.push largestPacket]
    have hfreshOpen : ((create memory).openBy opening).1.isOpen = true := by
      rw [hfresh]
      exact hisOpen
    rw [outcomes_largestPacket hreopened hisOpen,
      outcomes_largestPacket (hfreshReady memory) hfreshOpen, hsamePackets] at hlargest
    have hempty : ((create memory).openBy opening).1.packets.size = 0 := by
      rw [hfresh]
      exact size_create memory
    simpa [hempty] using hlargest
  · intro hempty memory' calls
    have hstored : ∀ ring : ZeroCopyRing, ring.size = 0 → ring.stored = [] := by
      intro ring hsize
      exact List.length_eq_zero_iff.mp (by rw [ring.length_stored, hsize])
    have hsame : SameStream (base.openBy opening).1 ((create memory').openBy opening).1 := by
      refine ⟨?_, hreopened, hfreshReady memory', ?_⟩
      · rw [hfresh]
      · rw [hsamePackets, hstored _ hempty, hstored]
        rw [hfresh]
        exact size_create memory'
    exact (hsame.outcomes_eq calls).symm

/-- The theorem at a history whose only packet is decoded before the decoder is opened again. -/
theorem reopened_after_decode : ∃ decoder reopened : VideoDecoderStub,
    decoder.framesDecoded = 1 ∧ decoder.Reopens (.uri (some "pattern")) reopened ∧
      ∀ memory' calls, reopened.outcomes calls =
        ((create memory').openBy (.uri (some "pattern"))).1.outcomes calls := by
  obtain ⟨decoder, hreach, htest⟩ := TransitionSystem.Reaches.exists_of_schedule decoderSystem
    (create fun _ ↦ 0)
    [.openPattern 2 2, .stream (.push ⟨7, [1, 2, 3, 4, 5, 6]⟩), .stream .decode]
    (fun decoder ↦ decoder.framesDecoded = 1 ∧ decoder.packets.size = 0) (by decide)
  obtain ⟨hframes, hempty⟩ := of_decide_eq_true htest
  have hreopen : decoder.Reopens (.uri (some "pattern")) (decoder.openUri (some "pattern")).1 :=
    .uri _ rfl
  exact ⟨decoder, _, hframes, hreopen, (reopened_iff hreach hreopen).mpr hempty⟩

/-- A decoder is closed and opened again while a packet is queued: the first decode returns the
frame of that packet, where a fresh decoder returns the first pattern. -/
theorem reopened_decodes_old_packet : ∃ decoder reopened : VideoDecoderStub,
    decoderSystem.Reaches TransitionSystem.unguarded (create fun _ ↦ 0) decoder ∧
    decoder.Reopens (.pattern 2 2) reopened ∧
    reopened.outcomes [.decode] = some [.decoded ⟨true,
      ⟨some 0, some 0, some 4, some 5, 2, 2, 2, 1, 7⟩⟩ [1, 2, 3, 4, 5, 6]] ∧
    ((create fun _ ↦ 0).openBy (.pattern 2 2)).1.outcomes [.decode] = some [.decoded ⟨true,
      ⟨some 0, some 0, some 4, some 5, 2, 2, 2, 1, 0⟩⟩ [0, 1, 1, 2, 128, 64]] := by
  obtain ⟨decoder, hreach, htest⟩ := TransitionSystem.Reaches.exists_of_schedule decoderSystem
    (create fun _ ↦ 0) [.openPattern 2 2, .stream (.push ⟨7, [1, 2, 3, 4, 5, 6]⟩)]
    (fun decoder ↦ (decoder.close.openBy (.pattern 2 2)).2 = true ∧
      (decoder.close.openBy (.pattern 2 2)).1.outcomes [.decode] = some [.decoded ⟨true,
        ⟨some 0, some 0, some 4, some 5, 2, 2, 2, 1, 7⟩⟩ [1, 2, 3, 4, 5, 6]]) (by decide)
  obtain ⟨hopen, hdecoded⟩ := of_decide_eq_true htest
  exact ⟨decoder, _, hreach, .closed _ hopen, hdecoded, by decide⟩

end VideoDecoderStub

end GameEngine.Multimedia
