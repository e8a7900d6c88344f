import GameEngine.Ai.InferenceExecute
import GameEngine.Core.PoolConstruction
import Mathlib.Algebra.Order.BigOperators.Group.List

/-!
# The blocks of the simulated accelerator

`SimulatedNpu` of `ai/simulated_npu` gets its device memory from the host and keeps, for each block,
the number of bytes that was asked for. `DeviceState` is an accelerator together with the memory
that the host has given to it. The answer of the host to a request is part of a call: null, or a
block of exactly the size asked for that lies in the address space, apart from the others.

`accounted_iff` says that the books are right as long as no block is given for a request of more
than `2 ^ 64 - 64` bytes, and wrong right after one is: the rounding to 64 bytes wraps, and the
host is asked for 64 bytes. That the total of the requests does not wrap follows from the blocks
being apart.
-/

set_option autoImplicit false
set_option relaxedAutoImplicit false

namespace GameEngine.Ai

open GameEngine.Library GameEngine.Library.MachineWord

/-- An accelerator with the memory that the host has given to it. -/
structure DeviceState where
  npu : SimulatedNpu
  host : List Range
deriving DecidableEq

/-- A call. `out` says whether the pointer for the result is not null, and `answer` is what the host
returns. -/
inductive DeviceCall
  | malloc (bytes : UInt64) (out : Bool) (answer : Option ℕ)
  | free (ptr : Option ℕ)

namespace DeviceState

/-- A new accelerator. -/
def new : DeviceState := ⟨.new, []⟩

/-- `device_bytes`. -/
def deviceBytes (s : DeviceState) : ℕ := s.npu.total

/-- What the host promises about a block that it gives: it is in the address space, behind null, and
apart from the blocks in use. -/
def Fresh (s : DeviceState) (block : Range) : Prop :=
  0 < block.start ∧ block.stop ≤ word64 ∧ ∀ other ∈ s.host, block.Disjoint other

instance (s : DeviceState) (block : Range) : Decidable (s.Fresh block) :=
  inferInstanceAs (Decidable (_ ∧ _))

/-- The memory that is left to the accelerator when it gives a block back. -/
def without (s : DeviceState) (ptr : Option ℕ) : List Range :=
  match ptr with
  | none => s.host
  | some address =>
    if (s.npu.blocks.lookup address).isSome then s.host.filter (·.start ≠ address) else s.host

/-- One call. An answer that the host does not give is impossible. -/
def step (s : DeviceState) : DeviceCall → Option DeviceState
  | .malloc bytes out answer =>
    if out = false then some s
    else
      let npu := (s.npu.malloc bytes.toNat fun _ ↦ answer).1
      match answer with
      | none => some { s with npu := npu }
      | some address =>
        let block : Range := ⟨address, SimulatedNpu.requestedBytes bytes.toNat⟩
        if s.Fresh block then some ⟨npu, block :: s.host⟩ else none
  | .free ptr => some ⟨s.npu.free ptr, s.without ptr⟩

/-- An accelerator and its host as a transition system. -/
def system : TransitionSystem DeviceState DeviceCall := ⟨step⟩

/-- What is expected between two calls: the count of the bytes is that of the live blocks, and there
is memory behind each of them. -/
structure Accounted (s : DeviceState) : Prop where
  bytes_eq : s.deviceBytes = (s.npu.blocks.map Prod.snd).sum
  backed : ∀ block ∈ s.npu.blocks, ∃ memory ∈ s.host, memory.start = block.1 ∧ block.2 ≤ memory.size

/-- The call gets no block for more than `2 ^ 64 - 64` bytes. -/
def Modest : DeviceCall → Prop
  | .malloc bytes out answer => out = true → answer.isSome = true → bytes.toNat ≤ 2 ^ 64 - 64
  | .free _ => True

instance : DecidablePred Modest
  | .malloc _ _ _ => inferInstanceAs (Decidable (_ → _ → _))
  | .free _ => isTrue trivial

end DeviceState

/-! ### What the host is asked for -/

namespace SimulatedNpu

/-- A request of up to `2 ^ 64 - 64` bytes is rounded up. -/
theorem le_requestedBytes {bytes : ℕ} (hbytes : bytes ≤ 2 ^ 64 - 64) :
    bytes ≤ requestedBytes bytes ∧ 0 < requestedBytes bytes := by
  have hle : ∀ value ≤ 2 ^ 64 - 64, value ≤ hostAllocBytes value ∧ 0 < hostAllocBytes value := by
    intro value hvalue
    have hup : Core.roundUp value 64 ≤ 2 ^ 64 - 64 :=
      Core.roundUp_le (by decide) (by decide) hvalue
    have hround : Core.alignUp value 64 = Core.roundUp value 64 := by
      rw [Core.alignUp_eq_mod value (by decide) (by decide), Nat.mod_eq_of_lt]
      unfold word64
      omega
    have hvalue' : value ≤ Core.alignUp value 64 := hround ▸ Core.le_roundUp value (by decide)
    have heq : hostAllocBytes value =
        if Core.alignUp value 64 = 0 then 64 else Core.alignUp value 64 := rfl
    rw [heq]
    split_ifs <;> omega
  unfold requestedBytes
  split_ifs with hzero
  · exact ⟨by omega, (hle 64 (by decide)).2⟩
  · exact hle bytes hbytes

/-- Rounding up a larger request wraps. -/
theorem requestedBytes_of_lt {bytes : ℕ} (hlt : bytes < 2 ^ 64) (hbytes : 2 ^ 64 - 64 < bytes) :
    requestedBytes bytes = 64 := by
  have hzero : Core.alignUp bytes 64 = 0 :=
    Core.alignUp_eq_zero (by decide) (by decide) hlt.le (by unfold word64; omega)
  have heq : hostAllocBytes bytes =
      if Core.alignUp bytes 64 = 0 then 64 else Core.alignUp bytes 64 := rfl
  rw [requestedBytes, if_neg (by omega), heq, if_pos hzero]

end SimulatedNpu

/-! ### The invariant -/

namespace DeviceState

variable {s next : DeviceState}

/-- The memory behind a block that the accelerator keeps. -/
def memoryOf (block : ℕ × ℕ) : Range := ⟨block.1, SimulatedNpu.requestedBytes block.2⟩

/-- The invariant: the host has given the memory of the blocks, apart from each other and from null,
no block is larger than what can be rounded up, and the total is theirs. -/
structure Sound (s : DeviceState) : Prop where
  host_eq : s.host = s.npu.blocks.map memoryOf
  stacked : StackedBelow word64 s.host
  start_pos : ∀ memory ∈ s.host, 1 ≤ memory.start
  modest : ∀ block ∈ s.npu.blocks, block.2 ≤ 2 ^ 64 - 64
  total_eq : s.npu.total = (s.npu.blocks.map Prod.snd).sum

theorem sound_new : Sound new where
  host_eq := rfl
  stacked := .nil _
  start_pos := by simp [new]
  modest := by simp [new, SimulatedNpu.new]
  total_eq := rfl

theorem Sound.booksRight (hsound : s.Sound) : s.Accounted where
  bytes_eq := hsound.total_eq
  backed := fun block hblock ↦ ⟨memoryOf block, by
    rw [hsound.host_eq]
    exact List.mem_map_of_mem hblock, rfl,
    (SimulatedNpu.le_requestedBytes (hsound.modest block hblock)).1⟩

/-- The blocks lie in the address space, so that the sum of their sizes is a word. -/
theorem Sound.sum_lt (hsound : s.Sound) : (s.npu.blocks.map Prod.snd).sum < word64 := by
  have hle : (s.npu.blocks.map Prod.snd).sum ≤ (s.host.map Range.size).sum := by
    rw [hsound.host_eq, List.map_map]
    exact List.sum_le_sum fun block hblock ↦
      (SimulatedNpu.le_requestedBytes (hsound.modest block hblock)).1
  have hspace := hsound.stacked.sum_size_le hsound.start_pos
  have hword := word64_pos
  omega

/-- The blocks have different addresses. -/
theorem Sound.nodup (hsound : s.Sound) : (s.npu.blocks.map Prod.fst).Nodup := by
  have hdisjoint := hsound.stacked.disjoint
  rw [hsound.host_eq, List.pairwise_map] at hdisjoint
  refine List.pairwise_map.mpr (hdisjoint.imp_of_mem fun {first second} hfirst hsecond h ↦ ?_)
  have hpos := (SimulatedNpu.le_requestedBytes (hsound.modest first hfirst)).2
  have hpos' := (SimulatedNpu.le_requestedBytes (hsound.modest second hsecond)).2
  simp only [Range.Disjoint, Range.stop, memoryOf] at h
  omega

/-- A fresh block is at no address in use. -/
theorem Sound.not_mem (hsound : s.Sound) {block : Range} (hfresh : s.Fresh block)
    (hpos : 0 < block.size) : block.start ∉ s.npu.blocks.map Prod.fst := by
  intro hmem
  obtain ⟨other, hother, heq⟩ := List.mem_map.mp hmem
  have hhost : memoryOf other ∈ s.host := hsound.host_eq ▸ List.mem_map_of_mem hother
  have hdisjoint := hfresh.2.2 _ hhost
  have hpos' := (SimulatedNpu.le_requestedBytes (hsound.modest other hother)).2
  simp only [Range.Disjoint, Range.stop, memoryOf] at hdisjoint
  omega

/-- Taking a block out of the books. -/
theorem sum_filter {blocks : List (ℕ × ℕ)} (hnodup : (blocks.map Prod.fst).Nodup)
    {address bytes : ℕ} (hlookup : blocks.lookup address = some bytes) :
    ((blocks.filter (·.1 ≠ address)).map Prod.snd).sum + bytes = (blocks.map Prod.snd).sum := by
  induction blocks with
  | nil => contradiction
  | cons block rest ih =>
    obtain ⟨own, size⟩ := block
    rw [List.map_cons, List.nodup_cons] at hnodup
    by_cases heq : own = address
    · subst heq
      have hrest : rest.filter (·.1 ≠ own) = rest := by
        refine List.filter_eq_self.mpr fun other hother ↦ decide_eq_true fun h ↦ hnodup.1 ?_
        exact List.mem_map.mpr ⟨other, hother, h⟩
      rw [List.lookup_cons_self, Option.some.injEq] at hlookup
      rw [List.filter_cons_of_neg (by simp), hrest, List.map_cons, List.sum_cons, hlookup,
        Nat.add_comm]
    · rw [List.lookup_cons, beq_false_of_ne (Ne.symm heq)] at hlookup
      rw [List.filter_cons_of_pos (by simpa using heq), List.map_cons, List.map_cons,
        List.sum_cons, List.sum_cons, Nat.add_assoc, ih hnodup.2 hlookup]

/-! ### The calls -/

/-- The books after a block has been given. -/
theorem malloc_eq {bytes address : ℕ} (hmem : address ∉ s.npu.blocks.map Prod.fst) :
    (s.npu.malloc bytes fun _ ↦ some address).1 =
      ⟨(address, bytes) :: s.npu.blocks, addMod word64 s.npu.total bytes⟩ := by
  have hrest : s.npu.blocks.filter (·.1 ≠ address) = s.npu.blocks := by
    refine List.filter_eq_self.mpr fun other hother ↦ decide_eq_true fun h ↦ hmem ?_
    exact List.mem_map.mpr ⟨other, hother, h⟩
  simp only [SimulatedNpu.malloc, hrest]

/-- A block of a modest size is given. -/
theorem Sound.malloc (hsound : s.Sound) {bytes address : ℕ} (hbytes : bytes ≤ 2 ^ 64 - 64)
    (hfresh : s.Fresh ⟨address, SimulatedNpu.requestedBytes bytes⟩) :
    Sound ⟨(s.npu.malloc bytes fun _ ↦ some address).1,
      ⟨address, SimulatedNpu.requestedBytes bytes⟩ :: s.host⟩ := by
  have hpos := (SimulatedNpu.le_requestedBytes hbytes).2
  rw [malloc_eq (hsound.not_mem hfresh hpos)]
  obtain ⟨hstart, hstop, hapart⟩ := hfresh
  have hnext : ∀ total, total = bytes + (s.npu.blocks.map Prod.snd).sum →
      Sound ⟨⟨(address, bytes) :: s.npu.blocks, total⟩,
        ⟨address, SimulatedNpu.requestedBytes bytes⟩ :: s.host⟩ := fun total htotal ↦
    { host_eq := congrArg (_ :: ·) hsound.host_eq
      stacked := ⟨List.forall_mem_cons.mpr ⟨hstop, hsound.stacked.stop_le⟩,
        List.pairwise_cons.mpr ⟨hapart, hsound.stacked.disjoint⟩⟩
      start_pos := List.forall_mem_cons.mpr ⟨hstart, hsound.start_pos⟩
      modest := List.forall_mem_cons.mpr ⟨hbytes, hsound.modest⟩
      total_eq := by rw [htotal, List.map_cons, List.sum_cons] }
  -- All blocks lie in the address space, the new one included.
  have hsum := (hnext _ rfl).sum_lt
  rw [List.map_cons, List.sum_cons] at hsum
  refine hnext _ ?_
  rw [addMod, hsound.total_eq, Nat.add_comm, Nat.mod_eq_of_lt hsum]

/-- A block is given back, or the call is ignored. -/
theorem Sound.free (hsound : s.Sound) (ptr : Option ℕ) : Sound ⟨s.npu.free ptr, s.without ptr⟩ := by
  cases ptr with
  | none => exact hsound
  | some address =>
    cases hlookup : s.npu.blocks.lookup address with
    | none =>
      simp only [SimulatedNpu.free, hlookup, without]
      exact hsound
    | some bytes =>
      have hsum := sum_filter hsound.nodup hlookup
      have hle : bytes ≤ s.npu.total := by
        rw [hsound.total_eq]
        omega
      simp only [SimulatedNpu.free, hlookup, without, Option.isSome_some, if_true, if_pos hle]
      exact
        { host_eq := by
            rw [hsound.host_eq, List.filter_map]
            rfl
          stacked := hsound.stacked.lower List.filter_sublist fun range hrange ↦
            hsound.stacked.stop_le range (List.mem_of_mem_filter hrange)
          start_pos := fun range hrange ↦
            hsound.start_pos range (List.mem_of_mem_filter hrange)
          modest := fun block hblock ↦ hsound.modest block (List.mem_of_mem_filter hblock)
          total_eq := by
            dsimp only
            rw [hsound.total_eq]
            omega }

/-- A call keeps the books right if and only if it gets no block for more than `2 ^ 64 - 64`
bytes. -/
theorem Sound.step (hsound : s.Sound) {call : DeviceCall} (hstep : s.step call = some next) :
    (Modest call → next.Sound) ∧ (next.Accounted → Modest call) := by
  cases call with
  | malloc bytes out answer =>
    rw [DeviceState.step] at hstep
    cases out with
    | false =>
      obtain rfl := Option.some.inj hstep
      exact ⟨fun _ ↦ hsound, fun _ hout ↦ by contradiction⟩
    | true =>
      rw [if_neg (by decide)] at hstep
      cases answer with
      | none =>
        obtain rfl := Option.some.inj hstep
        exact ⟨fun _ ↦ hsound, fun _ _ hanswer ↦ by contradiction⟩
      | some address =>
        dsimp only at hstep
        split_ifs at hstep with hfresh
        obtain rfl := Option.some.inj hstep
        refine ⟨fun hmodest ↦ hsound.malloc (hmodest rfl rfl) hfresh, fun haccounted _ _ ↦ ?_⟩
        by_contra hlarge
        have hsize := SimulatedNpu.requestedBytes_of_lt bytes.toNat_lt (by omega)
        have hpos : 0 < SimulatedNpu.requestedBytes bytes.toNat := by
          rw [hsize]
          decide
        have hmem := hsound.not_mem hfresh hpos
        -- The only memory at the address has 64 bytes.
        obtain ⟨memory, hmemory, hstart, hle⟩ := haccounted.backed (address, bytes.toNat) (by
          rw [malloc_eq hmem]
          exact List.mem_cons_self)
        rcases List.mem_cons.mp hmemory with rfl | hold
        · rw [hsize] at hle
          dsimp only at hle
          omega
        · rw [hsound.host_eq] at hold
          obtain ⟨block, hblock, rfl⟩ := List.mem_map.mp hold
          exact hmem (List.mem_map.mpr ⟨block, hblock, hstart⟩)
  | free ptr =>
    obtain rfl := Option.some.inj hstep
    exact ⟨fun _ ↦ hsound.free ptr, fun _ ↦ trivial⟩

end DeviceState

open DeviceState

/-- In every run of `malloc` and `free` calls none of which gets a block for more than `2 ^ 64 - 64`
bytes, the books are right; a further call leaves them right if and only if it gets no such block;
and a `malloc` that fails, or a `free` of an address that is not that of a live block, changes
nothing. -/
theorem accounted_iff {s : DeviceState}
    (hreach : DeviceState.system.Reaches (fun _ call ↦ Modest call) .new s) :
    s.Accounted ∧
    (∀ call next, s.step call = some next → (next.Accounted ↔ Modest call)) ∧
    (∀ bytes out answer, out = false ∨ answer = none →
      s.step (.malloc bytes out answer) = some s) ∧
    ∀ ptr, (∀ address ∈ ptr, address ∉ s.npu.blocks.map Prod.fst) →
      s.step (.free ptr) = some s := by
  have hsound : s.Sound := hreach.invariant sound_new
    fun _ _ _ hstate hmodest hstep ↦ (hstate.step hstep).1 hmodest
  refine ⟨hsound.booksRight, fun call next hstep ↦ ?_, fun bytes out answer hfails ↦ ?_,
    fun ptr hptr ↦ ?_⟩
  · obtain ⟨hkeeps, honly⟩ := hsound.step hstep
    exact ⟨honly, fun hmodest ↦ (hkeeps hmodest).booksRight⟩
  · rw [DeviceState.step]
    rcases hfails with rfl | rfl
    · rfl
    · split_ifs <;> rfl
  · cases ptr with
    | none => rfl
    | some address =>
      have hlookup : s.npu.blocks.lookup address = none := by
        refine List.lookup_eq_none_iff.mpr fun block hblock ↦ ?_
        refine bne_iff_ne.mpr fun heq ↦ hptr address rfl ?_
        exact List.mem_map.mpr ⟨block, hblock, heq.symm⟩
      simp only [DeviceState.step, SimulatedNpu.free, hlookup, without, Option.isSome_none,
        Bool.false_eq_true, if_false]

/-- The theorem at a run with an empty request, one that the host refuses, a block that is freed
twice, and the null pointer. -/
theorem accounted_iff_refused : ∃ s : DeviceState,
    s.npu.blocks = [(128, 100), (64, 0)] ∧ s.Accounted := by
  obtain ⟨s, hreach, htest⟩ := TransitionSystem.Reaches.exists_of_any
    DeviceState.system .new
    [.malloc 0 true (some 64), .malloc 7 true (some 4096), .malloc 18446744073709551615 true none,
      .malloc 100 true (some 128), .free (some 4096), .free (some 4096), .free none,
      .malloc 18446744073709551615 false none]
    (fun _ call ↦ decide (Modest call)) (fun s ↦ s.npu.blocks = [(128, 100), (64, 0)])
    (fun _ _ h ↦ of_decide_eq_true h) (by decide) (by decide)
  exact ⟨s, of_decide_eq_true htest, (accounted_iff hreach).1⟩

/-- A request of `2 ^ 64 - 1` bytes gets 64 bytes, and after a second one the count of the bytes has
wrapped. -/
theorem large_request_wraps : ∃ s : DeviceState,
    DeviceState.system.Reaches TransitionSystem.unguarded .new s ∧
      s.npu.blocks = [(128, 2 ^ 64 - 1), (64, 2 ^ 64 - 1)] ∧ s.host = [⟨128, 64⟩, ⟨64, 64⟩] ∧
      s.deviceBytes = 2 ^ 64 - 2 ∧ ¬ s.Accounted := by
  obtain ⟨s, hreach, htest⟩ := TransitionSystem.Reaches.exists_of_schedule DeviceState.system .new
    [.malloc 18446744073709551615 true (some 64), .malloc 18446744073709551615 true (some 128)]
    (fun s ↦ s.npu.blocks = [(128, 2 ^ 64 - 1), (64, 2 ^ 64 - 1)] ∧
      s.host = [⟨128, 64⟩, ⟨64, 64⟩] ∧ s.deviceBytes = 2 ^ 64 - 2) (by decide)
  obtain ⟨hblocks, hhost, hbytes⟩ := of_decide_eq_true htest
  refine ⟨s, hreach, hblocks, hhost, hbytes, fun haccounted ↦ ?_⟩
  have heq := haccounted.bytes_eq
  rw [hbytes, hblocks] at heq
  exact absurd heq (by decide)

end GameEngine.Ai
