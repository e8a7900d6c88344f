import Mathlib.Logic.Function.Basic

/-!
# Calls in progress, by thread

A concurrent object is used through calls that take several atomic steps. A call table says, for
every thread, which call it is in and how far that call has come. A thread is in at most one call.
The lemmas say what holds of all calls after one thread's entry has changed.
-/

set_option autoImplicit false
set_option relaxedAutoImplicit false

namespace GameEngine.Library

variable {Thread Call : Type*}

/-- The call each thread is in, if any. -/
abbrev CallTable (Thread Call : Type*) := Thread → Option Call

namespace CallTable

/-- No thread is in a call. -/
def idle : CallTable Thread Call := fun _ ↦ none

/-- Every call in progress, with its thread, has a property. -/
def Forall (calls : CallTable Thread Call) (property : Thread → Call → Prop) : Prop :=
  ∀ thread call, calls thread = some call → property thread call

theorem forall_idle (property : Thread → Call → Prop) :
    Forall (idle : CallTable Thread Call) property := by
  intro thread call hcall
  simp [idle] at hcall

variable [DecidableEq Thread]

/-- A property of all calls survives the change of one thread's entry if the new entry has it. -/
theorem Forall.update {calls : CallTable Thread Call} {property : Thread → Call → Prop}
    {thread : Thread} {next : Option Call}
    (hothers : ∀ other call, other ≠ thread → calls other = some call → property other call)
    (hnext : ∀ call, next = some call → property thread call) :
    Forall (Function.update calls thread next) property := by
  intro other call hcall
  by_cases hother : other = thread
  · subst hother
    rw [Function.update_self] at hcall
    exact hnext call hcall
  · rw [Function.update_of_ne hother] at hcall
    exact hothers other call hother hcall

/-- After a change of one thread's entry some call still passes a test, if the thread's call passed
it only when the new one does. -/
theorem exists_any_update {calls : CallTable Thread Call} {test : Call → Bool} {thread : Thread}
    {next : Option Call} (hkeep : (calls thread).any test = true → next.any test = true)
    (hexists : ∃ other, (calls other).any test = true) :
    ∃ other, (Function.update calls thread next other).any test = true := by
  obtain ⟨other, hother⟩ := hexists
  by_cases heq : other = thread
  · subst heq
    exact ⟨other, by rw [Function.update_self]; exact hkeep hother⟩
  · exact ⟨other, by rw [Function.update_of_ne heq]; exact hother⟩

/-- Every owed key is held by the call of exactly one thread, and only owed keys are held. `key`
gives the key a call holds. -/
structure HeldOnce {Key : Type*} (calls : CallTable Thread Call) (key : Call → Option Key)
    (owed : Key → Prop) : Prop where
  owed_iff : ∀ k, owed k ↔ ∃ thread, (calls thread).bind key = some k
  unique : ∀ first second k, (calls first).bind key = some k →
    (calls second).bind key = some k → first = second

omit [DecidableEq Thread] in
theorem heldOnce_idle {Key : Type*} (key : Call → Option Key) :
    HeldOnce (idle : CallTable Thread Call) key fun _ ↦ False := by
  refine ⟨fun k ↦ ?_, fun first second k hfirst _ ↦ ?_⟩
  · simp [idle]
  · simp [idle] at hfirst

omit [DecidableEq Thread] in
/-- A call holds an owed key. -/
theorem HeldOnce.owed {Key : Type*} {calls : CallTable Thread Call} {key : Call → Option Key}
    {owed : Key → Prop} (hheld : HeldOnce calls key owed) {thread : Thread} {call : Call} {k : Key}
    (hcall : calls thread = some call) (hkey : key call = some k) : owed k :=
  (hheld.owed_iff k).mpr ⟨thread, by rw [hcall]; exact hkey⟩

omit [DecidableEq Thread] in
/-- Only which keys are owed matters. -/
theorem HeldOnce.congr {Key : Type*} {calls : CallTable Thread Call} {key : Call → Option Key}
    {owed owed' : Key → Prop} (hheld : HeldOnce calls key owed) (howed : ∀ k, owed' k ↔ owed k) :
    HeldOnce calls key owed' :=
  ⟨fun k ↦ (howed k).trans (hheld.owed_iff k), hheld.unique⟩

omit [DecidableEq Thread] in
/-- Two threads that hold the same key are one thread. -/
theorem HeldOnce.eq_of_key {Key : Type*} {calls : CallTable Thread Call} {key : Call → Option Key}
    {owed : Key → Prop} (hheld : HeldOnce calls key owed) {first second : Thread}
    {call other : Call} {k : Key} (hfirst : calls first = some call)
    (hsecond : calls second = some other)
    (hcall : key call = some k) (hother : key other = some k) : first = second :=
  hheld.unique first second k (by rw [hfirst]; exact hcall) (by rw [hsecond]; exact hother)

/-- One thread's step takes a key that is not owed, keeps its key, or gives its key up. -/
theorem HeldOnce.update {Key : Type*} {calls : CallTable Thread Call} {key : Call → Option Key}
    {owed owed' : Key → Prop} {thread : Thread} {next : Option Call}
    (hheld : HeldOnce calls key owed)
    (howed : ∀ k, owed' k ↔
      owed k ∧ (calls thread).bind key ≠ some k ∨ next.bind key = some k)
    (hfresh : ∀ k, next.bind key = some k → (calls thread).bind key = some k ∨ ¬ owed k) :
    HeldOnce (Function.update calls thread next) key owed' := by
  have hentry : ∀ other k, (Function.update calls thread next other).bind key = some k →
      other = thread ∧ next.bind key = some k ∨
        other ≠ thread ∧ (calls other).bind key = some k := by
    intro other k hother
    by_cases heq : other = thread
    · subst heq
      rw [Function.update_self] at hother
      exact .inl ⟨rfl, hother⟩
    · rw [Function.update_of_ne heq] at hother
      exact .inr ⟨heq, hother⟩
  refine ⟨fun k ↦ ?_, fun first second k hfirst hsecond ↦ ?_⟩
  · rw [howed]
    constructor
    · rintro (⟨hold, hnot⟩ | hnext)
      · obtain ⟨holder, hholder⟩ := (hheld.owed_iff k).mp hold
        have hne : holder ≠ thread := fun heq ↦ hnot (heq ▸ hholder)
        exact ⟨holder, by rw [Function.update_of_ne hne]; exact hholder⟩
      · exact ⟨thread, by rw [Function.update_self]; exact hnext⟩
    · rintro ⟨holder, hholder⟩
      rcases hentry holder k hholder with ⟨-, hnext⟩ | ⟨hne, hold⟩
      · exact .inr hnext
      · exact .inl ⟨(hheld.owed_iff k).mpr ⟨holder, hold⟩,
          fun hthread ↦ hne (hheld.unique _ _ k hold hthread)⟩
  · rcases hentry first k hfirst with ⟨rfl, hnext⟩ | ⟨hne, hold⟩ <;>
      rcases hentry second k hsecond with ⟨rfl, hnext'⟩ | ⟨hne', hold'⟩
    · rfl
    · rcases hfresh k hnext with hthread | hnot
      · exact hheld.unique _ _ k hthread hold'
      · exact absurd ((hheld.owed_iff k).mpr ⟨second, hold'⟩) hnot
    · rcases hfresh k hnext' with hthread | hnot
      · exact hheld.unique _ _ k hold hthread
      · exact absurd ((hheld.owed_iff k).mpr ⟨first, hold⟩) hnot
    · exact hheld.unique _ _ k hold hold'

/-- A step that keeps the thread's key and the owed keys. -/
theorem HeldOnce.keep {Key : Type*} {calls : CallTable Thread Call} {key : Call → Option Key}
    {owed : Key → Prop} {thread : Thread} {next : Option Call} (hheld : HeldOnce calls key owed)
    (hkey : next.bind key = (calls thread).bind key) :
    HeldOnce (Function.update calls thread next) key owed := by
  refine hheld.update (fun k ↦ ?_) fun k hk ↦ .inl (hkey ▸ hk)
  rw [hkey]
  by_cases hk : (calls thread).bind key = some k
  · have howed : owed k := (hheld.owed_iff k).mpr ⟨thread, hk⟩
    simp [hk, howed]
  · simp [hk]

/-- A step that takes a key. Assumes: the thread held none, and the key was not owed. -/
theorem HeldOnce.take {Key : Type*} {calls : CallTable Thread Call} {key : Call → Option Key}
    {owed owed' : Key → Prop} {thread : Thread} {next : Option Call} {taken : Key}
    (hheld : HeldOnce calls key owed) (hnone : (calls thread).bind key = none)
    (hnext : next.bind key = some taken) (hfresh : ¬ owed taken)
    (howed : ∀ k, owed' k ↔ owed k ∨ k = taken) :
    HeldOnce (Function.update calls thread next) key owed' := by
  refine hheld.update (fun k ↦ ?_) fun k hk ↦ .inr ?_
  · rw [howed, hnone, hnext, Option.some.injEq, eq_comm]
    simp
  · rw [hnext, Option.some.injEq] at hk
    exact hk ▸ hfresh

/-- A step that gives the thread's key up. -/
theorem HeldOnce.giveUp {Key : Type*} {calls : CallTable Thread Call} {key : Call → Option Key}
    {owed owed' : Key → Prop} {thread : Thread} {next : Option Call} {given : Key}
    (hheld : HeldOnce calls key owed) (hgiven : (calls thread).bind key = some given)
    (hnext : next.bind key = none) (howed : ∀ k, owed' k ↔ owed k ∧ k ≠ given) :
    HeldOnce (Function.update calls thread next) key owed' := by
  refine hheld.update (fun k ↦ ?_) fun k hk ↦ ?_
  · rw [howed, hgiven, hnext, ne_eq, ne_eq, Option.some.injEq, eq_comm]
    simp
  · rw [hnext] at hk
    contradiction

/-- A step that hands a key on from one thread to another. Assumes: the receiver held none. -/
theorem HeldOnce.handOn {Key : Type*} {calls : CallTable Thread Call} {key : Call → Option Key}
    {owed : Key → Prop} {giver receiver : Thread} {given received : Option Call}
    (hheld : HeldOnce calls key owed) (hne : giver ≠ receiver)
    (hnone : (calls receiver).bind key = none) (hgiven : given.bind key = none)
    (hreceived : received.bind key = (calls giver).bind key) :
    HeldOnce (Function.update (Function.update calls receiver received) giver given) key owed := by
  rw [Function.update_comm hne.symm]
  have hother : Function.update calls giver given receiver = calls receiver :=
    Function.update_of_ne hne.symm _ _
  cases hkey : (calls giver).bind key with
  | none =>
    exact (hheld.keep (hgiven.trans hkey.symm)).keep (by rw [hreceived, hkey, hother, hnone])
  | some k =>
    have howed : owed k := (hheld.owed_iff k).mpr ⟨giver, hkey⟩
    have hgave := hheld.giveUp hkey hgiven fun other ↦ Iff.rfl
    refine hgave.take (by rw [hother, hnone]) (hreceived.trans hkey) (fun hstill ↦ hstill.2 rfl)
      fun other ↦ ⟨fun hold ↦ ?_, ?_⟩
    · by_cases heq : other = k
      · exact .inr heq
      · exact .inl ⟨hold, heq⟩
    · rintro (⟨hold, -⟩ | rfl)
      · exact hold
      · exact howed

end CallTable

end GameEngine.Library
