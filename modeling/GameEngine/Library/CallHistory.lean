import Mathlib.Data.List.Basic

/-!
# Histories of calls that do not overlap

An object is given by what a call does to its state, if the call returns, and what it returns. Its
specification is the same over an abstract state, and there every call returns. When each call of
the object does what the specification says and keeps the relation between the two states, any
sequence of calls returns the same results (`results_eq`). The relation may depend on the number of
calls made so far, for objects that count their calls in a machine word.
-/

set_option autoImplicit false
set_option relaxedAutoImplicit false

namespace GameEngine.Library.CallHistory

variable {State Abstract Call Result : Type*}

/-- The state after a sequence of calls and their results, if all of them return. -/
def perform (object : State → Call → Option (State × Result)) :
    State → List Call → Option (State × List Result)
  | state, [] => some (state, [])
  | state, call :: calls => do
    let (next, result) ← object state call
    let (last, results) ← perform object next calls
    return (last, result :: results)

/-- The abstract state after a sequence of calls and their results. -/
def performSpec (spec : Abstract → Call → Abstract × Result) :
    Abstract → List Call → Abstract × List Result
  | abstract, [] => (abstract, [])
  | abstract, call :: calls =>
    let rest := performSpec spec (spec abstract call).1 calls
    (rest.1, (spec abstract call).2 :: rest.2)

/-- A sequence of calls does what the specification says. Assumes: each call does, while fewer than
`limit` calls have been made. -/
theorem results_eq {object : State → Call → Option (State × Result)}
    {spec : Abstract → Call → Abstract × Result} (relates : ℕ → State → Abstract → Prop) (limit : ℕ)
    (hcall : ∀ made < limit, ∀ state abstract call, relates made state abstract →
      ∃ next, object state call = some (next, (spec abstract call).2) ∧
        relates (made + 1) next (spec abstract call).1) (calls : List Call) :
    ∀ made state abstract, made + calls.length ≤ limit → relates made state abstract →
      ∃ last, perform object state calls = some (last, (performSpec spec abstract calls).2) ∧
        relates (made + calls.length) last (performSpec spec abstract calls).1 := by
  induction calls with
  | nil => exact fun _ state _ _ hrelates ↦ ⟨state, rfl, hrelates⟩
  | cons call calls ih =>
    intro made state abstract hlimit hrelates
    rw [List.length_cons] at hlimit
    obtain ⟨next, hobject, hnext⟩ := hcall made (by omega) state abstract call hrelates
    obtain ⟨last, hrest, hlast⟩ := ih (made + 1) next _ (by omega) hnext
    refine ⟨last, ?_, ?_⟩
    · simp [perform, performSpec, hobject, hrest]
    · rw [List.length_cons, Nat.add_comm calls.length, ← Nat.add_assoc]
      exact hlast

end GameEngine.Library.CallHistory
