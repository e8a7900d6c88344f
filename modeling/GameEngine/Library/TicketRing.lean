import Mathlib.Data.Int.ModEq

/-!
# Tickets that share the cells of a ring

Tickets are numbered from zero, and ticket `p` uses cell `p % capacity`. A ticket may use its cell
once the ticket one lap before it has released the cell. A ticket is current when it may use its
cell and has not released it. Every cell has exactly one current ticket (`Current.unique`,
`exists_current`), which is how a per-cell sequence number can tell who may touch the cell.
-/

set_option autoImplicit false
set_option relaxedAutoImplicit false

namespace GameEngine.Library.TicketRing

variable {capacity : ℕ} {released : ℕ → Prop}

/-- The ticket may use its cell: it is of the first lap, or the ticket one lap before has released
the cell. -/
def Admitted (capacity : ℕ) (released : ℕ → Prop) (ticket : ℕ) : Prop :=
  ticket < capacity ∨ released (ticket - capacity)

/-- The ticket may use its cell and has not released it. -/
def Current (capacity : ℕ) (released : ℕ → Prop) (ticket : ℕ) : Prop :=
  ¬ released ticket ∧ Admitted capacity released ticket

/-- Tickets of one cell that differ are at least a lap apart. -/
theorem lap_le {first second : ℕ} (hlt : first < second)
    (hcell : first % capacity = second % capacity) : first + capacity ≤ second := by
  obtain ⟨k, hk⟩ : capacity ∣ second - first := (Nat.modEq_iff_dvd' hlt.le).mp hcell
  rcases Nat.eq_zero_or_pos k with rfl | hpos
  · omega
  · have := Nat.le_mul_of_pos_right capacity hpos
    omega

theorem sub_mod_cell {ticket : ℕ} (hle : capacity ≤ ticket) :
    (ticket - capacity) % capacity = ticket % capacity :=
  (Nat.mod_eq_sub_mod hle).symm

/-- The tickets of a cell are released in order. Assumes: only admitted tickets are released. -/
theorem released_of_lt (hadmitted : ∀ ticket, released ticket → Admitted capacity released ticket)
    {first second : ℕ} (hsecond : released second) (hlt : first < second)
    (hcell : first % capacity = second % capacity) : released first := by
  induction second using Nat.strong_induction_on with
  | _ second ih =>
    have hlap := lap_le hlt hcell
    rcases hadmitted second hsecond with hfirstLap | hbefore
    · omega
    · rcases Nat.lt_or_ge first (second - capacity) with hless | hge
      · refine ih (second - capacity) ?_ hbefore hless (hcell.trans (sub_mod_cell (by omega)).symm)
        rcases Nat.eq_zero_or_pos capacity with rfl | hpos
        · simp only [Nat.mod_zero] at hcell
          omega
        · omega
      · obtain rfl : first = second - capacity := by omega
        exact hbefore

/-- A cell has at most one current ticket. Assumes: only admitted tickets are released. -/
theorem Current.unique
    (hadmitted : ∀ ticket, released ticket → Admitted capacity released ticket)
    {first second : ℕ} (hfirst : Current capacity released first)
    (hsecond : Current capacity released second)
    (hcell : first % capacity = second % capacity) : first = second := by
  have hnotlt : ∀ p q, Current capacity released p → Current capacity released q →
      p % capacity = q % capacity → ¬ p < q := by
    intro p q hp hq hpq hlt
    have hlap := lap_le hlt hpq
    rcases hq.2 with hfirstLap | hbefore
    · omega
    · rcases Nat.lt_or_ge p (q - capacity) with hless | hge
      · exact hp.1 (released_of_lt hadmitted hbefore hless
          (hpq.trans (sub_mod_cell (by omega)).symm))
      · obtain rfl : p = q - capacity := by omega
        exact hp.1 hbefore
  have := hnotlt first second hfirst hsecond hcell
  have := hnotlt second first hsecond hfirst hcell.symm
  omega

/-- At or before a ticket that is not released, its cell has a current ticket. -/
theorem exists_current (hcapacity : 0 < capacity) {ticket : ℕ} (hticket : ¬ released ticket) :
    ∃ current ≤ ticket, current % capacity = ticket % capacity ∧
      Current capacity released current := by
  induction ticket using Nat.strong_induction_on with
  | _ ticket ih =>
    by_cases hadmitted : Admitted capacity released ticket
    · exact ⟨ticket, le_refl _, rfl, hticket, hadmitted⟩
    · rw [Admitted, not_or, not_lt] at hadmitted
      obtain ⟨current, hle, hcell, hcurrent⟩ := ih (ticket - capacity) (by omega) hadmitted.2
      exact ⟨current, by omega, hcell.trans (sub_mod_cell hadmitted.1), hcurrent⟩

/-- The ticket of a cell that is released next admits the ticket one lap later, and changes no other
cell's current ticket. -/
theorem Current.of_release {ticket other : ℕ}
    (hadmitted : ∀ p, released p → Admitted capacity released p)
    (hticket : Current capacity released ticket)
    (hother : Current capacity (fun p ↦ p = ticket ∨ released p) other) :
    Current capacity released other ∧ other % capacity ≠ ticket % capacity ∨
      other = ticket + capacity := by
  obtain ⟨hnot, hmay⟩ := hother
  rw [not_or] at hnot
  have hold : Admitted capacity released other →
      Current capacity released other ∧ other % capacity ≠ ticket % capacity :=
    fun hadmit ↦ ⟨⟨hnot.2, hadmit⟩, fun hcell ↦
      hnot.1 (Current.unique hadmitted ⟨hnot.2, hadmit⟩ hticket hcell)⟩
  rcases hmay with hfirstLap | hnext | hbefore
  · exact .inl (hold (.inl hfirstLap))
  · rcases Nat.lt_or_ge other capacity with hless | hge
    · exact .inl (hold (.inl hless))
    · exact .inr (by omega)
  · exact .inl (hold (.inr hbefore))

end GameEngine.Library.TicketRing
