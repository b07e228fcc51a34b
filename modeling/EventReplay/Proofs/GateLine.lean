import Mathlib.Tactic.Common
import EventReplay.Replay.Gate

/-!
# One caller at a gate

The producer of a replay is the only one who calls for units, one call at a time; hooks give permits
back in between. `Gate.Serves` says that a gate is in order while it serves at most one call: no unit
is lost or made up, and the call is either ready with all its units or waits with some of them.
-/

set_option autoImplicit false

namespace EventReplay.Gate

/-- The calls that wait or are ready are at most this one: a ticket and the units that it needs. -/
inductive Line : List GateCall → List GateCall → Option (Nat × Nat) → Prop where
  | empty : Line [] [] none
  | waiting {ticket needs has : Nat} (h : has < needs) :
      Line [⟨ticket, needs, has⟩] [] (some (ticket, needs))
  | ready {ticket needs : Nat} : Line [] [⟨ticket, needs, needs⟩] (some (ticket, needs))

/-- A gate that lets calls through, has lost none of its units, and serves at most one call. -/
structure Serves (gate : Gate) (call : Option (Nat × Nat)) : Prop where
  isOpen : gate.closed = false
  positive : 0 < gate.capacity
  line : Line gate.waiting gate.ready call
  conserved :
    gate.free + held gate.waiting + held gate.ready + gate.outstanding = gate.capacity

variable {gate gate' : Gate} {call : Option (Nat × Nat)} {ticket needs : Nat}

theorem serves_ofCapacity (capacity : Nat) : Serves (ofCapacity capacity) none :=
  ⟨rfl, by simp only [ofCapacity, maxCapacity]; omega, .empty, by simp [ofCapacity, held]⟩

theorem Serves.ask (h : Serves gate none) (ticket needs : Nat) :
    Serves (gate.ask ticket needs) (some (ticket, needs)) := by
  obtain ⟨capacity, free, waiting, ready, closed, outstanding, peak⟩ := gate
  obtain ⟨hopen, hpos, hline, hconserved⟩ := h
  simp only at hopen hpos hline hconserved
  cases hline
  subst hopen
  simp only [held] at hconserved
  simp only [Gate.ask, Bool.false_eq_true, if_false]
  split
  · refine ⟨rfl, hpos, .ready, ?_⟩
    simp only [held, List.nil_append]
    omega
  · refine ⟨rfl, hpos, .waiting (by omega), ?_⟩
    simp only [held, List.nil_append]
    omega

theorem outstanding_ask (gate : Gate) (ticket needs : Nat) :
    (gate.ask ticket needs).outstanding = gate.outstanding := by
  unfold Gate.ask
  split
  · rfl
  · split <;> rfl

theorem capacity_ask (gate : Gate) (ticket needs : Nat) :
    (gate.ask ticket needs).capacity = gate.capacity := by
  unfold Gate.ask
  split
  · rfl
  · split <;> rfl

/-- A permit that comes back goes to the call that waits, or is free. -/
theorem Serves.release (h : Serves gate call) (hout : 0 < gate.outstanding) :
    Serves gate.release call := by
  obtain ⟨capacity, free, waiting, ready, closed, outstanding, peak⟩ := gate
  obtain ⟨hopen, hpos, hline, hconserved⟩ := h
  simp only at hopen hpos hline hconserved hout
  cases hline with
  | empty =>
      refine ⟨hopen, hpos, .empty, ?_⟩
      simp only [held, Gate.release, putBack, assign, List.append_nil] at hconserved ⊢
      omega
  | ready =>
      refine ⟨hopen, hpos, .ready, ?_⟩
      simp only [held, Gate.release, putBack, assign, List.append_nil] at hconserved ⊢
      omega
  | @waiting ticket needs has hhas =>
      simp only [held] at hconserved
      -- the unit may be the last one that the call waits for
      by_cases hall : needs ≤ has + 1
      · have hrelease : Gate.release
            ⟨capacity, free, [⟨ticket, needs, has⟩], [], closed, outstanding, peak⟩ =
            ⟨capacity, free, [], [⟨ticket, needs, needs⟩], closed, outstanding - 1, peak⟩ := by
          simp only [Gate.release, putBack, assign, hall, if_true, List.nil_append,
            Gate.mk.injEq, and_true, true_and]
          omega
        rw [hrelease]
        refine ⟨hopen, hpos, .ready, ?_⟩
        simp only [held]
        omega
      · have hrelease : Gate.release
            ⟨capacity, free, [⟨ticket, needs, has⟩], [], closed, outstanding, peak⟩ =
            ⟨capacity, free, [⟨ticket, needs, has + 1⟩], [], closed, outstanding - 1, peak⟩ := by
          simp only [Gate.release, putBack, assign, hall, if_false, List.nil_append, Nat.add_zero]
        rw [hrelease]
        refine ⟨hopen, hpos, .waiting (by omega), ?_⟩
        simp only [held]
        omega

/-- A call that is ready has all the units that it needs. -/
theorem Serves.ready_of_isReady (h : Serves gate (some (ticket, needs)))
    (hready : gate.isReady ticket = true) :
    gate.waiting = [] ∧ gate.ready = [⟨ticket, needs, needs⟩] := by
  obtain ⟨capacity, free, waiting, ready, closed, outstanding, peak⟩ := gate
  obtain ⟨-, -, hline, -⟩ := h
  simp only at hline
  cases hline with
  | waiting => simp [isReady] at hready
  | ready => exact ⟨rfl, rfl⟩

theorem Serves.grant (h : Serves gate (some (ticket, 1))) (hready : gate.isReady ticket = true) :
    Serves (gate.grant ticket) none := by
  obtain ⟨hwaiting, hrd⟩ := h.ready_of_isReady hready
  obtain ⟨capacity, free, waiting, ready, closed, outstanding, peak⟩ := gate
  simp only at hwaiting hrd
  subst hwaiting hrd
  have hconserved := h.conserved
  refine ⟨h.isOpen, h.positive, ?_, ?_⟩ <;> simp only [Gate.grant, held] at hconserved ⊢
  · simpa using Line.empty
  · simp [held]
    omega

/-- Once a drain has all units, no permit is out. -/
theorem Serves.outstanding_eq_zero (h : Serves gate (some (ticket, gate.capacity)))
    (hready : gate.isReady ticket = true) : gate.outstanding = 0 := by
  obtain ⟨hwaiting, hrd⟩ := h.ready_of_isReady hready
  have hconserved := h.conserved
  simp only [hwaiting, hrd, held] at hconserved
  omega

theorem Serves.withdraw (h : Serves gate (some (ticket, needs)))
    (hready : gate.isReady ticket = true) : Serves (gate.withdraw ticket) none := by
  obtain ⟨hwaiting, hrd⟩ := h.ready_of_isReady hready
  obtain ⟨capacity, free, waiting, ready, closed, outstanding, peak⟩ := gate
  simp only at hwaiting hrd
  subst hwaiting hrd
  have hconserved := h.conserved
  refine ⟨h.isOpen, h.positive, ?_, ?_⟩ <;> simp [Gate.withdraw, putBack, assign, held] at hconserved ⊢
  · exact .empty
  · omega

theorem Serves.outstanding_le (h : Serves gate call) : gate.outstanding ≤ gate.capacity := by
  have hconserved := h.conserved
  omega

/-! ## What one step does to a gate -/

/-- What the producer or a hook makes of a gate in one step. -/
inductive Moves (gate : Gate) : Gate → Prop where
  | same : Moves gate gate
  | ask (ticket needs : Nat) : Moves gate (gate.ask ticket needs)
  | grant (ticket : Nat) : Moves gate (gate.grant ticket)
  | withdraw (ticket : Nat) : Moves gate (gate.withdraw ticket)
  | release : Moves gate gate.release

theorem peak_ask (gate : Gate) (ticket needs : Nat) : (gate.ask ticket needs).peak = gate.peak := by
  unfold Gate.ask
  split
  · rfl
  · split <;> rfl

theorem Moves.capacity (h : Moves gate gate') : gate'.capacity = gate.capacity := by
  cases h with
  | ask ticket needs => exact capacity_ask gate ticket needs
  | _ => rfl

/-- The peak is kept up with the permits that are out. -/
theorem Moves.peak (h : Moves gate gate') (hle : gate.outstanding ≤ gate.peak) :
    gate'.peak = max gate.peak gate'.outstanding := by
  cases h with
  | same => exact (Nat.max_eq_left hle).symm
  | ask ticket needs =>
      rw [peak_ask, outstanding_ask]
      exact (Nat.max_eq_left hle).symm
  | grant ticket => rfl
  | withdraw ticket => exact (Nat.max_eq_left hle).symm
  | release =>
      have hless : gate.outstanding - 1 ≤ gate.peak := by omega
      exact (Nat.max_eq_left hless).symm

end EventReplay.Gate
