import Mathlib.Data.List.Nodup
import EventReplay.Proofs.GateLine

/-!
# Many callers at a gate

Calls that cannot be answered at once stand in a line, first come first served. `Gate.Orderly` says what
every operation on a gate keeps of that line, whoever calls: those at its front have all they need, those
behind them lack some, and no unit is free while one of them waits. It follows where each operation
leaves the line (`Gate.requests`) and the units that are in the gate (`Gate.units`).
-/

set_option autoImplicit false

namespace EventReplay

/-- What a call asks for: its ticket, and the units that it needs. -/
def GateCall.request (call : GateCall) : Nat × Nat := (call.ticket, call.needs)

/-- The requests of other tickets are those of the other calls. -/
theorem GateCall.filter_request (queue : List GateCall) (ticket : Nat) :
    (queue.map request).filter (fun request => request.1 ≠ ticket) =
      (queue.filter fun call => call.ticket ≠ ticket).map request := by
  rw [List.filter_map]
  rfl

namespace Gate

variable {gate : Gate} {queue : List GateCall} {ticket needs : Nat}

theorem held_append (queue more : List GateCall) : held (queue ++ more) = held queue + held more := by
  induction queue with
  | nil => simp [held]
  | cons call queue ih => simp only [List.cons_append, held, ih, Nat.add_assoc]

/-- The units of some calls are those of the ones picked out and those of the others. -/
theorem held_filter (p : GateCall → Bool) (queue : List GateCall) :
    held (queue.filter p) + held (queue.filter fun call => !p call) = held queue := by
  induction queue with
  | nil => rfl
  | cons call queue ih =>
      cases hp : p call <;> simp only [List.filter_cons, hp, Bool.not_false, Bool.not_true, if_true,
        Bool.false_eq_true, if_false, held] <;> omega

/-- A call has no more units than all calls together. -/
theorem has_le_held {call : GateCall} (h : call ∈ queue) : call.has ≤ held queue := by
  obtain ⟨before, after, rfl⟩ := List.append_of_mem h
  rw [held_append, held]
  omega

/-! ## Units that come free -/

/-- Units go to the calls of a line that lacks them: the line stays as it is, some at its front have all
they need now, and nothing is left over while others wait. -/
structure Assigns (units : Nat) (queue ready waiting : List GateCall) (left : Nat) : Prop where
  line : (ready ++ waiting).map GateCall.request = queue.map GateCall.request
  full : ∀ call ∈ ready, call.has = call.needs
  lacking : ∀ call ∈ waiting, call.has < call.needs
  conserved : held ready + held waiting + left = held queue + units
  busy : waiting ≠ [] → left = 0

theorem assigns_assign (units : Nat) (hlacking : ∀ call ∈ queue, call.has < call.needs) :
    Assigns units queue (assign units queue).1 (assign units queue).2.1 (assign units queue).2.2 := by
  induction queue generalizing units with
  | nil => exact ⟨rfl, by simp [assign], by simp [assign], by simp [assign, held], by simp [assign]⟩
  | cons call queue ih =>
      obtain ⟨hcall, hqueue⟩ := List.forall_mem_cons.mp hlacking
      by_cases henough : call.needs ≤ call.has + units
      -- it has all it needs now, and what is left goes on down the line
      · have hrest := ih (units - (call.needs - call.has)) hqueue
        simp only [assign, henough, if_true]
        generalize assign (units - (call.needs - call.has)) queue = assigned at hrest ⊢
        obtain ⟨ready, waiting, left⟩ := assigned
        obtain ⟨hline, hfull, hlack, hconserved, hbusy⟩ := hrest
        refine ⟨congrArg (call.request :: ·) hline, List.forall_mem_cons.mpr ⟨rfl, hfull⟩, hlack, ?_,
          hbusy⟩
        simp only [held] at hconserved ⊢
        omega
      · simp only [assign, henough, if_false]
        refine ⟨rfl, by simp, List.forall_mem_cons.mpr ⟨by simp only; omega, hqueue⟩, ?_, fun _ => rfl⟩
        simp only [held]
        omega

/-! ## The line and the units of a gate -/

/-- The calls that have not been answered, first come first. -/
def line (gate : Gate) : List GateCall := gate.ready ++ gate.waiting

/-- What the calls in the line ask for. -/
def requests (gate : Gate) : List (Nat × Nat) := gate.line.map GateCall.request

/-- The units in the gate: those that are free, and those assigned to calls. -/
def units (gate : Gate) : Nat := gate.free + held gate.ready + held gate.waiting

/-- In the line of a gate, the calls that have all they need stand before those that lack units, and no
unit is free while a call waits for it. -/
structure Orderly (gate : Gate) : Prop where
  full : ∀ call ∈ gate.ready, call.has = call.needs
  lacking : ∀ call ∈ gate.waiting, call.has < call.needs
  busy : gate.waiting ≠ [] → gate.free = 0

theorem orderly_ofCapacity (capacity : Nat) : Orderly (ofCapacity capacity) :=
  ⟨by simp [ofCapacity], by simp [ofCapacity], by simp [ofCapacity]⟩

/-! ## Units that come back -/

/-- What a gate is after units have come back to it. -/
theorem Orderly.exists_putBack (h : Orderly gate) (units : Nat) :
    ∃ ready waiting left, Assigns units gate.waiting ready waiting left ∧
      gate.putBack units =
        { gate with ready := gate.ready ++ ready, waiting, free := gate.free + left } :=
  ⟨_, _, _, assigns_assign units h.lacking, rfl⟩

theorem Orderly.putBack (h : Orderly gate) (units : Nat) : Orderly (gate.putBack units) := by
  obtain ⟨ready, waiting, left, hassigns, heq⟩ := h.exists_putBack units
  rw [heq]
  refine ⟨List.forall_mem_append.mpr ⟨h.full, hassigns.full⟩, hassigns.lacking, fun hwaiting => ?_⟩
  -- those who wait now have waited before
  have hbefore : gate.waiting ≠ [] := by
    intro hnone
    have hline := hassigns.line
    simp [hnone] at hline
    exact hwaiting hline.2
  simp only [h.busy hbefore, hassigns.busy hwaiting]

theorem Orderly.requests_putBack (h : Orderly gate) (units : Nat) :
    (gate.putBack units).requests = gate.requests := by
  obtain ⟨ready, waiting, left, hassigns, heq⟩ := h.exists_putBack units
  rw [heq]
  simp only [requests, line]
  rw [List.append_assoc, List.map_append, hassigns.line, ← List.map_append]

theorem Orderly.units_putBack (h : Orderly gate) (units : Nat) :
    (gate.putBack units).units = gate.units + units := by
  obtain ⟨ready, waiting, left, hassigns, heq⟩ := h.exists_putBack units
  have hconserved := hassigns.conserved
  rw [heq]
  simp only [Gate.units, held_append]
  omega

/-! ## Calls that come and go -/

theorem Orderly.ask (h : Orderly gate) (ticket needs : Nat) : Orderly (gate.ask ticket needs) := by
  unfold Gate.ask
  split
  · exact h
  · split
    · refine ⟨List.forall_mem_append.mpr ⟨h.full, by simp⟩, h.lacking, fun hwaiting => ?_⟩
      simp only [h.busy hwaiting, Nat.zero_sub]
    · refine ⟨h.full, List.forall_mem_append.mpr ⟨h.lacking, ?_⟩, fun _ => rfl⟩
      simp only [List.mem_singleton, forall_eq]
      omega

/-- Who asks for units stands at the end of the line. -/
theorem Orderly.requests_ask (h : Orderly gate) (hopen : gate.closed = false) (ticket : Nat)
    (hneeds : 0 < needs) : (gate.ask ticket needs).requests = gate.requests ++ [(ticket, needs)] := by
  unfold Gate.ask
  rw [if_neg (by simp [hopen])]
  split
  -- nobody waits where units are free
  · have hwaiting : gate.waiting = [] := by
      by_contra hwaiting
      have hfree := h.busy hwaiting
      omega
    simp [requests, line, hwaiting, GateCall.request]
  · simp [requests, line, GateCall.request]

theorem units_ask (gate : Gate) (ticket needs : Nat) : (gate.ask ticket needs).units = gate.units := by
  unfold Gate.ask
  split
  · rfl
  · split <;> simp only [units, held_append, held] <;> omega

/-- Without the calls of a ticket, the line is as orderly as before. -/
theorem Orderly.without (h : Orderly gate) (ticket : Nat) : Orderly { gate with
    waiting := gate.waiting.filter fun call => !decide (call.ticket = ticket)
    ready := gate.ready.filter fun call => !decide (call.ticket = ticket) } :=
  ⟨fun call hcall => h.full call ((List.mem_filter.mp hcall).1),
    fun call hcall => h.lacking call ((List.mem_filter.mp hcall).1),
    fun hwaiting => h.busy fun hnone => hwaiting (by simp [hnone])⟩

theorem Orderly.withdraw (h : Orderly gate) (ticket : Nat) : Orderly (gate.withdraw ticket) :=
  (h.without ticket).putBack _

theorem Orderly.requests_withdraw (h : Orderly gate) (ticket : Nat) :
    (gate.withdraw ticket).requests = gate.requests.filter fun request => request.1 ≠ ticket := by
  rw [Gate.withdraw, (h.without ticket).requests_putBack]
  rw [requests, requests, line, line, GateCall.filter_request, List.filter_append]
  simp only [ne_eq, decide_not]

theorem Orderly.units_withdraw (h : Orderly gate) (ticket : Nat) :
    (gate.withdraw ticket).units = gate.units := by
  have hready := held_filter (fun call => decide (call.ticket = ticket)) gate.ready
  have hwaiting := held_filter (fun call => decide (call.ticket = ticket)) gate.waiting
  rw [Gate.withdraw, (h.without ticket).units_putBack]
  simp only [units]
  omega

/-! ## Calls that are answered -/

/-- Takes a call that has all it needs out of the line, with its units. -/
def take (gate : Gate) (ticket : Nat) : Gate :=
  { gate with ready := gate.ready.filter fun call => call.ticket ≠ ticket }

/-- Counts a permit. -/
def countUp (gate : Gate) : Gate := { gate with outstanding := gate.outstanding + 1 }

/-- Keeps the peak at this level at least. -/
def raisePeak (gate : Gate) (level : Nat) : Gate := { gate with peak := max gate.peak level }

/-- Counts a permit no longer. -/
def countDown (gate : Gate) : Gate := { gate with outstanding := gate.outstanding - 1 }

/-- A permit is granted in three steps: its unit is taken, then it is counted, then the peak is kept
up. -/
theorem grant_eq (gate : Gate) (ticket : Nat) :
    gate.grant ticket = ((gate.take ticket).countUp).raisePeak (gate.outstanding + 1) := rfl

/-- A permit comes back in two steps: it is counted no longer, then its unit goes back. -/
theorem release_eq (gate : Gate) : gate.release = gate.countDown.putBack 1 := rfl

theorem Orderly.take (h : Orderly gate) (ticket : Nat) : Orderly (gate.take ticket) :=
  ⟨fun call hcall => h.full call ((List.mem_filter.mp hcall).1), h.lacking, h.busy⟩

/-- Each call in the line has a ticket of its own. -/
def Distinct (gate : Gate) : Prop := (gate.requests.map Prod.fst).Nodup

/-- The call of a ticket that has all it needs is alone in the line under that ticket, and it is the
one that is taken out. -/
theorem Distinct.exists_ready (h : gate.Distinct) (hready : gate.isReady ticket = true) :
    ∃ call before after, call.ticket = ticket ∧ gate.ready = before ++ call :: after ∧
      (∀ other ∈ before ++ after ++ gate.waiting, other.ticket ≠ ticket) ∧
      gate.take ticket = { gate with ready := before ++ after } := by
  obtain ⟨call, hcall, hticket⟩ := List.any_eq_true.mp hready
  obtain ⟨before, after, heq⟩ := List.append_of_mem hcall
  obtain rfl : call.ticket = ticket := by simpa using hticket
  have hothers : ∀ other ∈ before ++ after ++ gate.waiting, other.ticket ≠ call.ticket := by
    intro other hother hsame
    have hnodup : ((before ++ call :: (after ++ gate.waiting)).map GateCall.ticket).Nodup := by
      simpa [Distinct, requests, line, heq, Function.comp_def, GateCall.request] using h
    rw [List.map_append, List.map_cons, List.nodup_middle, List.nodup_cons, ← List.map_append,
      ← List.append_assoc] at hnodup
    exact hnodup.1 (hsame ▸ List.mem_map_of_mem hother)
  refine ⟨call, before, after, rfl, heq, hothers, ?_⟩
  have hrest : (before ++ call :: after).filter (fun other => other.ticket ≠ call.ticket) =
      before ++ after := by
    rw [List.filter_append, List.filter_cons_of_neg (by simp), ← List.filter_append,
      List.filter_eq_self]
    intro other hother
    simpa using hothers other (List.mem_append_left _ hother)
  rw [Gate.take, heq, hrest]

theorem Distinct.requests_take (h : gate.Distinct) (hready : gate.isReady ticket = true) :
    (gate.take ticket).requests = gate.requests.filter fun request => request.1 ≠ ticket := by
  obtain ⟨call, before, after, rfl, heq, hothers, htake⟩ := h.exists_ready hready
  have hrest : (before ++ after ++ gate.waiting).filter (fun other => other.ticket ≠ call.ticket) =
      before ++ after ++ gate.waiting := by
    rw [List.filter_eq_self]
    intro other hother
    simpa using hothers other hother
  have hline : gate.line = before ++ call :: (after ++ gate.waiting) := by
    simp [line, heq]
  have hline' : (gate.take call.ticket).line = before ++ after ++ gate.waiting := by
    rw [htake]
    rfl
  rw [requests, requests, GateCall.filter_request, hline, hline', List.filter_append,
    List.filter_cons_of_neg (by simp), ← List.filter_append, ← List.append_assoc, hrest]

/-- A call that is answered takes the units that it needs with it. -/
theorem Orderly.units_take (h : Orderly gate) (hdistinct : gate.Distinct)
    (hready : gate.isReady ticket = true) (hrequest : (ticket, needs) ∈ gate.requests) :
    (gate.take ticket).units + needs = gate.units := by
  obtain ⟨call, before, after, rfl, heq, hothers, htake⟩ := hdistinct.exists_ready hready
  obtain ⟨other, hother, hsame⟩ := List.mem_map.mp hrequest
  obtain ⟨hticket, hneeds⟩ := Prod.mk.inj hsame
  have hmem : other ∈ before ++ after ++ gate.waiting ∨ other = call := by
    simp only [line, heq, List.mem_append, List.mem_cons] at hother ⊢
    tauto
  obtain rfl : other = call := hmem.resolve_left fun hmem => hothers other hmem hticket
  have hfull : other.has = other.needs := h.full other (by simp [heq])
  rw [htake]
  simp only [units, heq, held_append, held]
  omega

/-- To withdraw a call that has all it needs is to take it out and to put its units back. -/
theorem Orderly.withdraw_ready (h : Orderly gate) (hdistinct : gate.Distinct)
    (hready : gate.isReady ticket = true) (hrequest : (ticket, needs) ∈ gate.requests) :
    gate.withdraw ticket = (gate.take ticket).putBack needs := by
  have htake := h.units_take hdistinct hready hrequest
  obtain ⟨call, before, after, rfl, heq, hothers, htaken⟩ := hdistinct.exists_ready hready
  have hwaiting : gate.waiting.filter (fun other => !decide (other.ticket = call.ticket)) =
      gate.waiting := by
    rw [List.filter_eq_self]
    intro other hother
    simpa using hothers other (List.mem_append_right _ hother)
  have hreadyWaiting := held_filter (fun other => decide (other.ticket = call.ticket)) gate.waiting
  have hheld := held_filter (fun other => decide (other.ticket = call.ticket)) gate.ready
  have hrest : gate.ready.filter (fun other => !decide (other.ticket = call.ticket)) =
      before ++ after := by
    have hready' := congrArg Gate.ready htaken
    simpa [Gate.take] using hready'
  rw [hwaiting] at hreadyWaiting
  rw [hrest] at hheld
  rw [htaken] at htake
  have hunits : held (gate.waiting.filter fun other => decide (other.ticket = call.ticket)) +
      held (gate.ready.filter fun other => decide (other.ticket = call.ticket)) = needs := by
    simp only [units] at htake
    omega
  simp only [Gate.withdraw, hwaiting, hrest, hunits, htaken]

/-- The line stands in the order of its tickets. -/
def InOrder (gate : Gate) : Prop := (gate.requests.map Prod.fst).Pairwise (· < ·)

theorem InOrder.distinct (h : gate.InOrder) : gate.Distinct := h.imp Nat.ne_of_lt

/-- First come first served: where a call has all it needs, so has every call before it, and the gate
has units for both. -/
theorem Orderly.needs_le_units (h : Orderly gate) (horder : gate.InOrder) {first needs' : Nat}
    (hready : gate.isReady ticket = true) (hrequest : (ticket, needs) ∈ gate.requests)
    (hfirst : (first, needs') ∈ gate.requests) (hlt : first < ticket) : needs' + needs ≤ gate.units := by
  have htake := h.units_take horder.distinct hready hrequest
  obtain ⟨call, before, after, rfl, heq, -, htaken⟩ := horder.distinct.exists_ready hready
  obtain ⟨other, hother, hsame⟩ := List.mem_map.mp hfirst
  obtain ⟨rfl, rfl⟩ := Prod.mk.inj hsame
  -- those behind the call have later tickets
  have hbefore : other ∈ before := by
    have hsorted : ((before ++ call :: (after ++ gate.waiting)).map GateCall.ticket).Pairwise
        (· < ·) := by
      simpa [InOrder, requests, line, heq, Function.comp_def, GateCall.request] using horder
    rw [List.map_append, List.map_cons, List.pairwise_append, List.pairwise_cons] at hsorted
    have hbehind : ∀ behind ∈ after ++ gate.waiting, call.ticket < behind.ticket :=
      fun behind hmem => hsorted.2.1.1 _ (List.mem_map_of_mem hmem)
    have hmem : other ∈ before ∨ other = call ∨ other ∈ after ++ gate.waiting := by
      simpa [line, heq] using hother
    rcases hmem with hmem | rfl | hmem
    · exact hmem
    · exact absurd hlt (Nat.lt_irrefl _)
    · exact absurd (hbehind other hmem) (Nat.lt_asymm hlt)
  have hfull : other.has = other.needs := h.full other (by simp [heq, hbefore])
  have hheld : other.has ≤ held (before ++ after) := has_le_held (List.mem_append_left _ hbefore)
  rw [htaken] at htake
  simp only [units] at htake ⊢
  omega

end Gate

end EventReplay
