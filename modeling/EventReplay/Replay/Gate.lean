/-!
# The backpressure gate

A gate has a number of units. A permit holds one unit from the moment it is granted until it is given
back, which bounds the dispatches that wait for an outcome. Calls that find too few free units wait in
a line, first come first served: units that come free go to the first call in the line until it has
all it needs. A drain asks for all units at once.

At every moment the free units, the units of permits, and the units assigned to calls in the line or
ready to be answered make up the capacity.
-/

set_option autoImplicit false

namespace EventReplay

/-- A call for units. -/
structure GateCall where
  /-- The call's number. -/
  ticket : Nat
  needs : Nat
  /-- The units assigned to it so far. -/
  has : Nat
deriving DecidableEq, Repr

/-- A gate. -/
structure Gate where
  capacity : Nat
  free : Nat
  /-- The calls that lack units, first come first. -/
  waiting : List GateCall := []
  /-- The calls that have all they need and have not been answered. -/
  ready : List GateCall := []
  closed : Bool := false
  /-- The permits granted and not given back. -/
  outstanding : Nat := 0
  /-- The most permits that were ever out. -/
  peak : Nat := 0
deriving DecidableEq, Repr

namespace Gate

/-- The most units that a gate can have. -/
def maxCapacity : Nat := 4294967295

/-- A gate of so many units, but at least one. -/
def ofCapacity (capacity : Nat) : Gate :=
  let capacity := min (max capacity 1) maxCapacity
  { capacity, free := capacity }

/-- Assigns units to the calls in a line, the first before the others. Gives the calls that have all
they need now, those that still wait, and the units left over. -/
def assign : Nat → List GateCall → List GateCall × List GateCall × Nat
  | units, [] => ([], [], units)
  | units, call :: calls =>
    if call.needs ≤ call.has + units then
      let (ready, waiting, left) := assign (units - (call.needs - call.has)) calls
      ({ call with has := call.needs } :: ready, waiting, left)
    else ([], { call with has := call.has + units } :: calls, 0)

/-- Takes units back and hands them to those who wait. -/
def putBack (gate : Gate) (units : Nat) : Gate :=
  let (ready, waiting, left) := assign units gate.waiting
  { gate with ready := gate.ready ++ ready, waiting, free := gate.free + left }

/-- A call asks for units. -/
def ask (gate : Gate) (ticket needs : Nat) : Gate :=
  if gate.closed then gate
  else if needs ≤ gate.free then
    { gate with
      free := gate.free - needs
      ready := gate.ready ++ [⟨ticket, needs, needs⟩] }
  else
    { gate with
      free := 0
      waiting := gate.waiting ++ [⟨ticket, needs, gate.free⟩] }

/-- The units assigned to some calls. -/
def held : List GateCall → Nat
  | [] => 0
  | call :: calls => call.has + held calls

/-- Withdraws a call; the units assigned to it go back. -/
def withdraw (gate : Gate) (ticket : Nat) : Gate :=
  let mine (call : GateCall) : Bool := call.ticket = ticket
  putBack
    { gate with
      waiting := gate.waiting.filter fun call => !mine call
      ready := gate.ready.filter fun call => !mine call }
    (held (gate.waiting.filter mine) + held (gate.ready.filter mine))

/-- Whether a call has all it needs. -/
def isReady (gate : Gate) (ticket : Nat) : Bool :=
  gate.ready.any fun call => call.ticket = ticket

/-- Answers a call that has its unit: the unit becomes a permit. -/
def grant (gate : Gate) (ticket : Nat) : Gate :=
  { gate with
    ready := gate.ready.filter fun call => call.ticket ≠ ticket
    outstanding := gate.outstanding + 1
    peak := max gate.peak (gate.outstanding + 1) }

/-- Gives a permit back. -/
def release (gate : Gate) : Gate :=
  putBack { gate with outstanding := gate.outstanding - 1 } 1

/-- Lets no further call through. -/
def close (gate : Gate) : Gate := { gate with closed := true }

end Gate

end EventReplay
