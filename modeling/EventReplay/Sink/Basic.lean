import EventReplay.Sink.Delivery

/-!
# Sinks

A sink accepts deliveries at once and tells their outcomes later, each to the handle that the delivery
came with. Time is a count of milliseconds that stands still while a sink works.
-/

set_option autoImplicit false

namespace EventReplay

/-- What takes deliveries to their streams. -/
class Sink (ω : Type) where
  /-- The number of shards of a stream. -/
  shardCount : ω → String → Nat
  /-- Accepts a delivery at a time, under a handle. What can be refused on sight is answered at once. -/
  accept : ω → Nat → Nat → Delivery → Option Outcome × ω
  /-- When the next outcome will be told, if there is one to come. -/
  nextDue : ω → Option Nat
  /-- Tells the outcomes that are due at a time, in order. -/
  runDue : ω → Nat → List (Nat × Outcome) × ω
  /-- Brings everything to its place: the outcomes that this tells and the answer. There is no answer
  while something has to happen first. -/
  flush : ω → List (Nat × Outcome) × Option (Except DispatchFault Unit) × ω

end EventReplay
