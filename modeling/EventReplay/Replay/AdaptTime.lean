import EventReplay.Millis

/-!
# Outbound times

The time that an event carries on its stream: its own, its own moved so that the first event falls on
the start of the replay, or the time at which it is sent.
-/

set_option autoImplicit false

namespace EventReplay

/-- How outbound times come about. -/
inductive AdaptTime where
  /-- Events keep their times. -/
  | unchanged
  /-- The first event gets the time at which the replay started, and the others keep their distance. -/
  | invocation
  /-- An event gets the time at which it is sent. -/
  | ingestion
deriving DecidableEq, Repr

namespace AdaptTime

/-- The name of a policy. -/
def name : AdaptTime → String
  | unchanged => "original"
  | invocation => "invocation"
  | ingestion => "ingestion"

/-- All policies. -/
def all : List AdaptTime := [unchanged, invocation, ingestion]

/-- The policy of a name. -/
def ofName? (name : String) : Option AdaptTime :=
  if name = "original" then some unchanged
  else if name = "invocation" then some invocation
  else if name = "ingestion" then some ingestion
  else none

/-- The outbound time of an event, in a replay that started at `start` with an event of time `origin`,
when it is `now`. -/
def outbound (policy : AdaptTime) (start origin timestamp now : Int) : Int :=
  match policy with
  | unchanged => timestamp
  | invocation => Millis.add start (Millis.sub timestamp origin)
  | ingestion => now

theorem ofName?_name (policy : AdaptTime) : ofName? policy.name = some policy := by
  cases policy <;> rfl

end AdaptTime

end EventReplay
