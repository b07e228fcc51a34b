import EventReplay.Hash.SipHash
import EventReplay.Outcome

/-!
# Deliveries

What a sink is asked to do: bring a record to a stream, to the shard of a partition key or to a shard
given by number. A broadcast brings one record to every shard.
-/

set_option autoImplicit false

namespace EventReplay

/-- The shard that a record is meant for. -/
inductive Target where
  /-- The shard of a partition key. -/
  | ofKey (key : String)
  | ofShard (n : Nat)
deriving DecidableEq, Repr

/-- A record on its way to a stream. -/
structure Delivery where
  stream : String
  target : Target
  payload : Bytes
deriving DecidableEq, Repr

/-- The number of the shard among `shards`. -/
def Target.number (target : Target) (shards : Nat) : Nat :=
  match target with
  | .ofKey key => shardOf key shards
  | .ofShard n => n

/-- The key of a record that has one. -/
def Target.key? : Target → Option String
  | ofKey key => some key
  | ofShard _ => none

/-- One record for every shard of a stream. -/
def broadcast (stream : String) (shards : Nat) (payload : Bytes) : List Delivery :=
  (List.range shards).map fun n => ⟨stream, .ofShard n, payload⟩

end EventReplay
