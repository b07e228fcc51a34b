import EventReplay.Notice
import EventReplay.Storage.FileTree

/-!
# Sources of events

A source hands out events one at a time, oldest first, and can skip ahead to a time. `EventQueue` holds
its events in memory; the source that reads them from files is `EventReplay.OpenLog`.
-/

set_option autoImplicit false

namespace EventReplay

/-- Why a source fails. -/
inductive SourceFault where
  /-- A segment cannot be read. -/
  | unreadable (path : String) (cause : FileFault)
  /-- The segments below a root cannot be listed. -/
  | unlisted (root : String) (cause : FileFault)
deriving DecidableEq, Repr

/-- The fault in words. -/
def SourceFault.message : SourceFault → String
  | unreadable path cause => "failed to read " ++ path ++ ": " ++ cause.message
  | unlisted root cause =>
    "failed to list event log root: IO error for operation on " ++ root ++ ": " ++ cause.message

/-- What is behind the fault, the nearest cause first. -/
def SourceFault.causes : SourceFault → List String
  | unreadable _ cause => [cause.message]
  | unlisted root cause =>
    ["IO error for operation on " ++ root ++ ": " ++ cause.message, cause.message]

/-- What asking a source comes to: an answer, the source afterwards, and what there is to tell. -/
structure Pull (σ α : Type) where
  answer : Except SourceFault α
  source : σ
  notices : List Notice := []

/-- A source of events in the order of their times. -/
class EventSource (σ : Type) where
  /-- Whether an event is left. -/
  hasNext : σ → Bool
  /-- The next event, or nothing at the end. -/
  next : σ → Pull σ (Option Event)
  /-- Skips the events before a time; never goes back. -/
  seek : Int → σ → Pull σ Unit
  /-- The events to the end, or up to the first fault. -/
  drain : σ → Pull σ Unit × List Event

/-- Events in memory, those still to come. -/
structure EventQueue where
  events : List Event

namespace EventQueue

/-- The queue of some events, by time; events of one time keep their order. -/
def ofList (events : List Event) : EventQueue :=
  ⟨events.mergeSort fun a b => a.timestamp ≤ b.timestamp⟩

/-- The next event. -/
def next : EventQueue → Pull EventQueue (Option Event)
  | ⟨[]⟩ => ⟨.ok none, ⟨[]⟩, []⟩
  | ⟨event :: events⟩ => ⟨.ok (some event), ⟨events⟩, []⟩

/-- Skips the events before a time. -/
def seek (time : Int) (queue : EventQueue) : Pull EventQueue Unit :=
  ⟨.ok (), ⟨queue.events.dropWhile fun event => event.timestamp < time⟩, []⟩

instance : EventSource EventQueue where
  hasNext queue := !queue.events.isEmpty
  next := next
  seek := seek
  drain queue := (⟨.ok (), ⟨[]⟩, []⟩, queue.events)

end EventQueue

end EventReplay
