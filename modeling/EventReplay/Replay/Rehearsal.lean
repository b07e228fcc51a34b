import EventReplay.Replay.Step
import EventReplay.Sink.Basic

/-!
# Rehearsals

A replay and its sink on a clock that only moves when neither can do anything: a schedule of the
replay's steps (`Replay.act`), picked by a rule. The producer goes first. Where it is blocked, the sink
tells the outcomes that are due, and where that does not help, the time moves on to the next outcome or
to the end of the producer's sleep. Outcomes that are due exactly at that end wait until the producer
is blocked again.
-/

set_option autoImplicit false

namespace EventReplay

/-- A wall clock. -/
inductive WallClock where
  /-- It shows a time at the start of a replay and moves on from there. -/
  | anchored (anchor : Int)
  /-- It always shows the same time. -/
  | fixed (now : Int)
deriving DecidableEq, Repr

/-- Why a wall clock shows no time. -/
inductive ClockFault where
  /-- A sum is no time that can be told. -/
  | sum
  /-- A difference is none. -/
  | difference
deriving DecidableEq, Repr

/-- The text of a fault. -/
def ClockFault.message : ClockFault → String
  | sum => "attempt to add with overflow"
  | difference => "attempt to subtract with overflow"

/-- What a wall clock shows so many milliseconds after the start. A span that no time can hold is to lead
to the latest time, and what is left until then is worked out for every span. -/
def WallClock.read (clock : WallClock) (elapsed : Nat) : Except ClockFault Int :=
  match clock with
  | anchored anchor =>
    match Millis.word? (· - ·) Millis.latest anchor with
    | none => .error .difference
    | some left =>
      let passed := if (elapsed : Int) ≤ Millis.latest then (elapsed : Int) else left
      match Millis.word? (· + ·) anchor passed with
      | none => .error .sum
      | some now => .ok now
  | fixed now => .ok now

/-- Whether the producer reads the wall clock in its next step. -/
def Stage.readsClock : Stage → Bool
  | .holding _ | .observing _ | .closing => true
  | _ => false

/-- A replay under rehearsal. -/
structure Rehearsal (σ ω : Type) where
  replay : Replay σ
  sink : ω
  clock : WallClock
  /-- The milliseconds since the start. -/
  time : Nat := 0
  /-- When a sleep ends. -/
  wakeAt : Nat := 0
  /-- What the replay has told, latest first. -/
  notices : List Notice := []
  /-- The fault of the wall clock that broke the rehearsal off. -/
  broken : Option ClockFault := none

/-- What a rehearsal comes to next. -/
inductive NextMove where
  /-- The producer takes a step. -/
  | produce
  /-- The sink tells what is due. -/
  | settle
  /-- The sink is flushed. -/
  | flush
  /-- The time moves on, and the sink tells what is due then. -/
  | settleAt (time : Nat)
  /-- The time moves on to the end of a sleep. -/
  | wakeAt (time : Nat)
  /-- Nothing can happen any more. -/
  | stop
deriving DecidableEq, Repr

namespace Rehearsal

variable {σ ω : Type} [EventSource σ] [Sink ω]

/-- The milliseconds of the longest sleep that a clock can measure out, and of the sleep that takes the
place of a longer one: thirty years. -/
def longestSleep : Nat × Nat := (9223372036854775808000, 946080000000)

/-- When a sleep that begins now ends: at the first whole millisecond after its time. -/
def sleepEnd (time wait : Nat) : Nat :=
  let millis := (wait + 999999) / 1000000
  time + (if longestSleep.1 ≤ millis then longestSleep.2 else millis)

/-- The present moment. Where the wall clock is not read, it stands at the start of the replay. -/
def moment (s : Rehearsal σ ω) : Except ClockFault Moment :=
  let shown := if s.replay.stage.readsClock then s.clock.read s.time else .ok s.replay.start
  shown.map fun now => ⟨s.time * 1000, now⟩

/-- Adds the notices among effects to what has been told. -/
def tellNotices (s : Rehearsal σ ω) (effects : List Effect) : Rehearsal σ ω :=
  effects.foldl (fun s effect =>
    match effect with
    | .notice n => { s with notices := n :: s.notices }
    | _ => s) s

/-- Tells outcomes of deliveries, one after another. -/
def tellOutcomes (s : Rehearsal σ ω) (outcomes : List (Nat × Outcome)) : Rehearsal σ ω :=
  outcomes.foldl (fun s (handle, outcome) =>
    let (replay, effects) := s.replay.resolve handle outcome
    { s with replay }.tellNotices effects) s

/-- Hands deliveries to the sink under consecutive handles. -/
def deliver (s : Rehearsal σ ω) (first : Nat) (deliveries : List Delivery) : Rehearsal σ ω :=
  deliveries.zipIdx.foldl (fun s (d, n) =>
    let (told, sink) := Sink.accept s.sink s.time (first + n) d
    { s with sink }.tellOutcomes (told.map fun outcome => (first + n, outcome)).toList) s

/-- Lets an effect of the replay happen. -/
def perform (s : Rehearsal σ ω) : Effect → Rehearsal σ ω
  | .notice n => { s with notices := n :: s.notices }
  | .sleep wait => { s with wakeAt := sleepEnd s.time wait }
  | .dispatch handle d => s.deliver handle [d]
  | .broadcast first stream payload =>
    s.deliver first (EventReplay.broadcast stream s.replay.shards payload)
  | .flush => s

/-- Rehearses a replay from a source into a stream. -/
def ofSource (plan : ReplayPlan) (metrics : Option ReplayMetrics) (clock : WallClock) (source : σ)
    (sink : ω) : Rehearsal σ ω :=
  let (start, broken) : Int × Option ClockFault :=
    match clock.read 0 with
    | .ok now => (now, none)
    | .error fault => (0, some fault)
  let (replay, effects) :=
    Replay.ofSource plan metrics (Sink.shardCount sink plan.stream) ⟨0, start⟩ source
  { replay, sink, clock, broken : Rehearsal σ ω }.tellNotices effects

/-- Rehearses a replay as planned, from a time on if one is given. A bad plan is refused, and so is a
source that cannot skip to the time. -/
def ofPlan (plan : ReplayPlan) (metrics : Option ReplayMetrics) (clock : WallClock)
    (start : Option Int) (source : σ) (sink : ω) : Except ReplayFault (Rehearsal σ ω) :=
  match plan.fault? with
  | some fault => .error (.settings fault)
  | none =>
    let pull : Pull σ Unit :=
      match start with
      | none => ⟨.ok (), source, []⟩
      | some time => EventSource.seek time source
    match pull.answer with
    | .error fault => .error (.source fault)
    | .ok () =>
      let s := ofSource plan metrics clock pull.source sink
      .ok { s with notices := s.notices ++ pull.notices.reverse }

/-- What comes next. -/
def nextMove (s : Rehearsal σ ω) : NextMove :=
  let due := Sink.nextDue s.sink
  if s.broken.isSome || s.replay.result?.isSome then .stop
  else if !s.replay.isBlocked then .produce
  else
    match due with
    | some time =>
      if time ≤ s.time then .settle
      else
        match s.replay.stage with
        | .asleep _ => if time < s.wakeAt then .settleAt time else .wakeAt s.wakeAt
        | .flushing => if (Sink.flush s.sink).2.1.isSome then .flush else .settleAt time
        | _ => .settleAt time
    | none =>
      match s.replay.stage with
      | .asleep _ => .wakeAt s.wakeAt
      | .flushing => .flush
      | _ => .stop

/-- The sink tells what is due at a time. -/
def settleAt (s : Rehearsal σ ω) (time : Nat) : Rehearsal σ ω :=
  let (outcomes, sink) := Sink.runDue s.sink time
  { s with sink, time }.tellOutcomes outcomes

/-- The sink is flushed, if it can be. -/
def flush (s : Rehearsal σ ω) : Rehearsal σ ω :=
  let (outcomes, answer, sink) := Sink.flush s.sink
  let s := { s with sink }.tellOutcomes outcomes
  match answer, s.moment with
  | none, _ => s
  | some _, .error fault => { s with broken := some fault }
  | some result, .ok moment =>
    let (replay, effects) := s.replay.flushed moment result
    { s with replay }.tellNotices effects

/-- Makes a move. -/
def move (s : Rehearsal σ ω) : NextMove → Rehearsal σ ω
  | .produce =>
    match s.moment with
    | .error fault => { s with broken := some fault }
    | .ok moment =>
      let (replay, effects) := s.replay.step moment
      effects.foldl perform { s with replay }
  | .settle => s.settleAt s.time
  | .settleAt time => s.settleAt time
  | .wakeAt time => { s with time, replay := s.replay.wake }
  | .flush => s.flush
  | .stop => s

/-- Makes so many moves, or fewer if the replay ends before. -/
def runFor : Nat → Rehearsal σ ω → Rehearsal σ ω
  | 0, s => s
  | moves + 1, s =>
    match s.nextMove with
    | .stop => s
    | next => runFor moves (s.move next)

/-- The moves after which a rehearsal is given up. -/
def patience : Nat := 1000000000000

/-- Runs a replay to its end. -/
def run (s : Rehearsal σ ω) : Rehearsal σ ω := runFor patience s

end Rehearsal

end EventReplay
