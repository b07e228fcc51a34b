import EventReplay.Sink.FileStream

/-!
# Calls on a stream in files

Those who use a stream in files hand it records, hand it a record for every shard, or ask it to flush,
and in the end let it go. Each call comes to requests to single writers, one after another, and any
number of calls are under way at once: between two requests of a call, others go on and the writers
take steps (`StreamSession.act`). A list of such steps is a schedule, and any schedule can happen.
-/

set_option autoImplicit false

namespace EventReplay

/-- What a stream is called for. -/
inductive StreamCall where
  | dispatch (d : Delivery)
  /-- One record for every shard. -/
  | broadcast (stream : String) (payload : Bytes)
  | flush
deriving DecidableEq, Repr

/-- One thing that is asked of one writer. -/
inductive StreamRequest where
  | deliver (d : Delivery)
  | flush (n ticket : Nat)
  /-- To end once its queue is empty. -/
  | close (n : Nat)
deriving DecidableEq, Repr

/-- The requests of a call, in order. -/
def StreamCall.requests (sink : FileStream) (ticket : Nat) : StreamCall → List StreamRequest
  | dispatch d => [.deliver d]
  | broadcast stream payload =>
    (EventReplay.broadcast stream (sink.shardCount stream) payload).map .deliver
  | flush => (List.range sink.shards.length).map (.flush · ticket)

/-- What can be seen of a stream. -/
inductive StreamEvent where
  /-- A record is handed over, and gets a handle. -/
  | handed (handle : Nat) (d : Delivery)
  /-- A record is refused at once. -/
  | refused (handle : Nat) (outcome : Outcome)
  /-- A writer is asked to flush. -/
  | asked (n ticket : Nat)
  /-- A writer tells an outcome. -/
  | told (n handle : Nat) (outcome : Outcome)
  /-- A writer answers a request to flush. An answer without a fault says that the device keeps what it
  holds now for good. -/
  | answered (n ticket : Nat) (result : Except FileFault Unit) (content : Bytes)

/-- One step of a schedule. -/
inductive StreamAction where
  | call (c : StreamCall)
  /-- A call goes on by a request. -/
  | proceed (i : Nat)
  /-- A writer takes a step. -/
  | write (n : Nat)
  /-- A writer misses what has just been sent, and gathers no more. -/
  | cut (n : Nat)
  /-- The stream is let go, which waits for every writer to end. -/
  | drop
deriving DecidableEq, Repr

/-- A stream with the calls that are under way. -/
structure StreamSession where
  sink : FileStream
  /-- What the calls have still to ask for. -/
  calls : List (List StreamRequest) := []
  nextHandle : Nat := 0
  nextTicket : Nat := 0
  /-- Whether the stream has been let go. -/
  dropped : Bool := false

/-- What can be seen of a reply, when the device holds some content. -/
def StreamEvent.ofReply (n : Nat) (content : Bytes) : ShardReply → StreamEvent
  | .told handle outcome => .told n handle outcome
  | .flushed ticket result => .answered n ticket result content

namespace StreamEvent

/-- Whether a writer is asked to flush under a ticket. -/
def asks (n ticket : Nat) : StreamEvent → Bool
  | asked m other => m = n && other = ticket
  | _ => false

/-- What a writer answers to a ticket. -/
def resultOf? (n ticket : Nat) : StreamEvent → Option (Except FileFault Unit)
  | answered m other result _ => if m = n ∧ other = ticket then some result else none
  | _ => none

end StreamEvent

namespace StreamSession

/-- What comes of waiting for the answers of some writers to a ticket, one after another: the first fault,
if there is one. Nothing yet as long as the next answer has not come. -/
def awaitAnswers (events : List StreamEvent) (ticket : Nat) :
    List Nat → Option (Except DispatchFault Unit)
  | [] => some (.ok ())
  | n :: writers =>
    match events.findSome? (StreamEvent.resultOf? n ticket) with
    | none => none
    | some (.error fault) => some (.error (.io fault.message))
    | some (.ok ()) => awaitAnswers events ticket writers

/-- What a call to flush returns by the time that these events have been seen. It asks all writers before it
waits for the first answer. -/
def flushReturn (events : List StreamEvent) (ticket shards : Nat) : Option (Except DispatchFault Unit) :=
  if (List.range shards).all fun n => events.any (StreamEvent.asks n ticket) then
    awaitAnswers events ticket (List.range shards)
  else none

/-- Makes a request. -/
def perform (s : StreamSession) : StreamRequest → StreamSession × List StreamEvent
  | .deliver d =>
    let (refusal, sink) := s.sink.accept s.nextHandle d
    ({ s with sink, nextHandle := s.nextHandle + 1 },
      .handed s.nextHandle d :: (refusal.map (.refused s.nextHandle)).toList)
  | .flush n ticket =>
    ({ s with sink := s.sink.updateWriter n fun writer => (writer.send (.flush ticket)).2 },
      [.asked n ticket])
  | .close n => ({ s with sink := s.sink.updateWriter n ShardWriter.close }, [])

/-- The writer of a shard takes a step. -/
def writeStep (s : StreamSession) (n : Nat) : StreamSession × List StreamEvent :=
  match s.sink.shards[n]? with
  | none => (s, [])
  | some shard =>
    let (reply, writer) := shard.writer.step
    ({ s with sink := s.sink.updateWriter n fun _ => writer },
      (reply.map (.ofReply n writer.file.content)).toList)

/-- Takes one step of a schedule. A stream that has been let go is called no more. -/
def act (s : StreamSession) : StreamAction → StreamSession × List StreamEvent
  | .call c =>
    if s.dropped then (s, [])
    else
      ({ s with
          calls := s.calls ++ [c.requests s.sink s.nextTicket]
          nextTicket := s.nextTicket + 1 }, [])
  | .proceed i =>
    match s.calls[i]? with
    | some (request :: requests) => { s with calls := s.calls.set i requests }.perform request
    | _ => (s, [])
  | .write n => s.writeStep n
  | .cut n => ({ s with sink := s.sink.updateWriter n ShardWriter.stopGathering }, [])
  | .drop =>
    if s.dropped then (s, [])
    else
      ({ s with
          calls := [(List.range s.sink.shards.length).map .close]
          dropped := true }, [])

/-- Takes the steps of a schedule; gives all events in order. -/
def follow (s : StreamSession) : List StreamAction → StreamSession × List StreamEvent
  | [] => (s, [])
  | action :: actions =>
    let (s, events) := s.act action
    let (s, more) := follow s actions
    (s, events ++ more)

/-- Whether every writer waits or has ended. -/
def isIdle (s : StreamSession) : Bool := s.sink.shards.all fun shard => shard.writer.isWaiting

end StreamSession

end EventReplay
