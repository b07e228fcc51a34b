import EventReplay.Proofs.StreamRecords
import EventReplay.Proofs.WriterQueue
import EventReplay.Proofs.WrittenPaths

/-!
# A replay into files

A replay and a stream in files, with all threads that take part: the producer, the writers of the shards,
and those who tell outcomes. `FileReplay.act` lets one of them take a step, so that a list of such steps
is one of the ways in which the threads can take turns.

What each writer has been sent, and what the producer is still to send, are the records of the replay
and the request to flush behind them (`FileReplay.Delivers`).
-/

set_option autoImplicit false

namespace EventReplay

/-! ## Requests -/

/-- What the producer asks of a sink, one thing at a time. -/
inductive SinkRequest where
  | deliver (handle : Nat) (delivery : Delivery)
  /-- To send a request to flush to the writer of a shard. -/
  | flush (n : Nat)

/-- What an effect asks of a sink with so many shards. -/
def Effect.requests (shards : Nat) : Effect → List SinkRequest
  | .dispatch handle d => [.deliver handle d]
  | .broadcast first stream payload =>
    (EventReplay.broadcast stream shards payload).zipIdx.map fun (d, n) => .deliver (first + n) d
  | .flush => (List.range shards).map .flush
  | .notice _ | .sleep _ => []

/-- The command that a request amounts to for one shard of a stream. -/
def SinkRequest.command? (stream : String) (shards n : Nat) : SinkRequest → Option ShardCommand
  | deliver handle d =>
    if d.stream = stream ∧ d.target.number shards = n then some (.append handle d.payload) else none
  | flush m => if m = n then some (.flush 0) else none

/-- The commands that effects amount to for one shard of a stream. -/
def commandsOf (stream : String) (shards n : Nat) (effects : List Effect) : List ShardCommand :=
  (effects.flatMap (Effect.requests shards)).filterMap (SinkRequest.command? stream shards n)

/-! ## Threads -/

/-- A replay into a stream in files. -/
structure FileReplay (σ : Type) where
  replay : Replay σ
  sink : FileStream
  /-- What the producer is about to ask of the sink. -/
  requests : List SinkRequest := []
  /-- The answers to requests to flush, with the shards that they come from. -/
  answers : List (Nat × Except FileFault Unit) := []
  /-- The steps that the replay has taken. -/
  steps : List ReplayAction := []

/-- A step of one of the threads. -/
inductive FileReplayAction where
  /-- The producer asks the sink for what it has to ask, or else takes a step at a moment. -/
  | produce (moment : Moment)
  | wake
  /-- The writer of a shard takes a step. -/
  | write (n : Nat)
  /-- The one who tells the outcome of a handle takes a step. -/
  | continueTelling (handle : Nat)
  /-- The producer learns that all shards have been flushed. -/
  | finish (moment : Moment)

namespace FileReplay

variable {σ : Type} [EventSource σ]

/-- The replay takes a step. -/
def take (s : FileReplay σ) (action : ReplayAction) : FileReplay σ :=
  { s with
    replay := (s.replay.act action).1
    requests := s.requests ++ (s.replay.act action).2.flatMap (Effect.requests s.sink.shards.length)
    steps := s.steps ++ [action] }

/-- The sink is asked for something; what it refuses on sight it tells at once. -/
def ask (s : FileReplay σ) : SinkRequest → FileReplay σ
  | .deliver handle d =>
    let (told, sink) := s.sink.accept handle d
    match told with
    | none => { s with sink }
    | some outcome => { s with sink }.take (.tell handle outcome)
  | .flush n => { s with sink := s.sink.updateWriter n fun writer => (writer.send (.flush 0)).2 }

/-- A writer is heard. -/
def hear (s : FileReplay σ) (n : Nat) : Option ShardReply → FileReplay σ
  | none => s
  | some (.told handle outcome) => s.take (.tell handle outcome)
  | some (.flushed _ result) => { s with answers := s.answers ++ [(n, result)] }

/-- Whether every shard has answered. -/
def allAnswered (s : FileReplay σ) : Bool :=
  (List.range s.sink.shards.length).all fun n => (s.answers.lookup n).isSome

/-- The first fault of a shard, if there is one. -/
def flushResult (s : FileReplay σ) : Except DispatchFault Unit :=
  ((List.range s.sink.shards.length).findSome? fun n =>
    match s.answers.lookup n with
    | some (.error fault) => some (DispatchFault.io fault.message)
    | _ => none).elim (.ok ()) .error

/-- One of the threads takes a step. -/
def act (s : FileReplay σ) : FileReplayAction → FileReplay σ
  | .produce moment =>
    match s.requests with
    | [] => s.take (.produce moment)
    | request :: requests => { s with requests }.ask request
  | .wake => s.take .wake
  | .write n =>
    let (reply, sink) := s.sink.stepShard n
    { s with sink }.hear n reply
  | .continueTelling handle => s.take (.continueTelling handle)
  | .finish moment => if s.allAnswered then s.take (.flushed moment s.flushResult) else s

/-- The threads take steps. -/
def run (s : FileReplay σ) (actions : List FileReplayAction) : FileReplay σ := actions.foldl act s

/-- A replay of a source into a stream in files. -/
def ofSource (plan : ReplayPlan) (metrics : Option ReplayMetrics) (start : Moment) (source : σ)
    (sink : FileStream) : FileReplay σ :=
  { replay := (Replay.ofSource plan metrics (sink.shardCount plan.stream) start source).1, sink }

end FileReplay

/-! ## What a step of a replay asks of a shard -/

theorem filterMap_range {α : Type} (k n : Nat) (f : Nat → α) :
    (List.range k).filterMap (fun m => if m = n then some (f m) else none) =
      if n < k then [f n] else [] := by
  induction k with
  | zero => rfl
  | succ k ih =>
      rw [List.range_succ, List.filterMap_append, ih]
      rcases Nat.lt_trichotomy n k with h | rfl | h
      · simp [h, Nat.lt_succ_of_lt h, Nat.ne_of_gt h]
      · simp
      · simp [Nat.not_lt.mpr (Nat.le_of_lt h), Nat.ne_of_lt h, show ¬ n < k + 1 by omega]

theorem zipIdx_broadcast (stream : String) (shards : Nat) (payload : Bytes) :
    (broadcast stream shards payload).zipIdx =
      (List.range shards).map fun n => (⟨stream, .ofShard n, payload⟩, n) := by
  have hlength : (broadcast stream shards payload).zipIdx.length =
      ((List.range shards).map fun n => ((⟨stream, .ofShard n, payload⟩ : Delivery), n)).length := by
    simp [broadcast]
  apply List.ext_getElem hlength
  intro n h h'
  simp [broadcast]

section

variable (stream : String) (shards n : Nat)

theorem commandsOf_append (effects later : List Effect) :
    commandsOf stream shards n (effects ++ later) =
      commandsOf stream shards n effects ++ commandsOf stream shards n later := by
  simp [commandsOf]

theorem commandsOf_filter (effects : List Effect) :
    commandsOf stream shards n (effects.filter Effect.isForSink) =
      commandsOf stream shards n effects := by
  induction effects with
  | nil => rfl
  | cons effect effects ih =>
      have hcons := commandsOf_append stream shards n [effect] effects
      rw [List.singleton_append] at hcons
      rw [hcons, ← ih]
      cases effect with
      | notice => rfl
      | sleep => rfl
      | dispatch => exact commandsOf_append stream shards n [_] _
      | broadcast => exact commandsOf_append stream shards n [_] _
      | flush => exact commandsOf_append stream shards n [_] _

theorem commandsOf_dispatch (handle : Nat) (key : String) (payload : Bytes) :
    commandsOf stream shards n [.dispatch handle ⟨stream, .ofKey key, payload⟩] =
      if shardOf key shards = n then [.append handle payload] else [] := by
  by_cases h : shardOf key shards = n <;>
    simp [commandsOf, Effect.requests, SinkRequest.command?, Target.number, h]

variable {shards n}

theorem commandsOf_broadcast (hn : n < shards) (first : Nat) (payload : Bytes) :
    commandsOf stream shards n [.broadcast first stream payload] = [.append (first + n) payload] := by
  have hrange := filterMap_range shards n fun m => ShardCommand.append (first + m) payload
  rw [if_pos hn] at hrange
  simpa [commandsOf, Effect.requests, zipIdx_broadcast, SinkRequest.command?, Target.number,
    List.filterMap_map, Function.comp_def] using hrange

theorem commandsOf_flush (hn : n < shards) : commandsOf stream shards n [.flush] = [.flush 0] := by
  have hrange := filterMap_range shards n fun _ => ShardCommand.flush 0
  rw [if_pos hn] at hrange
  simpa [commandsOf, Effect.requests, SinkRequest.command?, List.filterMap_map, Function.comp_def]
    using hrange

end

theorem Replay.Stage.Registers.isFinal {stage stage' : Stage} (h : Replay.Stage.Registers stage stage')
    (hfinal : stage.isFinal = true) : stage'.isFinal = true := by
  cases h with
  | none => exact hfinal
  | one => simp [Stage.isFinal] at hfinal

namespace Replay

variable {σ : Type} [EventSource σ] {r : Replay σ} {ds : List Dispatch} {shards n : Nat}

/-- A step sends its records for the shard, and the request to flush if it asks for it. -/
theorem Balanced.commandsOf_act (hb : Balanced r ds) (hn : n < shards) (action : ReplayAction) :
    ∃ records : List (Nat × Bytes), commandsOf r.plan.stream shards n (r.act action).2 =
        appends records ++ (if r.asksFlush action then [.flush 0] else []) ∧
      records.map Prod.snd = ((r.sends action).filter (StreamRecord.isFor shards n)).map
        StreamRecord.bytes := by
  rw [← commandsOf_filter, hb.forSink_act, commandsOf_append, commandsOf_append]
  have hflush : commandsOf r.plan.stream shards n (if r.asksFlush action then [Effect.flush] else []) =
      if r.asksFlush action then [.flush 0] else [] := by
    split
    · exact commandsOf_flush _ hn
    · rfl
  have hevent : ∃ records : List (Nat × Bytes), commandsOf r.plan.stream shards n
        ((r.hands action).toList.map fun d => Effect.dispatch d.handle (r.delivery d)) =
          appends records ∧
      records.map Prod.snd = (((r.hands action).toList.map StreamRecord.event).filter
        (StreamRecord.isFor shards n)).map StreamRecord.bytes := by
    cases r.hands action with
    | none => exact ⟨[], rfl, rfl⟩
    | some d =>
        have hcommands := commandsOf_dispatch r.plan.stream shards n d.handle d.event.key
          (encodeEvent d.outbound d.event)
        by_cases hkey : shardOf d.event.key shards = n
        · rw [if_pos hkey] at hcommands
          exact ⟨[(d.handle, encodeEvent d.outbound d.event)], hcommands,
            by simp [StreamRecord.isFor, StreamRecord.bytes, hkey]⟩
        · rw [if_neg hkey] at hcommands
          exact ⟨[], hcommands, by simp [StreamRecord.isFor, hkey]⟩
  have hmarker : ∃ records : List (Nat × Bytes), commandsOf r.plan.stream shards n
        ((r.emits action).toList.map fun w =>
          Effect.broadcast r.nextHandle r.plan.stream (encodeWatermark w)) = appends records ∧
      records.map Prod.snd = (((r.emits action).toList.map StreamRecord.marker).filter
        (StreamRecord.isFor shards n)).map StreamRecord.bytes := by
    cases r.emits action with
    | none => exact ⟨[], rfl, rfl⟩
    | some w =>
        exact ⟨[(r.nextHandle + n, encodeWatermark w)], commandsOf_broadcast _ hn _ _, rfl⟩
  obtain ⟨events, hevents, hbytes⟩ := hevent
  obtain ⟨markers, hmarkers, hbytes'⟩ := hmarker
  refine ⟨events ++ markers, ?_, ?_⟩
  · rw [hevents, hmarkers, hflush]
    simp [appends]
  · simp only [sends, List.map_append, List.filter_append, hbytes, hbytes']

theorem Transition.isFinal {r' : Replay σ} {action : ReplayAction} {effects : List Effect}
    (ht : Transition r action r' effects) (h : r.stage.isFinal = true ∨ r.asksFlush action = true) :
    r'.stage.isFinal = true := by
  have hstays (hsilent : Silent r action) : r.stage.isFinal = true :=
    h.resolve_right (by simp [hsilent.asksFlush])
  cases ht with
  | rest hsilent heq => exact heq ▸ hstays hsilent
  | turn hsilent hturn => exact hturn.registers.isFinal (hstays hsilent)
  | move gate tally lag statistics metrics nextTicket stage hsilent hgoes heq =>
      exact heq ▸ hgoes.isFinal (hstays hsilent)
  | close moment tracker marked hproduce hstage hemission hmarked heq => exact heq ▸ rfl
  | finish moment metrics hsilent hflushed hstage heq => exact heq ▸ rfl
  -- the other stages are not final, and ask for no flush
  | _ => simp_all [Stage.isFinal, asksFlush]

/-- What a replay has asked of a shard: to write its records, and behind them, at the end, to flush. -/
theorem Balanced.commandsOf_follow (hb : Balanced r ds) (hstart : r.stage.isLast = false)
    (hended : ∀ report, r.stage ≠ .ended (.ok report)) (hn : n < shards)
    (actions : List ReplayAction) :
    ∃ (records : List (Nat × Bytes)) (asked : Bool),
      commandsOf r.plan.stream shards n (r.follow actions).2 =
        appends records ++ (if asked then [.flush 0] else []) ∧
      records.map Prod.snd = ((r.records actions).filter (StreamRecord.isFor shards n)).map
        StreamRecord.bytes ∧
      (asked = true → (r.follow actions).1.stage.isFinal = true) ∧
      ((r.follow actions).1.stage = .flushing ∨
        (∃ report, (r.follow actions).1.stage = .ended (.ok report)) → asked = true) := by
  induction actions using List.reverseRecOn with
  | nil =>
      refine ⟨[], false, rfl, rfl, (by simp), ?_⟩
      rintro (h | ⟨report, h⟩)
      · rw [show r.stage = .flushing from h] at hstart
        exact absurd hstart (by decide)
      · exact absurd h (hended report)
  | append_singleton actions action ih =>
      obtain ⟨records, asked, hcommands, hrecords, hfinal, hasked⟩ := ih
      have hbalanced := hb.follow actions
      obtain ⟨new, hnew, hnewRecords⟩ := hbalanced.commandsOf_act hn action
      rw [(hb.fixed_follow actions).plan] at hnew
      have hall : commandsOf r.plan.stream shards n (r.follow (actions ++ [action])).2 =
          commandsOf r.plan.stream shards n (r.follow actions).2 ++
            commandsOf r.plan.stream shards n ((r.follow actions).1.act action).2 := by
        have heffects : (r.follow (actions ++ [action])).2 =
            (r.follow actions).2 ++ ((r.follow actions).1.act action).2 := by
          rw [(r.follow_append actions [action]).2]
          simp [Replay.follow]
        rw [heffects, commandsOf_append]
      rw [records_concat, follow_concat, hall, hcommands, hnew, List.filter_append, List.map_append,
        ← hrecords, ← hnewRecords]
      cases asked with
      -- nothing is sent behind the request to flush
      | true =>
          have hsilent := silent_of_isFinal (hfinal rfl) action
          have hfinal' := (hbalanced.transition action).isFinal (.inl (hfinal rfl))
          rw [hsilent.sends] at hnewRecords
          obtain rfl : new = [] := by simpa using hnewRecords
          exact ⟨records, true, by simp [appends, hsilent.asksFlush], by simp, fun _ => hfinal',
            fun _ => rfl⟩
      | false =>
          refine ⟨records ++ new, (r.follow actions).1.asksFlush action, by simp [appends], by simp,
            fun hflush => (hbalanced.transition action).isFinal (.inr hflush), ?_⟩
          · intro hlast
            cases hbalanced.entry action with
            | stay hstage =>
                rw [hstage] at hlast
                exact absurd (hasked hlast) (by decide)
            | goOn hisLast hnot =>
                rcases hlast with hlast | ⟨report, hlast⟩
                · rw [hlast] at hisLast
                  exact absurd hisLast (by decide)
                · exact absurd hlast (hnot report)
            | closing ticket hstage hready hstage' => simp [hstage'] at hlast
            | flushing moment hstage hproduce => simp only [asksFlush, hproduce, hstage]
            | ended moment hstage => exact absurd (hasked (.inl hstage)) (by decide)

end Replay

namespace FileReplay

open Replay

variable {σ : Type} [EventSource σ] {s : FileReplay σ} {start : Replay σ} {ds : List Dispatch}
  {aggregate : Bool} {shards : Nat}

/-! ## What the writers have been sent -/

/-- The commands that a request list amounts to for one shard of the stream of a replay. -/
def commands (start : Replay σ) (shards n : Nat) (requests : List SinkRequest) : List ShardCommand :=
  requests.filterMap (SinkRequest.command? start.plan.stream shards n)

/-- What the writer of a shard has been sent, with what the producer is still to send it, is what the
replay has asked of the shard; and an answer says that the writer has come to the flush. -/
def Delivered (s : FileReplay σ) (start : Replay σ) (shards n : Nat) (writer : ShardWriter) : Prop :=
  ∃ sent done batches, writer.Wrote sent done batches ∧
    sent ++ commands start shards n s.requests =
      commandsOf start.plan.stream shards n (start.follow s.steps).2 ∧
    ((∃ result, (n, result) ∈ s.answers) → done.filterMap ShardCommand.ticket? ≠ [])

/-- What is so however the threads take turns. -/
structure Delivers (s : FileReplay σ) (start : Replay σ) (aggregate : Bool) (shards : Nat) : Prop where
  replay : s.replay = (start.follow s.steps).1
  size : s.sink.shards.length = shards
  stream : s.sink.stream = start.plan.stream
  delivered : ∀ n shard, s.sink.shards[n]? = some shard →
    shard.writer.aggregate = aggregate ∧ Delivered s start shards n shard.writer
  finished : ∀ report, s.replay.stage = .ended (.ok report) →
    ∀ n < shards, ∃ result, (n, result) ∈ s.answers

/-- The replay takes a step; it ends well only when every shard has answered. -/
theorem Delivers.take (h : Delivers s start aggregate shards) (hb : Balanced start ds)
    (action : ReplayAction)
    (hflushed : ∀ moment result, action = .flushed moment result →
      ∀ n < shards, ∃ result, (n, result) ∈ s.answers) :
    Delivers (s.take action) start aggregate shards := by
  have heffects : (start.follow (s.steps ++ [action])).2 =
      (start.follow s.steps).2 ++ (s.replay.act action).2 := by
    rw [(start.follow_append s.steps [action]).2, h.replay]
    simp [Replay.follow]
  refine ⟨?_, h.size, h.stream, ?_, ?_⟩
  · show (s.replay.act action).1 = (start.follow (s.steps ++ [action])).1
    rw [follow_concat, h.replay]
  -- what the step asks of the shard goes to the end of what is still to be sent
  · intro n shard hshard
    obtain ⟨haggregate, sent, done, batches, hwrote, hsent, hanswers⟩ := h.delivered n shard hshard
    refine ⟨haggregate, sent, done, batches, hwrote, ?_, hanswers⟩
    show sent ++ commands start shards n (s.requests ++ _) =
      commandsOf _ _ _ (start.follow (s.steps ++ [action])).2
    rw [heffects, commandsOf_append, ← hsent, h.size]
    simp [commands, commandsOf]
  · intro report hended
    have hbalanced := hb.follow s.steps
    rw [← h.replay] at hbalanced
    have hended : (s.replay.act action).1.stage = .ended (.ok report) := hended
    cases hbalanced.entry action with
    | stay hstage => exact h.finished report (hstage.symm.trans hended)
    | goOn _ hnot => exact absurd hended (hnot report)
    | closing _ _ _ hstage' => simp [hstage'] at hended
    | flushing _ _ _ hstage' => simp [hstage'] at hended
    | ended moment _ haction => exact hflushed moment (.ok ()) haction

/-- One writer goes on, and the producer and the others stay where they are. -/
theorem Delivers.update (h : Delivers s start aggregate shards) {n : Nat} {shard : FileShard}
    (hshard : s.sink.shards[n]? = some shard) {writer : ShardWriter} {requests : List SinkRequest}
    {answers : List (Nat × Except FileFault Unit)}
    (haggregate : writer.aggregate = shard.writer.aggregate)
    (hown : Delivered { s with requests, answers } start shards n writer)
    (hrequests : ∀ m, m ≠ n → commands start shards m requests = commands start shards m s.requests)
    (hanswers : ∀ m, m ≠ n → ∀ result, (m, result) ∈ answers → (m, result) ∈ s.answers)
    (hkept : ∀ answer ∈ s.answers, answer ∈ answers) :
    Delivers { s with sink := s.sink.updateWriter n fun _ => writer, requests, answers } start aggregate
      shards := by
  refine ⟨h.replay, ?_, h.stream, ?_, ?_⟩
  · simpa [FileStream.updateWriter] using h.size
  -- the shard of this writer, and the others
  · intro m shard' hshard'
    have hmodify : (s.sink.shards.modify n fun shard => { shard with writer := writer })[m]? =
        some shard' := hshard'
    by_cases hm : m = n
    · subst hm
      rw [List.getElem?_modify_eq, hshard] at hmodify
      obtain rfl := Option.some.inj hmodify
      exact ⟨haggregate.trans (h.delivered m shard hshard).1, hown⟩
    · rw [List.getElem?_modify_ne _ _ (Ne.symm hm)] at hmodify
      obtain ⟨haggregate', sent, done, batches, hwrote, hsent, hanswered⟩ :=
        h.delivered m shard' hmodify
      refine ⟨haggregate', sent, done, batches, hwrote, ?_, ?_⟩
      · show sent ++ commands start shards m requests = _
        rw [hrequests m hm]
        exact hsent
      · rintro ⟨result, hresult⟩
        exact hanswered ⟨result, hanswers m hm result hresult⟩
  · intro report hended m hm
    obtain ⟨result, hresult⟩ := h.finished report hended m hm
    exact ⟨result, hkept _ hresult⟩

/-- A command for a shard goes into the queue of its writer. -/
theorem Delivers.send (h : Delivers s start aggregate shards) {n : Nat} {shard : FileShard}
    {request : SinkRequest} {requests : List SinkRequest} (hrequests : s.requests = request :: requests)
    (hshard : s.sink.shards[n]? = some shard) {command : ShardCommand}
    (hcommand : ∀ m,
      request.command? start.plan.stream shards m = if n = m then some command else none) :
    (shard.writer.send command).1 = none ∧
    Delivers { s with
      sink := s.sink.updateWriter n fun _ => (shard.writer.send command).2, requests } start aggregate
        shards := by
  obtain ⟨-, sent, done, batches, hwrote, hsent, hanswers⟩ := h.delivered n shard hshard
  obtain ⟨htold, hwrote'⟩ := hwrote.send command
  have haggregate : (shard.writer.send command).2.aggregate = shard.writer.aggregate := by
    unfold ShardWriter.send
    split <;> rfl
  refine ⟨htold, h.update hshard haggregate ⟨_, _, _, hwrote', ?_, hanswers⟩ ?_ (fun _ _ _ h => h)
    fun _ h => h⟩
  · rw [hrequests, commands, List.filterMap_cons, hcommand n, if_pos rfl] at hsent
    rw [← hsent, List.append_assoc]
    rfl
  · intro m hm
    rw [hrequests, commands, commands, List.filterMap_cons, hcommand m, if_neg (Ne.symm hm)]

/-- A request that is for no shard is passed over. -/
theorem Delivers.skip (h : Delivers s start aggregate shards) {request : SinkRequest}
    {requests : List SinkRequest} (hrequests : s.requests = request :: requests)
    (hcommand : ∀ m < shards, request.command? start.plan.stream shards m = none) :
    Delivers { s with requests } start aggregate shards := by
  refine ⟨h.replay, h.size, h.stream, ?_, h.finished⟩
  intro n shard hshard
  have hn : n < shards := h.size ▸ (List.getElem?_eq_some_iff.mp hshard).1
  obtain ⟨haggregate, sent, done, batches, hwrote, hsent, hanswers⟩ := h.delivered n shard hshard
  refine ⟨haggregate, sent, done, batches, hwrote, ?_, hanswers⟩
  rw [hrequests, commands, List.filterMap_cons, hcommand n hn] at hsent
  exact hsent

omit [EventSource σ] in
theorem updateWriter_eq {sink : FileStream} {n : Nat} {shard : FileShard}
    (hshard : sink.shards[n]? = some shard) (f : ShardWriter → ShardWriter) :
    sink.updateWriter n f = sink.updateWriter n fun _ => f shard.writer := by
  have hshards : (sink.shards.modify n fun shard => { shard with writer := f shard.writer }) =
      sink.shards.modify n fun shard' => { shard' with writer := f shard.writer } := by
    apply List.ext_getElem?
    intro m
    by_cases hm : n = m
    · subst hm
      simp [hshard]
    · rw [List.getElem?_modify_ne _ _ hm, List.getElem?_modify_ne _ _ hm]
  simp only [FileStream.updateWriter, hshards]

theorem Delivers.ne_of_beyond (h : Delivers s start aggregate shards) {n m : Nat}
    (hnone : s.sink.shards[n]? = none) (hm : m < shards) : n ≠ m := by
  have hlength := List.getElem?_eq_none_iff.mp hnone
  rw [h.size] at hlength
  omega

theorem Delivers.ask_flush (h : Delivers s start aggregate shards) {n : Nat}
    {requests : List SinkRequest} (hrequests : s.requests = .flush n :: requests) :
    Delivers ({ s with requests }.ask (.flush n)) start aggregate shards := by
  cases hshard : s.sink.shards[n]? with
  -- there is no such shard
  | none =>
      have hskip := h.skip hrequests fun m hm => by
        simp [SinkRequest.command?, h.ne_of_beyond hshard hm]
      have hsame : s.sink.updateWriter n (fun writer => (writer.send (.flush 0)).2) = s.sink := by
        simp [FileStream.updateWriter, List.modify_eq_self, List.getElem?_eq_none_iff.mp hshard]
      simpa only [FileReplay.ask, hsame] using hskip
  | some shard =>
      have hcommand : ∀ m, (SinkRequest.flush n).command? start.plan.stream shards m =
          if n = m then some (.flush 0) else none := fun m => rfl
      have hsend := (h.send hrequests hshard hcommand).2
      simpa only [FileReplay.ask, updateWriter_eq hshard] using hsend

/-- What the sink refuses, for its stream or its shard, no writer is sent. -/
theorem Delivers.ask_deliver (h : Delivers s start aggregate shards) (hb : Balanced start ds)
    {handle : Nat} {d : Delivery} {requests : List SinkRequest}
    (hrequests : s.requests = .deliver handle d :: requests) :
    Delivers ({ s with requests }.ask (.deliver handle d)) start aggregate shards := by
  by_cases hstream : d.stream = s.sink.stream
  · cases hshard : s.sink.shards[d.target.number s.sink.shards.length]? with
    | none =>
        have haccept : s.sink.accept handle d = (some (.failed (.unknownShard d.stream
            (d.target.number s.sink.shards.length))), s.sink) := by
          simp only [FileStream.accept, hstream, ne_eq, not_true_eq_false, if_false, hshard]
        have hskip := h.skip hrequests fun m hm => by
          have hne := h.ne_of_beyond hshard hm
          rw [h.size] at hne
          simp [SinkRequest.command?, hne]
        simp only [FileReplay.ask, haccept]
        exact hskip.take hb _ (by simp)
    | some shard =>
        have hcommand : ∀ m, (SinkRequest.deliver handle d).command? start.plan.stream shards m =
            if d.target.number s.sink.shards.length = m then some (.append handle d.payload)
            else none := by
          intro m
          simp [SinkRequest.command?, hstream, h.stream, h.size]
        obtain ⟨htold, hsend⟩ := h.send hrequests hshard hcommand
        have haccept : s.sink.accept handle d = (none, s.sink.updateWriter
            (d.target.number s.sink.shards.length)
            fun _ => (shard.writer.send (.append handle d.payload)).2) := by
          simp only [FileStream.accept, hstream, ne_eq, not_true_eq_false, if_false, hshard, htold]
        simp only [FileReplay.ask, haccept]
        exact hsend
  · have haccept : s.sink.accept handle d = (some (.failed (.unknownStream d.stream)), s.sink) := by
      simp only [FileStream.accept, ne_eq, hstream, not_false_eq_true, if_true]
    have hskip := h.skip hrequests fun m hm => by
      simp [SinkRequest.command?, ← h.stream, hstream]
    simp only [FileReplay.ask, haccept]
    exact hskip.take hb _ (by simp)

theorem Delivers.ask (h : Delivers s start aggregate shards) (hb : Balanced start ds)
    {request : SinkRequest} {requests : List SinkRequest}
    (hrequests : s.requests = request :: requests) :
    Delivers ({ s with requests }.ask request) start aggregate shards := by
  cases request with
  | flush n => exact h.ask_flush hrequests
  | deliver handle d => exact h.ask_deliver hb hrequests

theorem Delivers.write (h : Delivers s start aggregate shards) (hb : Balanced start ds) (n : Nat) :
    Delivers (s.act (.write n)) start aggregate shards := by
  cases hshard : s.sink.shards[n]? with
  | none => simpa only [FileReplay.act, FileStream.stepShard, hshard, hear] using h
  | some shard =>
      obtain ⟨-, sent, done, batches, hwrote, hsent, hanswers⟩ := h.delivered n shard hshard
      obtain ⟨done', batches', hwrote', htickets, haggregate⟩ := hwrote.step
      simp only [FileReplay.act, FileStream.stepShard, hshard]
      have hdone : done.filterMap ShardCommand.ticket? ≠ [] →
          (done ++ done').filterMap ShardCommand.ticket? ≠ [] := by
        intro hne hnil
        rw [List.filterMap_append] at hnil
        exact hne (List.append_eq_nil_iff.mp hnil).1
      -- the writer has gone on, and nobody has heard of it yet
      have hquiet : Delivers { s with sink := s.sink.updateWriter n fun _ => shard.writer.step.2 } start
          aggregate shards :=
        h.update hshard haggregate ⟨sent, _, _, hwrote', hsent, fun hanswer => hdone (hanswers hanswer)⟩
          (fun _ _ => rfl) (fun _ _ _ h => h) fun _ h => h
      cases hreply : shard.writer.step.1 with
      | none => exact hquiet
      | some reply =>
          cases reply with
          | told handle outcome => exact hquiet.take hb _ (by simp)
          | flushed ticket result =>
              rw [hreply] at htickets
              refine h.update hshard haggregate ⟨sent, _, _, hwrote', hsent, fun _ => ?_⟩
                (fun _ _ => rfl) ?_ fun _ => List.mem_append_left _
              · rw [List.filterMap_append, htickets]
                simp [ShardReply.ticket?]
              · intro m hm result' hmem
                rcases List.mem_append.mp hmem with hmem | hmem
                · exact hmem
                · simp [hm] at hmem

theorem Delivers.act (h : Delivers s start aggregate shards) (hb : Balanced start ds)
    (action : FileReplayAction) : Delivers (s.act action) start aggregate shards := by
  cases action with
  | produce moment =>
      cases hrequests : s.requests with
      | nil => simpa only [FileReplay.act, hrequests] using h.take hb (.produce moment) (by simp)
      | cons request requests => simpa only [FileReplay.act, hrequests] using h.ask hb hrequests
  | wake => exact h.take hb .wake (by simp)
  | write n => exact h.write hb n
  | continueTelling handle => exact h.take hb (.continueTelling handle) (by simp)
  | finish moment =>
      simp only [FileReplay.act]
      split
      -- the producer learns of the flush only when all have answered
      · rename_i hall
        apply h.take hb
        intro _ _ _ n hn
        rw [allAnswered, List.all_eq_true] at hall
        have hanswered := hall n (List.mem_range.mpr (h.size ▸ hn))
        obtain ⟨result, hresult⟩ := Option.isSome_iff_exists.mp hanswered
        obtain ⟨before, after, hanswers, -⟩ := List.lookup_eq_some_iff.mp hresult
        exact ⟨result, by rw [hanswers]; simp⟩
      · exact h

theorem Delivers.run (h : Delivers s start aggregate shards) (hb : Balanced start ds)
    (actions : List FileReplayAction) : Delivers (s.run actions) start aggregate shards := by
  induction actions generalizing s with
  | nil => exact h
  | cons action actions ih => exact ih (h.act hb action)

/-- When the replay has ended with a report, the writer of a shard has written what it has been sent. -/
theorem Delivers.written (h : Delivers s start aggregate shards) (hb : Balanced start ds)
    (hisLast : start.stage.isLast = false) (hstage : ∀ report, start.stage ≠ .ended (.ok report))
    {report : ReplayReport} (hfinal : (start.follow s.steps).1.stage = .ended (.ok report)) {n : Nat}
    {shard : FileShard} (hshard : s.sink.shards[n]? = some shard) :
    ∃ batches : List (List Bytes), batches.flatten =
        ((start.records s.steps).filter (StreamRecord.isFor shards n)).map StreamRecord.bytes ∧
      (∀ batch ∈ batches, batch ≠ []) ∧
      ((∀ payload ∈ batches.flatten, Bytes.lineFeed ∉ payload) →
        Bytes.lines shard.writer.file.content = ShardWriter.fileLines aggregate batches) := by
  have hn : n < shards := h.size ▸ (List.getElem?_eq_some_iff.mp hshard).1
  obtain ⟨haggregate, sent, done, batches, hwrote, hsent, hanswers⟩ := h.delivered n shard hshard
  -- the last thing that it has been sent is the request to flush, and it has answered that
  obtain ⟨records, asked, hcommands, hbytes, -, hasked⟩ := hb.commandsOf_follow hisLast hstage hn s.steps
  rw [hcommands, hasked (.inr ⟨report, hfinal⟩), if_pos rfl] at hsent
  have hflushed := hanswers (h.finished report (by rw [h.replay, hfinal]) n hn)
  refine ⟨batches, ?_, hwrote.nonempty, ?_⟩
  · rw [← hbytes]
    exact hwrote.of_flushed hsent hflushed
  · rw [← haggregate]
    exact hwrote.lines

/-! ## The start -/

omit [EventSource σ] in
theorem openShards_ok {options : StreamOptions} {directory : String} {files files' : FileTree}
    {ns : List Nat} {shards : List FileShard}
    (h : FileStream.openShards options directory files ns = (.ok shards, files')) :
    shards.length = ns.length ∧ ∀ shard ∈ shards, ∃ content, shard.writer =
      { file := { content }, aggregate := options.aggregate, maxBatch := options.maxAggregate } := by
  induction ns generalizing files files' shards with
  | nil =>
      obtain ⟨rfl, -⟩ : [] = shards ∧ files = files' := by simpa [FileStream.openShards] using h
      exact ⟨rfl, (by simp)⟩
  | cons n ns ih =>
      simp only [FileStream.openShards] at h
      split at h
      · simp at h
      · split at h
        · simp at h
        · rename_i place files₁ hopen rest files₂ hrest
          obtain ⟨hlength, hwriters⟩ := ih hrest
          obtain ⟨rfl, -⟩ : _ = shards ∧ files₂ = files' := by simpa using h
          refine ⟨by simp [hlength], fun shard hshard => ?_⟩
          rcases List.mem_cons.mp hshard with rfl | hshard
          · exact ⟨_, rfl⟩
          · exact hwriters shard hshard

omit [EventSource σ] in
theorem ofRoot_ok {options : StreamOptions} {root stream : String} {files : FileTree}
    {sink : FileStream} (h : (FileStream.ofRoot options root stream files).1 = .ok sink) :
    sink.stream = stream ∧ sink.shards.length = options.shards ∧
    ∀ shard ∈ sink.shards, ∃ content, shard.writer =
      { file := { content }, aggregate := options.aggregate, maxBatch := options.maxAggregate } := by
  unfold FileStream.ofRoot at h
  split at h
  · simp at h
  · split at h
    · simp at h
    · dsimp only at h
      split at h
      · simp at h
      · split at h
        · simp at h
        · rename_i shards files' hopen
          obtain ⟨hlength, hwriters⟩ := openShards_ok hopen
          obtain rfl := Except.ok.inj h
          exact ⟨rfl, by simpa using hlength, hwriters⟩

/-- A replay into files that hold nothing yet. -/
theorem delivers_ofSource {options : StreamOptions} {root : String} {files : FileTree}
    {sink : FileStream} {plan : ReplayPlan}
    (hsink : (FileStream.ofRoot options root plan.stream files).1 = .ok sink)
    (hempty : ∀ shard ∈ sink.shards, shard.writer.file.content = [])
    (metrics : Option ReplayMetrics) (moment : Moment) (source : σ)
    (hstage : ∀ report,
      (Replay.ofSource plan metrics options.shards moment source).1.stage ≠ .ended (.ok report)) :
    Delivers (ofSource plan metrics moment source sink)
      (Replay.ofSource plan metrics options.shards moment source).1 options.aggregate
      options.shards := by
  obtain ⟨hstream, hlength, hwriters⟩ := ofRoot_ok hsink
  have hcount : sink.shardCount plan.stream = options.shards := by
    simp [FileStream.shardCount, hstream, hlength]
  have hplan := (starts_ofSource plan metrics options.shards moment source).plan
  refine ⟨?_, hlength, by rw [hplan]; exact hstream, ?_, ?_⟩
  · simp only [ofSource, hcount]
    rfl
  · intro n shard hshard
    have hmem : shard ∈ sink.shards := List.mem_of_getElem? hshard
    obtain ⟨content, hwriter⟩ := hwriters shard hmem
    have hcontent := hempty shard hmem
    rw [hwriter] at hcontent ⊢
    obtain rfl : content = [] := hcontent
    refine ⟨rfl, [], [], [], ⟨rfl, rfl, (by simp), rfl, ⟨rfl, rfl⟩, rfl, (by simp), (by simp), rfl⟩,
      rfl, ?_⟩
    rintro ⟨result, hresult⟩
    simp [ofSource] at hresult
  · intro report hended
    simp only [ofSource, hcount] at hended
    exact absurd hended (hstage report)

/-- A replay that waits for the flush, and whose shards have all answered, ends with a report. -/
theorem result?_finish (s : FileReplay σ) (actions : List FileReplayAction)
    (hstage : (s.run actions).replay.stage = .flushing)
    (hanswered : (s.run actions).allAnswered = true)
    (hdone : (s.run actions).flushResult.isOk = true) (moment : Moment) :
    (s.run (actions ++ [.finish moment])).replay.result? =
      some (.ok ((s.run actions).replay.report moment.elapsed)) := by
  have hconcat : s.run (actions ++ [.finish moment]) = (s.run actions).act (.finish moment) := by
    simp [run]
  have hresult : (s.run actions).flushResult = .ok () := by
    cases h : (s.run actions).flushResult with
    | ok => rfl
    | error => simp [h, Except.isOk, Except.toBool] at hdone
  rw [hconcat, act, if_pos hanswered, hresult]
  exact (Replay.result?_flushed hstage moment).2

end FileReplay

/-- A shard whose file holds nothing, in a directory at the top. -/
def freshShard (directory name : String) : FileShard :=
  { path := "/" ++ directory ++ "/" ++ name
    place := [directory, name]
    writer := { file := { content := [] }, aggregate := false, maxBatch := 100 } }

theorem ofRoot_two_shards : (FileStream.ofRoot { shards := 2 } "/" "out" {}).1 =
    .ok ⟨"out", "/out", [freshShard "out" "shard-0000.log", freshShard "out" "shard-0001.log"]⟩ := by
  have hdirectory : Path.join "/" "out" = "/out" := by decide +kernel
  have hfirst : Path.join "/out" (FileStream.shardName 0) = "/out/shard-0000.log" := by
    decide +kernel
  have hsecond : Path.join "/out" (FileStream.shardName 1) = "/out/shard-0001.log" := by
    decide +kernel
  have hparts : Path.parts "/out" = ["out"] := by
    rw [Path.parts_eq]
    decide +kernel
  have hpartsFirst : Path.parts "/out/shard-0000.log" = ["out", "shard-0000.log"] := by
    rw [Path.parts_eq]
    decide +kernel
  have hpartsSecond : Path.parts "/out/shard-0001.log" = ["out", "shard-0001.log"] := by
    rw [Path.parts_eq]
    decide +kernel
  have horigin : ∀ path ∈ ["/out", "/out/shard-0000.log", "/out/shard-0001.log"],
      path.startsWith "/" = true ∧ Path.namesDirectory path = false := by decide +kernel
  simp [FileStream.ofRoot, FileTree.makeDirectories, FileStream.openShards, FileTree.openAppend,
    FileTree.resolve, FileTree.origin, FileTree.makeBelow, FileTree.kind?, FileTree.file?,
    FileTree.addDirectory, FileTree.walk, FileTree.write, List.range, List.range.loop, hdirectory,
    hfirst, hsecond, hparts, hpartsFirst, hpartsSecond, horigin, freshShard]

end EventReplay
