import EventReplay.Proofs.OneOfMany
import EventReplay.Proofs.StreamProtocol

/-!
# What a flush of a stream returns

A flush asks every writer once and waits for all of their answers. The requests that a writer has got are
answered in their order or wait at it (`StreamSession.Answers`), so a flush has returned when all writers
wait, and it returns no fault just if every writer answers that its device keeps what it holds. All that was
handed over before is in the files then (`StreamSession.flushReturn_spec`).
-/

set_option autoImplicit false

namespace EventReplay

open ShardWriter

/-! ## Tickets that wait -/

namespace ShardWriter

/-- The tickets that wait for an answer of a writer, in order. -/
def tickets (writer : ShardWriter) : List Nat :=
  (writer.phase.ahead ++ writer.queue).filterMap ShardCommand.ticket?

variable {writer writer' : ShardWriter} {reply : Option ShardReply} {finished : List ShardCommand}
  {written : List (List (Nat × Bytes))}

/-- A move answers the first ticket that waits, or none. -/
theorem Move.tickets (h : Move writer reply finished written writer') :
    writer.tickets = (reply.bind ShardReply.ticket?).toList ++ writer'.tickets := by
  unfold ShardWriter.tickets
  cases h with
  | shift queue phase hahead => rw [hahead]; rfl
  | write batch ticket hbatch hphase =>
      simp [hphase, ShardPhase.ahead, filterMap_ticket?_appends]
  | tell outcome handle handles ticket hphase =>
      simp [hphase, ShardPhase.ahead, ShardReply.ticket?]
  | answer outcome ticket hphase =>
      simp [hphase, ShardPhase.ahead, ShardReply.ticket?, ShardCommand.ticket?]
  | finish hphase => simp [hphase, ShardPhase.ahead]

theorem tickets_send (hgoing : writer.phase ≠ .ended) (command : ShardCommand) :
    (writer.send command).2.tickets = writer.tickets ++ command.ticket?.toList := by
  rw [send_of_going hgoing, tickets, ← List.append_assoc, List.filterMap_append]
  cases command <;> rfl

/-- A writer that waits, or has ended, has no ticket left to answer. -/
theorem tickets_of_isWaiting (h : writer.isWaiting = true)
    (hended : writer.phase = .ended → writer.queue = []) : writer.tickets = [] := by
  unfold isWaiting at h
  split at h
  · rename_i hphase
    have hqueue : writer.queue = [] := by
      rw [Bool.and_eq_true, List.isEmpty_iff] at h
      exact h.1
    rw [tickets, hphase, hqueue]
    rfl
  · rename_i hphase
    rw [tickets, hphase, hended hphase]
    rfl
  · simp at h

end ShardWriter

/-! ## Requests and answers -/

namespace StreamSession

theorem answer?_eq_some {n ticket : Nat} {result : Except FileFault Unit} {content : Bytes}
    {event : StreamEvent} (h : event.answer? n = some (ticket, result, content)) :
    event = .answered n ticket result content := by
  cases event with
  | answered m other result' content' =>
      simp only [StreamEvent.answer?] at h
      split at h
      · next hm =>
        obtain ⟨rfl, rfl, rfl⟩ : other = ticket ∧ result' = result ∧ content' = content := by
          simpa using h
        rw [hm]
      · cases h
  | _ => cases h

/-- The tickets under which a writer has been asked to flush, in order. -/
def askedOf (n : Nat) (events : List StreamEvent) : List Nat :=
  events.filterMap fun
    | .asked m ticket => if m = n then some ticket else none
    | _ => none

/-- The tickets that a writer has answered, in order. -/
def answeredOf (n : Nat) (events : List StreamEvent) : List Nat :=
  (events.filterMap (StreamEvent.answer? n)).map Prod.fst

theorem askedOf_append (n : Nat) (events more : List StreamEvent) :
    askedOf n (events ++ more) = askedOf n events ++ askedOf n more := List.filterMap_append

theorem answeredOf_append (n : Nat) (events more : List StreamEvent) :
    answeredOf n (events ++ more) = answeredOf n events ++ answeredOf n more := by
  rw [answeredOf, List.filterMap_append, List.map_append]
  rfl

theorem mem_askedOf {n ticket : Nat} {events : List StreamEvent} :
    ticket ∈ askedOf n events ↔ .asked n ticket ∈ events := by
  simp only [askedOf, List.mem_filterMap]
  constructor
  · rintro ⟨event, hevent, hsome⟩
    split at hsome
    · split at hsome
      · next hm =>
        obtain rfl := Option.some.inj hsome
        exact hm ▸ hevent
      · cases hsome
    · cases hsome
  · intro hevent
    exact ⟨_, hevent, by simp⟩

theorem mem_answeredOf {n ticket : Nat} {events : List StreamEvent} :
    ticket ∈ answeredOf n events ↔ ∃ result content, .answered n ticket result content ∈ events := by
  simp only [answeredOf, List.mem_map, List.mem_filterMap, Prod.exists, exists_and_right,
    exists_eq_right]
  constructor
  · rintro ⟨result, content, event, hevent, hanswer⟩
    obtain ⟨rfl⟩ := answer?_eq_some hanswer
    exact ⟨result, content, hevent⟩
  · rintro ⟨result, content, hevent⟩
    exact ⟨result, content, _, hevent, by simp [StreamEvent.answer?]⟩

/-- The requests to flush that calls make of writers. -/
structure Answers (s : StreamSession) (events : List StreamEvent) : Prop where
  /-- Those that a writer has got are answered, in their order, or wait. -/
  settled : ∀ n shard, s.sink.shards[n]? = some shard →
    askedOf n events = answeredOf n events ++ shard.writer.tickets
  /-- A writer gets one under each ticket. -/
  once : ∀ n ticket, (askedOf n events).count ticket + s.calls.flatten.count (.flush n ticket) ≤ 1

variable {sink₀ : FileStream} {s : StreamSession} {events : List StreamEvent}

theorem answers_of_opened {sink : FileStream} {options : StreamOptions} (h : sink.Opened options) :
    Answers { sink } [] := by
  refine ⟨fun n shard hshard => ?_, fun n ticket => by simp [askedOf]⟩
  obtain ⟨hqueue, -, hphase, -⟩ := h.fresh shard (List.mem_of_getElem? hshard)
  rw [tickets, hqueue, hphase]
  rfl

/-- One writer is changed, and gets and answers what it should. -/
theorem Answers.settled_update (h : Answers s events) {n : Nat} {f : ShardWriter → ShardWriter}
    {more : List StreamEvent}
    (hown : ∀ shard, s.sink.shards[n]? = some shard →
      shard.writer.tickets ++ askedOf n more = answeredOf n more ++ (f shard.writer).tickets)
    (hothers : ∀ m, n ≠ m → askedOf m more = [] ∧ answeredOf m more = []) :
    ∀ m shard, (s.sink.updateWriter n f).shards[m]? = some shard →
      askedOf m (events ++ more) = answeredOf m (events ++ more) ++ shard.writer.tickets := by
  intro m shard hshard
  rw [FileStream.getElem?_updateWriter] at hshard
  rw [askedOf_append, answeredOf_append]
  by_cases hm : n = m
  · subst hm
    rw [if_pos rfl, Option.map_eq_some_iff] at hshard
    obtain ⟨before, hbefore, rfl⟩ := hshard
    rw [h.settled n before hbefore, List.append_assoc, hown before hbefore, List.append_assoc]
  · rw [if_neg hm] at hshard
    obtain ⟨hasked, hanswered⟩ := hothers m hm
    rw [hasked, hanswered, List.append_nil, List.append_nil]
    exact h.settled m shard hshard

/-- What can be seen of the reply of a writer. -/
theorem seen_reply (m n : Nat) (content : Bytes) (reply : Option ShardReply) :
    askedOf m (reply.map (StreamEvent.ofReply n content)).toList = [] ∧
    answeredOf m (reply.map (StreamEvent.ofReply n content)).toList =
      if n = m then (reply.bind ShardReply.ticket?).toList else [] := by
  rcases reply with _ | ⟨handle, outcome⟩ | ⟨ticket, result⟩ <;> by_cases hm : n = m <;>
    simp [askedOf, answeredOf, StreamEvent.ofReply, StreamEvent.answer?, ShardReply.ticket?, hm]

/-- A writer makes a move. -/
theorem Answers.move (h : Answers s events) {n : Nat} {shard : FileShard}
    (hshard : s.sink.shards[n]? = some shard) {f : ShardWriter → ShardWriter}
    {reply : Option ShardReply} {finished : List ShardCommand} {written : List (List (Nat × Bytes))}
    (hmove : Move shard.writer reply finished written (f shard.writer)) :
    Answers { s with sink := s.sink.updateWriter n f }
      (events ++ (reply.map (.ofReply n (f shard.writer).file.content)).toList) := by
  constructor
  · refine h.settled_update ?_ ?_
    · intro shard' hshard'
      obtain rfl : shard = shard' := Option.some.inj (hshard.symm.trans hshard')
      obtain ⟨hasked, hanswered⟩ := seen_reply n n (f shard.writer).file.content reply
      rw [hasked, hanswered, if_pos rfl, List.append_nil]
      exact hmove.tickets
    · intro m hm
      obtain ⟨hasked, hanswered⟩ := seen_reply m n (f shard.writer).file.content reply
      exact ⟨hasked, hanswered.trans (if_neg hm)⟩
  · intro m ticket
    rw [askedOf_append, (seen_reply m n _ reply).1, List.append_nil]
    exact h.once m ticket

/-- A record brings no ticket, whether it is sent to a writer or refused. -/
theorem Answers.settled_deliver (h : Answers s events)
    (hgoing : ∀ shard ∈ s.sink.shards, shard.writer.phase ≠ .ended) (d : Delivery) :
    ∀ m shard, (s.perform (.deliver d)).1.sink.shards[m]? = some shard →
      askedOf m (events ++ (s.perform (.deliver d)).2) =
        answeredOf m (events ++ (s.perform (.deliver d)).2) ++ shard.writer.tickets := by
  simp only [perform]
  rcases FileStream.accept_cases hgoing s.nextHandle d with
    ⟨outcome, haccept, -⟩ | ⟨n, shard, -, hshard, haccept⟩ <;> rw [haccept]
  · intro m shard hshard
    rw [askedOf_append, answeredOf_append]
    exact (List.append_nil _).trans ((h.settled m shard hshard).trans (by rw [List.append_assoc]; rfl))
  · refine h.settled_update ?_ fun m hm => ⟨rfl, rfl⟩
    intro shard' hshard'
    obtain rfl : shard = shard' := Option.some.inj (hshard.symm.trans hshard')
    rw [tickets_send (hgoing shard (List.mem_of_getElem? hshard))]
    rfl

/-- What a request leaves of the calls, and what it asks of writers. -/
theorem asked_perform (s : StreamSession) (request : StreamRequest) (m ticket : Nat) :
    (s.perform request).1.calls = s.calls ∧
    (askedOf m (s.perform request).2).count ticket = [request].count (.flush m ticket) := by
  cases request with
  | deliver d =>
      rcases haccept : s.sink.accept s.nextHandle d with ⟨_ | outcome, sink⟩ <;>
        simp [perform, haccept, askedOf]
  | flush n other =>
      refine ⟨rfl, ?_⟩
      by_cases hm : n = m <;> by_cases hticket : other = ticket <;>
        simp [perform, askedOf, hm, hticket]
  | close n => exact ⟨rfl, by simp [perform, askedOf]⟩

/-- A writer gets a request that a call makes. -/
theorem Answers.settled_perform (h : Answers s events) (hruns : Runs sink₀ s events)
    {request : StreamRequest} (hfits : request.Fits s.dropped s.nextTicket) :
    ∀ m shard, (s.perform request).1.sink.shards[m]? = some shard →
      askedOf m (events ++ (s.perform request).2) =
        answeredOf m (events ++ (s.perform request).2) ++ shard.writer.tickets := by
  cases request with
  | deliver d => exact h.settled_deliver (hruns.going hfits) d
  | flush n ticket =>
      simp only [perform]
      refine h.settled_update ?_ ?_
      · intro shard hshard
        rw [tickets_send (hruns.going hfits.1 shard (List.mem_of_getElem? hshard))]
        simp [askedOf, answeredOf, StreamEvent.answer?, ShardCommand.ticket?]
      · intro m hm
        simp [askedOf, answeredOf, StreamEvent.answer?, hm]
  | close n => exact h.settled_update (fun shard _ => List.append_nil _) fun m hm => ⟨rfl, rfl⟩

/-- A call goes on by a request. -/
theorem Answers.proceed (h : Answers s events) (hruns : Runs sink₀ s events) {i : Nat}
    {request : StreamRequest} {requests : List StreamRequest}
    (hcall : s.calls[i]? = some (request :: requests)) :
    let called : StreamSession := { s with calls := s.calls.set i requests }
    Answers (called.perform request).1 (events ++ (called.perform request).2) := by
  intro called
  obtain ⟨before, after, hflatten, hset⟩ := flatten_set hcall
  have hfits : request.Fits s.dropped s.nextTicket :=
    hruns.requests _ (List.mem_of_getElem? hcall) request List.mem_cons_self
  have hleft : called.calls.flatten = before ++ after := by simpa using hset []
  have hcount : ∀ m ticket, s.calls.flatten.count (.flush m ticket) =
      called.calls.flatten.count (.flush m ticket) + [request].count (.flush m ticket) := by
    intro m ticket
    rw [hflatten, hleft, List.count_append, List.count_append, List.count_append]
    omega
  have hcalled : Answers called events := by
    refine ⟨h.settled, fun m ticket => ?_⟩
    have honce := h.once m ticket
    have := hcount m ticket
    omega
  have hruns' : Runs sink₀ called events := by
    refine ⟨hruns.stream, hruns.size, hruns.tended, hruns.isOpen, ?_, hruns.asked, hruns.counts⟩
    intro call hmem other hother
    rcases List.mem_or_eq_of_mem_set hmem with hmem | rfl
    · exact hruns.requests call hmem other hother
    · exact hruns.requests _ (List.mem_of_getElem? hcall) other (.tail _ hother)
  refine ⟨hcalled.settled_perform hruns' hfits, fun m ticket => ?_⟩
  obtain ⟨hcalls, hasked⟩ := asked_perform called request m ticket
  have honce := h.once m ticket
  have := hcount m ticket
  rw [askedOf_append, List.count_append, hasked, hcalls]
  omega

/-- A ticket that has not been given out is not asked for. -/
theorem Runs.count_fresh (h : Runs sink₀ s events) (n : Nat) :
    (askedOf n events).count s.nextTicket = 0 ∧
      s.calls.flatten.count (.flush n s.nextTicket) = 0 := by
  constructor
  · refine List.count_eq_zero.mpr fun hmem => ?_
    exact absurd (h.asked n _ (mem_askedOf.mp hmem)) (Nat.lt_irrefl _)
  · refine List.count_eq_zero.mpr fun hmem => ?_
    obtain ⟨call, hcall, hrequest⟩ := List.mem_flatten.mp hmem
    exact absurd (h.requests call hcall _ hrequest).2 (Nat.lt_irrefl _)

/-- A call makes one request of each writer, under its own ticket. -/
theorem count_requests (sink : FileStream) (c : StreamCall) (n ticket fresh : Nat) :
    (c.requests sink fresh).count (.flush n ticket) ≤ if ticket = fresh then 1 else 0 := by
  cases c with
  | dispatch d => exact Nat.zero_le _
  | broadcast stream payload =>
      have hnone : StreamRequest.flush n ticket ∉
          (StreamCall.broadcast stream payload).requests sink fresh := by
        simp [StreamCall.requests]
      rw [List.count_eq_zero.mpr hnone]
      exact Nat.zero_le _
  | flush =>
      have hnodup : (StreamCall.requests sink fresh .flush).Nodup :=
        List.nodup_range.map fun _ _ hsame => (StreamRequest.flush.inj hsame).1
      split
      · exact List.nodup_iff_count_le_one.mp hnodup _
      · next hticket =>
        have hnone : StreamRequest.flush n ticket ∉ StreamCall.requests sink fresh .flush := by
          simp [StreamCall.requests, Ne.symm hticket]
        exact (List.count_eq_zero.mpr hnone).le

/-- Every step of a schedule. -/
theorem Answers.act (h : Answers s events) (hruns : Runs sink₀ s events) (action : StreamAction) :
    Answers (s.act action).1 (events ++ (s.act action).2) := by
  cases action with
  | call c =>
      simp only [StreamSession.act]
      split
      · rw [List.append_nil]
        exact h
      · rw [List.append_nil]
        refine ⟨h.settled, fun n ticket => ?_⟩
        have honce := h.once n ticket
        have hnew := count_requests s.sink c n ticket s.nextTicket
        rw [List.flatten_append, List.count_append, List.flatten_singleton]
        split at hnew
        · next hticket =>
          obtain ⟨hasked, hcalls⟩ := hruns.count_fresh n
          rw [hticket] at hnew ⊢
          omega
        · omega
  | proceed i =>
      simp only [StreamSession.act]
      split
      · next request requests hcall => exact h.proceed hruns hcall
      · rw [List.append_nil]
        exact h
  | write n =>
      simp only [StreamSession.act, writeStep]
      rcases hshard : s.sink.shards[n]? with _ | shard
      · simp only [List.append_nil]
        exact h
      · obtain ⟨finished, written, hmove⟩ := shard.writer.move_step
        exact h.move hshard (f := fun _ => shard.writer.step.2) hmove
  | cut n =>
      simp only [StreamSession.act]
      rcases hshard : s.sink.shards[n]? with _ | shard
      · rw [FileStream.updateWriter_of_none hshard, List.append_nil]
        exact h
      · exact h.move hshard shard.writer.move_stopGathering
  | drop =>
      simp only [StreamSession.act]
      split
      · rw [List.append_nil]
        exact h
      · rw [List.append_nil]
        refine ⟨h.settled, fun n ticket => ?_⟩
        have honce := h.once n ticket
        have hnone : StreamRequest.flush n ticket ∉
            [(List.range s.sink.shards.length).map StreamRequest.close].flatten := by
          simp
        rw [List.count_eq_zero.mpr hnone]
        omega

theorem Answers.follow (h : Answers s events) (hruns : Runs sink₀ s events)
    (actions : List StreamAction) :
    Answers (s.follow actions).1 (events ++ (s.follow actions).2) := by
  induction actions generalizing s events with
  | nil => simpa [StreamSession.follow] using h
  | cons action actions ih =>
      simpa [StreamSession.follow] using ih (h.act hruns action) (hruns.act action)

/-! ## Waiting for the answers -/

/-- The answers of a session: one of each writer to a ticket, and none that was not asked for. -/
theorem Answers.nodup (h : Answers s events) {n : Nat} {shard : FileShard}
    (hshard : s.sink.shards[n]? = some shard) : (answeredOf n events).Nodup := by
  have hasked : (askedOf n events).Nodup := List.nodup_iff_count_le_one.mpr fun ticket => by
    have honce := h.once n ticket
    omega
  rw [h.settled n shard hshard] at hasked
  exact hasked.of_append_left

/-- A writer does not answer a ticket in two ways. -/
theorem Answers.unique (h : Answers s events) {n : Nat} {shard : FileShard}
    (hshard : s.sink.shards[n]? = some shard) {ticket : Nat} {result result' : Except FileFault Unit}
    {content content' : Bytes} (hanswer : .answered n ticket result content ∈ events)
    (hanswer' : .answered n ticket result' content' ∈ events) : result = result' := by
  have hmem : ∀ {result content}, .answered n ticket result content ∈ events →
      (ticket, result, content) ∈ events.filterMap (StreamEvent.answer? n) := fun hmem =>
    List.mem_filterMap.mpr ⟨_, hmem, by simp [StreamEvent.answer?]⟩
  have hsame := List.inj_on_of_nodup_map (h.nodup hshard) (hmem hanswer) (hmem hanswer') rfl
  exact (Prod.mk.inj (Prod.mk.inj hsame).2).1

theorem resultOf?_eq_some {n ticket : Nat} {result : Except FileFault Unit} {event : StreamEvent} :
    event.resultOf? n ticket = some result ↔ ∃ content, event = .answered n ticket result content := by
  cases event with
  | answered m other result' content =>
      simp only [StreamEvent.resultOf?, StreamEvent.answered.injEq]
      split
      · next hm => simp [hm]
      · next hm =>
        simp only [false_iff, not_exists, reduceCtorEq]
        rintro content' ⟨rfl, rfl, -⟩
        exact hm ⟨rfl, rfl⟩
  | _ => simp [StreamEvent.resultOf?]

/-- A writer has answered a ticket so, of the answers that can be seen. -/
theorem Answers.findSome?_eq (h : Answers s events) {n : Nat} {shard : FileShard}
    (hshard : s.sink.shards[n]? = some shard) {ticket : Nat} {result : Except FileFault Unit} :
    events.findSome? (StreamEvent.resultOf? n ticket) = some result ↔
      ∃ content, .answered n ticket result content ∈ events := by
  constructor
  · intro hfound
    obtain ⟨event, hevent, hresult⟩ := List.exists_of_findSome?_eq_some hfound
    obtain ⟨content, rfl⟩ := resultOf?_eq_some.mp hresult
    exact ⟨content, hevent⟩
  · rintro ⟨content, hanswer⟩
    cases hfound : events.findSome? (StreamEvent.resultOf? n ticket) with
    | none =>
        have hnone := List.findSome?_eq_none_iff.mp hfound _ hanswer
        simp [StreamEvent.resultOf?] at hnone
    | some result' =>
        obtain ⟨event, hevent, hresult⟩ := List.exists_of_findSome?_eq_some hfound
        obtain ⟨content', rfl⟩ := resultOf?_eq_some.mp hresult
        rw [h.unique hshard hevent hanswer]

section Await

variable {ticket : Nat} {writers : List Nat}

theorem awaitAnswers_ok : awaitAnswers events ticket writers = some (.ok ()) ↔
    ∀ n ∈ writers, events.findSome? (StreamEvent.resultOf? n ticket) = some (.ok ()) := by
  induction writers with
  | nil => simp [awaitAnswers]
  | cons n writers ih =>
      rw [awaitAnswers, List.forall_mem_cons, ← ih]
      split
      · next hnone => simp [hnone]
      · next fault hfault => simp [hfault]
      · next hok => simp [hok]

theorem awaitAnswers_error {cause : DispatchFault}
    (h : awaitAnswers events ticket writers = some (.error cause)) :
    ∃ n ∈ writers, ∃ fault,
      events.findSome? (StreamEvent.resultOf? n ticket) = some (.error fault) ∧
      cause = .io fault.message := by
  induction writers with
  | nil => cases h
  | cons n writers ih =>
      rw [awaitAnswers] at h
      split at h
      · cases h
      · next fault hfault =>
        cases h
        exact ⟨n, List.mem_cons_self, fault, hfault, rfl⟩
      · obtain ⟨m, hm, found⟩ := ih h
        exact ⟨m, List.mem_cons_of_mem n hm, found⟩

/-- Once all writers have answered, a flush returns what their answers amount to. -/
theorem awaitAnswers_eq_flushResult {result : Nat → Except FileFault Unit}
    (h : ∀ n ∈ writers, events.findSome? (StreamEvent.resultOf? n ticket) = some (result n)) :
    awaitAnswers events ticket writers =
      some (ShardReply.flushResult (writers.map fun n => .flushed ticket (result n))) := by
  induction writers with
  | nil => rfl
  | cons n writers ih =>
      obtain ⟨hfirst, hrest⟩ := List.forall_mem_cons.mp h
      rw [awaitAnswers, hfirst]
      cases hresult : result n with
      | error fault => simp [ShardReply.flushResult, hresult]
      | ok done =>
          simp only
          rw [ih hrest]
          simp [ShardReply.flushResult, hresult]

end Await

theorem flushReturn_of_asked {ticket shards : Nat} (hasked : ∀ n < shards, .asked n ticket ∈ events) :
    flushReturn events ticket shards = awaitAnswers events ticket (List.range shards) := by
  refine if_pos (List.all_eq_true.mpr fun n hn => ?_)
  exact List.any_eq_true.mpr ⟨_, hasked n (List.mem_range.mp hn), by simp [StreamEvent.asks]⟩

theorem awaitAnswers_of_flushReturn {ticket shards : Nat} {result : Except DispatchFault Unit}
    (h : flushReturn events ticket shards = some result) :
    awaitAnswers events ticket (List.range shards) = some result := by
  rw [flushReturn] at h
  split at h
  · exact h
  · cases h

namespace Answers

variable {ticket : Nat}

theorem asked_of_answered (h : Answers s events) {n : Nat} (hn : n < s.sink.shards.length)
    {result : Except FileFault Unit} {content : Bytes}
    (hanswer : .answered n ticket result content ∈ events) : .asked n ticket ∈ events := by
  refine mem_askedOf.mp ?_
  rw [h.settled n _ (List.getElem?_eq_getElem hn)]
  exact List.mem_append_left _ (mem_answeredOf.mpr ⟨result, content, hanswer⟩)

/-- A flush returns no fault just if no writer answers one. -/
theorem flushReturn_ok (h : Answers s events) :
    flushReturn events ticket s.sink.shards.length = some (.ok ()) ↔
      ∀ n < s.sink.shards.length, ∃ content, .answered n ticket (.ok ()) content ∈ events := by
  constructor
  · intro hreturned n hn
    have hfound := awaitAnswers_ok.mp (awaitAnswers_of_flushReturn hreturned) n (List.mem_range.mpr hn)
    exact (h.findSome?_eq (List.getElem?_eq_getElem hn)).mp hfound
  · intro hall
    have hasked : ∀ n < s.sink.shards.length, .asked n ticket ∈ events := fun n hn => by
      obtain ⟨content, hanswer⟩ := hall n hn
      exact h.asked_of_answered hn hanswer
    rw [flushReturn_of_asked hasked, awaitAnswers_ok]
    intro n hn
    have hn' := List.mem_range.mp hn
    exact (h.findSome?_eq (List.getElem?_eq_getElem hn')).mpr (hall n hn')

/-- A fault that a flush returns is one that a writer has answered. -/
theorem flushReturn_error (h : Answers s events) {cause : DispatchFault}
    (hreturned : flushReturn events ticket s.sink.shards.length = some (.error cause)) :
    ∃ n < s.sink.shards.length, ∃ fault content,
      .answered n ticket (.error fault) content ∈ events ∧ cause = .io fault.message := by
  obtain ⟨n, hn, fault, hfound, hcause⟩ :=
    awaitAnswers_error (awaitAnswers_of_flushReturn hreturned)
  have hn' := List.mem_range.mp hn
  obtain ⟨content, hanswer⟩ := (h.findSome?_eq (List.getElem?_eq_getElem hn')).mp hfound
  exact ⟨n, hn', fault, content, hanswer, hcause⟩

/-- A writer that waits has answered all that it was asked. -/
theorem answered_of_isIdle (h : Answers s events) (hruns : Runs sink₀ s events)
    (hidle : s.isIdle = true) {n : Nat} (hn : n < s.sink.shards.length)
    (hasked : .asked n ticket ∈ events) :
    ∃ result content, .answered n ticket result content ∈ events := by
  have hshard := List.getElem?_eq_getElem hn
  obtain ⟨done, batches, hcarries⟩ := hruns.carries hshard
  have hwaiting := List.all_eq_true.mp hidle _ (List.getElem_mem hn)
  have hsettled := h.settled n _ hshard
  rw [tickets_of_isWaiting hwaiting hcarries.ended, List.append_nil] at hsettled
  exact mem_answeredOf.mp (hsettled ▸ mem_askedOf.mpr hasked)

/-- A flush that has asked all writers has returned when they wait. -/
theorem flushReturn_of_isIdle (h : Answers s events) (hruns : Runs sink₀ s events)
    (hidle : s.isIdle = true) (hasked : ∀ n < s.sink.shards.length, .asked n ticket ∈ events) :
    ∃ result : Nat → Except FileFault Unit,
      (∀ n < s.sink.shards.length, ∃ content, .answered n ticket (result n) content ∈ events) ∧
      flushReturn events ticket s.sink.shards.length = some (ShardReply.flushResult
        ((List.range s.sink.shards.length).map fun n => .flushed ticket (result n))) := by
  have hfound : ∀ n < s.sink.shards.length, ∃ result,
      events.findSome? (StreamEvent.resultOf? n ticket) = some result := fun n hn => by
    obtain ⟨result, content, hanswer⟩ := h.answered_of_isIdle hruns hidle hn (hasked n hn)
    exact ⟨result, (h.findSome?_eq (List.getElem?_eq_getElem hn)).mpr ⟨content, hanswer⟩⟩
  choose! result hresult using hfound
  refine ⟨result, fun n hn => (h.findSome?_eq (List.getElem?_eq_getElem hn)).mp (hresult n hn), ?_⟩
  rw [flushReturn_of_asked hasked]
  exact awaitAnswers_eq_flushResult fun n hn => hresult n (List.mem_range.mp hn)

end Answers

/-- Whatever is called for around a flush and however the writers take their turns:

* the flush returns no fault just if each writer has answered that its device keeps what it holds;
* a fault that it returns is one that a writer has answered;
* once it has asked all writers and they wait, it has returned what their answers amount to;
* when it has returned no fault, each file keeps in lines what was handed over for its shard before the
  flush was called for, as long as its device takes all bytes. -/
theorem flushReturn_spec {options : StreamOptions} (hmax : 0 < options.maxAggregate) {sink : FileStream}
    (hopened : sink.Opened options) (before after : List StreamAction) :
    let start : StreamSession := { sink }
    let ticket := (start.follow before).1.nextTicket
    let s := (start.follow (before ++ .call .flush :: after)).1
    let events := (start.follow (before ++ .call .flush :: after)).2
    let shards := s.sink.shards.length
    let returned := flushReturn events ticket shards
    (returned = some (.ok ()) ↔
      ∀ n < shards, ∃ content, .answered n ticket (.ok ()) content ∈ events) ∧
    (∀ cause, returned = some (.error cause) → ∃ n < shards, ∃ fault content,
      .answered n ticket (.error fault) content ∈ events ∧ cause = .io fault.message) ∧
    ((∀ n < shards, .asked n ticket ∈ events) → s.isIdle = true →
      ∃ result : Nat → Except FileFault Unit,
        (∀ n < shards, ∃ content, .answered n ticket (result n) content ∈ events) ∧
        returned = some (ShardReply.flushResult
          ((List.range shards).map fun n => .flushed ticket (result n)))) ∧
    (returned = some (.ok ()) → ∀ n shard₀, sink.shards[n]? = some shard₀ → shard₀.writer.file.Takes →
      ∃ content lines, .answered n ticket (.ok ()) content ∈ events ∧
        HoldsLines options shard₀.writer.file.content content lines ∧
        sink.recordsFor n (start.follow before).2 <+: lines.flatten) := by
  intro start ticket s events shards returned
  have hruns : Runs sink s events := (runs_of_opened hopened).follow _
  have hanswers : Answers s events := (answers_of_opened hopened).follow (runs_of_opened hopened) _
  refine ⟨hanswers.flushReturn_ok, fun cause => hanswers.flushReturn_error,
    fun hasked hidle => hanswers.flushReturn_of_isIdle hruns hidle hasked, ?_⟩
  intro hreturned n shard₀ hshard₀ htakes
  have hsize : shards = sink.shards.length := hruns.size
  have hn : n < shards := hsize ▸ (List.getElem?_eq_some_iff.mp hshard₀).1
  obtain ⟨content, hanswer⟩ := hanswers.flushReturn_ok.mp hreturned n hn
  obtain ⟨lines, hlines, hsent, -⟩ := kept_of_answered hmax hopened before after hshard₀ htakes hanswer
  exact ⟨content, lines, hanswer, hlines, hsent⟩

end StreamSession

end EventReplay
