import Mathlib.Algebra.Ring.Nat
import EventReplay.Proofs.LineParts
import EventReplay.Sink.StreamCalls

/-!
# The course of the calls on a stream

Whatever calls are made of a stream in files and whenever its writers take their steps, each writer
does what it was sent, in order (`Tended`), and each handle that was given out has been told once or
waits at one writer. `StreamSession.Runs` says so of a session and of all that could be seen of it;
every step of a schedule keeps it (`StreamSession.Runs.act`).
-/

set_option autoImplicit false

namespace EventReplay

open ShardWriter

/-! ## What can be seen of one shard -/

namespace StreamEvent

/-- The handle and the outcome that is told of it. -/
def outcome? : StreamEvent → Option (Nat × Outcome)
  | refused handle outcome | told _ handle outcome => some (handle, outcome)
  | _ => none

/-- The record for a shard among some that is handed to a stream, with its handle. -/
def record? (stream : String) (shards n : Nat) : StreamEvent → Option (Nat × Bytes)
  | handed handle d =>
    if d.stream = stream ∧ d.target.number shards = n then some (handle, d.payload) else none
  | _ => none

/-- The command that a writer is sent. -/
def command? (stream : String) (shards n : Nat) : StreamEvent → Option ShardCommand
  | handed handle d =>
    if d.stream = stream ∧ d.target.number shards = n then some (.append handle d.payload) else none
  | asked m ticket => if m = n then some (.flush ticket) else none
  | _ => none

/-- The outcome that a writer tells of a handle. -/
def toldBy? (n : Nat) : StreamEvent → Option (Nat × Outcome)
  | told m handle outcome => if m = n then some (handle, outcome) else none
  | _ => none

/-- The ticket that a writer answers, the answer, and what the device holds then. -/
def answer? (n : Nat) : StreamEvent → Option (Nat × Except FileFault Unit × Bytes)
  | answered m ticket result content => if m = n then some (ticket, result, content) else none
  | _ => none

end StreamEvent

/-- The log of the writer of a shard among some of a stream. -/
def logOf (stream : String) (shards n : Nat) (events : List StreamEvent) : WriterLog :=
  { sent := events.filterMap (StreamEvent.command? stream shards n)
    told := events.filterMap (StreamEvent.toldBy? n)
    answers := events.filterMap (StreamEvent.answer? n) }

section Logs

variable {stream : String} {shards n : Nat} {events : List StreamEvent}

theorem recordsOf_logOf : recordsOf (logOf stream shards n events).sent =
    events.filterMap (StreamEvent.record? stream shards n) := by
  rw [logOf, recordsOf, List.filterMap_filterMap]
  congr 1
  funext event
  cases event with
  | handed handle d =>
      simp only [StreamEvent.command?, StreamEvent.record?]
      split <;> rfl
  | asked m ticket =>
      simp only [StreamEvent.command?, StreamEvent.record?]
      split <;> rfl
  | _ => rfl

theorem logOf_reply (m : Nat) (content : Bytes) (reply : Option ShardReply) :
    logOf stream shards n (events ++ (reply.map (StreamEvent.ofReply m content)).toList) =
      if m = n then (logOf stream shards n events).note content reply
      else logOf stream shards n events := by
  rcases reply with _ | ⟨handle, outcome⟩ | ⟨ticket, result⟩ <;>
    by_cases h : m = n <;>
      simp [logOf, WriterLog.note, StreamEvent.ofReply, StreamEvent.command?, StreamEvent.toldBy?,
        StreamEvent.answer?, h]

/-- A record is sent to the writer of its shard. -/
theorem logOf_handed (handle : Nat) (d : Delivery) :
    logOf stream shards n (events ++ [.handed handle d]) =
      if d.stream = stream ∧ d.target.number shards = n then
        { logOf stream shards n events with
          sent := (logOf stream shards n events).sent ++ [.append handle d.payload] }
      else logOf stream shards n events := by
  split <;> rename_i h <;>
    simp [logOf, StreamEvent.command?, StreamEvent.toldBy?, StreamEvent.answer?, h]

theorem logOf_refused (handle : Nat) (outcome : Outcome) :
    logOf stream shards n (events ++ [.refused handle outcome]) = logOf stream shards n events := by
  simp [logOf, StreamEvent.command?, StreamEvent.toldBy?, StreamEvent.answer?]

theorem logOf_asked (m ticket : Nat) :
    logOf stream shards n (events ++ [.asked m ticket]) =
      if m = n then
        { logOf stream shards n events with
          sent := (logOf stream shards n events).sent ++ [.flush ticket] }
      else logOf stream shards n events := by
  split <;> rename_i h <;>
    simp [logOf, StreamEvent.command?, StreamEvent.toldBy?, StreamEvent.answer?, h]

end Logs

/-! ## One writer -/

/-- A writer that started as another has done what its log says. -/
structure Tended (writer₀ writer : ShardWriter) (log : WriterLog) : Prop where
  aggregate : writer.aggregate = writer₀.aggregate
  maxBatch : writer.maxBatch = writer₀.maxBatch
  closed : writer.phase = .ended → writer.closed = true
  carries : ∃ done batches, Carries writer log done batches ∧
    (writer₀.file.Takes → Fills writer writer₀.file.content log batches)
  leaves : ∃ settled unsettled, Leaves writer writer₀.file.content log settled unsettled

namespace Tended

variable {writer₀ writer writer' : ShardWriter} {log : WriterLog} {reply : Option ShardReply}
  {finished : List ShardCommand} {written : List (List (Nat × Bytes))}

theorem move (h : Tended writer₀ writer log) (hmove : Move writer reply finished written writer') :
    Tended writer₀ writer' (log.note writer'.file.content reply) := by
  obtain ⟨done, batches, hcarries, hfills⟩ := h.carries
  obtain ⟨settled, unsettled, hleaves⟩ := h.leaves
  obtain ⟨haggregate, hmaxBatch, hclosed⟩ := hmove.fixed
  refine ⟨haggregate.trans h.aggregate, hmaxBatch.trans h.maxBatch, ?_, ⟨done ++ finished,
    batches ++ written, hcarries.move hmove, fun htakes => (hfills htakes).move hcarries hmove⟩,
    hleaves.move hmove⟩
  intro hended
  rw [hclosed]
  cases hmove with
  | shift queue phase hahead htoTell hgathered hfits hended' => exact h.closed (hended' hended).1
  | finish _ _ hclosed' => exact hclosed'
  | _ => simp at hended

theorem send (h : Tended writer₀ writer log) (hgoing : writer.phase ≠ .ended) (command : ShardCommand) :
    Tended writer₀ (writer.send command).2 { log with sent := log.sent ++ [command] } := by
  obtain ⟨done, batches, hcarries, hfills⟩ := h.carries
  obtain ⟨settled, unsettled, hleaves⟩ := h.leaves
  refine ⟨?_, ?_, ?_, ⟨done, batches, hcarries.send hgoing command,
    fun htakes => (hfills htakes).send hgoing command⟩, settled, unsettled,
    hleaves.send hgoing command⟩ <;> rw [send_of_going hgoing]
  · exact h.aggregate
  · exact h.maxBatch
  · exact h.closed

theorem close (h : Tended writer₀ writer log) : Tended writer₀ writer.close log := by
  obtain ⟨done, batches, hcarries, hfills⟩ := h.carries
  obtain ⟨settled, unsettled, hleaves⟩ := h.leaves
  exact ⟨h.aggregate, h.maxBatch, fun _ => rfl, ⟨done, batches, hcarries.close,
    fun htakes => (hfills htakes).close⟩, settled, unsettled, hleaves.close⟩

end Tended

/-! ## The writers of a stream -/

namespace FileStream

theorem getElem?_updateWriter (sink : FileStream) (n : Nat) (f : ShardWriter → ShardWriter) (m : Nat) :
    (sink.updateWriter n f).shards[m]? = if n = m then
      sink.shards[m]?.map fun shard => { shard with writer := f shard.writer }
    else sink.shards[m]? := by
  simp only [updateWriter, List.getElem?_modify]
  split <;> simp

theorem length_updateWriter (sink : FileStream) (n : Nat) (f : ShardWriter → ShardWriter) :
    (sink.updateWriter n f).shards.length = sink.shards.length := by
  simp [updateWriter]

/-- How often a handle waits at the writers of a stream. -/
def awaits (sink : FileStream) (handle : Nat) : Nat :=
  (sink.shards.map fun shard => shard.writer.awaited.count handle).sum

theorem awaits_updateWriter {sink : FileStream} {n : Nat} {shard : FileShard}
    (hshard : sink.shards[n]? = some shard) (f : ShardWriter → ShardWriter) (handle : Nat) :
    (sink.updateWriter n f).awaits handle + shard.writer.awaited.count handle =
      sink.awaits handle + (f shard.writer).awaited.count handle := by
  obtain ⟨stream, directory, shards⟩ := sink
  simp only [awaits, updateWriter] at hshard ⊢
  induction shards generalizing n with
  | nil => simp at hshard
  | cons first shards ih =>
      cases n with
      | zero =>
          obtain rfl : first = shard := by simpa using hshard
          simp only [List.modify_zero_cons, List.map_cons, List.sum_cons]
          omega
      | succ n =>
          have hrest := ih (by simpa using hshard)
          simp only [List.modify_succ_cons, List.map_cons, List.sum_cons]
          omega

theorem updateWriter_of_none {sink : FileStream} {n : Nat} (h : sink.shards[n]? = none)
    (f : ShardWriter → ShardWriter) : sink.updateWriter n f = sink := by
  obtain ⟨stream, directory, shards⟩ := sink
  simp only [updateWriter, List.modify_eq_self (List.getElem?_eq_none_iff.mp h)]

/-- A record is refused where there is no shard for it; otherwise it is sent to the writer of its
shard, as long as no writer has ended. -/
theorem accept_cases {sink : FileStream} (hgoing : ∀ shard ∈ sink.shards, shard.writer.phase ≠ .ended)
    (handle : Nat) (d : Delivery) :
    (∃ outcome, sink.accept handle d = (some outcome, sink) ∧ ∀ n shard,
      sink.shards[n]? = some shard →
        ¬ (d.stream = sink.stream ∧ d.target.number sink.shards.length = n)) ∨
    ∃ n shard, (d.stream = sink.stream ∧ d.target.number sink.shards.length = n) ∧
      sink.shards[n]? = some shard ∧ sink.accept handle d =
        (none, sink.updateWriter n fun _ => (shard.writer.send (.append handle d.payload)).2) := by
  unfold accept
  by_cases hstream : d.stream = sink.stream
  · rw [if_neg (not_not_intro hstream)]
    dsimp only
    rcases hshard : sink.shards[d.target.number sink.shards.length]? with _ | shard
    · refine .inl ⟨_, rfl, ?_⟩
      rintro n shard hn ⟨-, rfl⟩
      simp [hshard] at hn
    · have hnot := hgoing shard (List.mem_of_getElem? hshard)
      refine .inr ⟨_, shard, ⟨hstream, rfl⟩, hshard, ?_⟩
      simp only [send_of_going hnot]
  · rw [if_pos hstream]
    exact .inl ⟨_, rfl, fun _ _ _ h => hstream h.1⟩

end FileStream

/-! ## Sessions -/

/-- A request that can be under way, before or after the stream is let go. -/
def StreamRequest.Fits (dropped : Bool) (tickets : Nat) : StreamRequest → Prop
  | .deliver _ => dropped = false
  | .flush _ ticket => dropped = false ∧ ticket < tickets
  | .close _ => dropped = true

theorem StreamCall.fits_requests (sink : FileStream) {ticket tickets : Nat} (h : ticket < tickets)
    (c : StreamCall) : ∀ request ∈ c.requests sink ticket, request.Fits false tickets := by
  intro request hrequest
  cases c with
  | dispatch d =>
      obtain rfl := List.mem_singleton.mp hrequest
      exact rfl
  | broadcast stream payload =>
      obtain ⟨d, -, rfl⟩ := List.mem_map.mp hrequest
      exact rfl
  | flush =>
      obtain ⟨n, -, rfl⟩ := List.mem_map.mp hrequest
      exact ⟨rfl, h⟩

theorem StreamRequest.Fits.mono {dropped : Bool} {tickets tickets' : Nat} {request : StreamRequest}
    (h : request.Fits dropped tickets) (hle : tickets ≤ tickets') : request.Fits dropped tickets' := by
  cases request with
  | flush n ticket => exact ⟨h.1, Nat.lt_of_lt_of_le h.2 hle⟩
  | _ => exact h

namespace StreamSession

/-- A session that started with a stream, and all that could be seen of it. -/
structure Runs (sink₀ : FileStream) (s : StreamSession) (events : List StreamEvent) : Prop where
  stream : s.sink.stream = sink₀.stream
  size : s.sink.shards.length = sink₀.shards.length
  tended : ∀ n shard₀ shard, sink₀.shards[n]? = some shard₀ → s.sink.shards[n]? = some shard →
    Tended shard₀.writer shard.writer (logOf sink₀.stream sink₀.shards.length n events)
  isOpen : s.dropped = false → ∀ shard ∈ s.sink.shards, shard.writer.closed = false
  requests : ∀ call ∈ s.calls, ∀ request ∈ call, request.Fits s.dropped s.nextTicket
  asked : ∀ n ticket, .asked n ticket ∈ events → ticket < s.nextTicket
  /-- A handle has been told once or waits at one writer. -/
  counts : ∀ handle, ((events.filterMap StreamEvent.outcome?).map Prod.fst).count handle +
    s.sink.awaits handle = if handle < s.nextHandle then 1 else 0

variable {sink₀ : FileStream} {s : StreamSession} {events : List StreamEvent}

theorem Runs.going (h : Runs sink₀ s events) (hdropped : s.dropped = false) :
    ∀ shard ∈ s.sink.shards, shard.writer.phase ≠ .ended := by
  intro shard hmem hended
  obtain ⟨n, hshard⟩ := List.getElem?_of_mem hmem
  have hn : n < sink₀.shards.length := h.size ▸ (List.getElem?_eq_some_iff.mp hshard).1
  have hclosed := (h.tended n _ shard (List.getElem?_eq_getElem hn) hshard).closed hended
  simp [h.isOpen hdropped shard hmem] at hclosed

/-- The writer of one shard is changed, and what can be seen concerns only this shard. -/
theorem Runs.tended_update (h : Runs sink₀ s events) {n : Nat} {f : ShardWriter → ShardWriter}
    {more : List StreamEvent}
    (hown : ∀ shard, s.sink.shards[n]? = some shard → ∀ writer₀,
      Tended writer₀ shard.writer (logOf sink₀.stream sink₀.shards.length n events) →
      Tended writer₀ (f shard.writer) (logOf sink₀.stream sink₀.shards.length n (events ++ more)))
    (hothers : ∀ m, n ≠ m → logOf sink₀.stream sink₀.shards.length m (events ++ more) =
      logOf sink₀.stream sink₀.shards.length m events) :
    ∀ m shard₀ shard, sink₀.shards[m]? = some shard₀ →
      (s.sink.updateWriter n f).shards[m]? = some shard →
      Tended shard₀.writer shard.writer
        (logOf sink₀.stream sink₀.shards.length m (events ++ more)) := by
  intro m shard₀ shard hshard₀ hshard
  rw [FileStream.getElem?_updateWriter] at hshard
  by_cases hm : n = m
  · subst hm
    rw [if_pos rfl, Option.map_eq_some_iff] at hshard
    obtain ⟨shard, hshard, rfl⟩ := hshard
    exact hown shard hshard _ (h.tended n shard₀ shard hshard₀ hshard)
  · rw [if_neg hm] at hshard
    rw [hothers m hm]
    exact h.tended m shard₀ shard hshard₀ hshard

/-- A writer is still open when another one is changed, or when it is changed itself. -/
theorem Runs.isOpen_update (h : Runs sink₀ s events) {n : Nat} {f : ShardWriter → ShardWriter}
    (hf : ∀ shard, s.sink.shards[n]? = some shard → (f shard.writer).closed = shard.writer.closed) :
    s.dropped = false → ∀ shard ∈ (s.sink.updateWriter n f).shards, shard.writer.closed = false := by
  intro hdropped shard hmem
  obtain ⟨m, hshard⟩ := List.getElem?_of_mem hmem
  rw [FileStream.getElem?_updateWriter] at hshard
  split at hshard
  · rename_i hm
    subst hm
    obtain ⟨before, hbefore, rfl⟩ := Option.map_eq_some_iff.mp hshard
    exact (hf before hbefore).trans (h.isOpen hdropped before (List.mem_of_getElem? hbefore))
  · exact h.isOpen hdropped shard (List.mem_of_getElem? hshard)

/-- A writer makes a move. -/
theorem Runs.move (h : Runs sink₀ s events) {n : Nat} {shard : FileShard}
    (hshard : s.sink.shards[n]? = some shard) {f : ShardWriter → ShardWriter}
    {reply : Option ShardReply} {finished : List ShardCommand} {written : List (List (Nat × Bytes))}
    (hmove : Move shard.writer reply finished written (f shard.writer)) :
    Runs sink₀ { s with sink := s.sink.updateWriter n f }
      (events ++ (reply.map (.ofReply n (f shard.writer).file.content)).toList) := by
  refine ⟨h.stream, (FileStream.length_updateWriter ..).trans h.size, ?_, ?_, h.requests, ?_, ?_⟩
  · apply h.tended_update
    · intro shard' hshard' writer₀ htended
      obtain rfl : shard = shard' := Option.some.inj (hshard.symm.trans hshard')
      rw [logOf_reply, if_pos rfl]
      exact htended.move hmove
    · intro m hm
      rw [logOf_reply, if_neg hm]
  · apply h.isOpen_update
    intro shard' hshard'
    obtain rfl : shard = shard' := Option.some.inj (hshard.symm.trans hshard')
    exact hmove.fixed.2.2
  · intro m ticket hasked
    apply h.asked m ticket
    rcases reply with _ | ⟨handle, outcome⟩ | ⟨ticket', result⟩ <;>
      simpa [StreamEvent.ofReply] using hasked
  -- a handle that is told waits no more
  · intro handle
    have hcounts := h.counts handle
    have hupdate := FileStream.awaits_updateWriter hshard f handle
    have hawaited := congrArg (List.count handle) hmove.awaited
    rw [List.count_append] at hawaited
    have htold : (((reply.map (StreamEvent.ofReply n (f shard.writer).file.content)).toList.filterMap
        StreamEvent.outcome?).map Prod.fst) = (reply.bind ShardReply.handle?).toList := by
      rcases reply with _ | ⟨handle, outcome⟩ | ⟨ticket, result⟩ <;> rfl
    rw [List.filterMap_append, List.map_append, List.count_append, htold]
    dsimp only
    omega

/-- A record is handed over. -/
theorem Runs.deliver (h : Runs sink₀ s events) (hdropped : s.dropped = false) (d : Delivery) :
    Runs sink₀ (s.perform (.deliver d)).1 (events ++ (s.perform (.deliver d)).2) := by
  simp only [perform]
  rcases FileStream.accept_cases (h.going hdropped) s.nextHandle d with
    ⟨outcome, haccept, hnowhere⟩ | ⟨n, shard, hfor, hshard, haccept⟩ <;> rw [haccept]
  · refine ⟨h.stream, h.size, ?_, h.isOpen, h.requests, ?_, ?_⟩
    · intro n shard₀ shard hshard₀ hshard
      have hnot := hnowhere n shard hshard
      rw [h.stream, h.size] at hnot
      rw [← List.singleton_append, Option.map_some, Option.toList_some, ← List.append_assoc,
        logOf_refused, logOf_handed, if_neg hnot]
      exact h.tended n shard₀ shard hshard₀ hshard
    · intro n ticket hasked
      exact h.asked n ticket (by simpa using hasked)
    · intro handle
      have hcounts := h.counts handle
      simp only [List.filterMap_append, List.map_append, List.count_append, Option.map_some,
        Option.toList_some, List.filterMap_cons, List.filterMap_nil, StreamEvent.outcome?, List.map_cons,
        List.map_nil, List.count_singleton, beq_iff_eq]
      split at hcounts <;> split <;> split <;> omega
  · refine ⟨h.stream, (FileStream.length_updateWriter ..).trans h.size, ?_, ?_, h.requests, ?_, ?_⟩
    · have hfor' := hfor
      rw [h.stream, h.size] at hfor'
      simp only [Option.map_none, Option.toList_none]
      apply h.tended_update
      · intro shard' hshard' writer₀ htended
        obtain rfl : shard = shard' := Option.some.inj (hshard.symm.trans hshard')
        rw [logOf_handed, if_pos hfor']
        exact htended.send (h.going hdropped shard (List.mem_of_getElem? hshard)) _
      · intro m hm
        rw [logOf_handed, if_neg]
        intro hboth
        exact hm (hfor'.2.symm.trans hboth.2)
    · apply h.isOpen_update
      intro shard' hshard'
      obtain rfl : shard = shard' := Option.some.inj (hshard.symm.trans hshard')
      rw [send_of_going (h.going hdropped shard (List.mem_of_getElem? hshard))]
    · intro m ticket hasked
      exact h.asked m ticket (by simpa using hasked)
    -- the new handle waits at the writer
    · intro handle
      have hcounts := h.counts handle
      have hupdate := FileStream.awaits_updateWriter hshard
        (fun _ => (shard.writer.send (.append s.nextHandle d.payload)).2) handle
      rw [awaited_send (h.going hdropped shard (List.mem_of_getElem? hshard)), List.count_append] at hupdate
      simp only [recordsOf, ShardCommand.record?, List.filterMap_cons, List.filterMap_nil, List.map_cons,
        List.map_nil, List.count_singleton, beq_iff_eq] at hupdate
      simp only [List.filterMap_append, List.map_append, List.count_append, Option.map_none,
        Option.toList_none, List.filterMap_cons, List.filterMap_nil, StreamEvent.outcome?, List.map_nil,
        List.count_nil]
      split at hcounts <;> split at hupdate <;> split <;> omega

/-- A writer is asked to flush. -/
theorem Runs.flush (h : Runs sink₀ s events) (hdropped : s.dropped = false) {n ticket : Nat}
    (hticket : ticket < s.nextTicket) :
    Runs sink₀ (s.perform (.flush n ticket)).1 (events ++ (s.perform (.flush n ticket)).2) := by
  simp only [perform]
  refine ⟨h.stream, (FileStream.length_updateWriter ..).trans h.size, ?_, ?_, h.requests, ?_, ?_⟩
  · apply h.tended_update
    · intro shard hshard writer₀ htended
      rw [logOf_asked, if_pos rfl]
      exact htended.send (h.going hdropped shard (List.mem_of_getElem? hshard)) _
    · intro m hm
      rw [logOf_asked, if_neg hm]
  · apply h.isOpen_update
    intro shard hshard
    rw [send_of_going (h.going hdropped shard (List.mem_of_getElem? hshard))]
  · intro m ticket' hasked
    rcases List.mem_append.mp hasked with hasked | hasked
    · exact h.asked m ticket' hasked
    · obtain ⟨-, rfl⟩ := StreamEvent.asked.inj (List.mem_singleton.mp hasked)
      exact hticket
  · intro handle
    have hcounts := h.counts handle
    have hsame : (s.sink.updateWriter n fun writer => (writer.send (.flush ticket)).2).awaits handle =
        s.sink.awaits handle := by
      rcases hshard : s.sink.shards[n]? with _ | shard
      · rw [FileStream.updateWriter_of_none hshard]
      · have hupdate := FileStream.awaits_updateWriter hshard
          (fun writer => (writer.send (.flush ticket)).2) handle
        have hnone : recordsOf [ShardCommand.flush ticket] = [] := rfl
        rw [awaited_send (h.going hdropped shard (List.mem_of_getElem? hshard)), hnone, List.map_nil,
          List.append_nil] at hupdate
        omega
    have hnone : [StreamEvent.asked n ticket].filterMap StreamEvent.outcome? = [] := rfl
    rw [hsame, List.filterMap_append, hnone, List.append_nil]
    exact hcounts

/-- A writer learns that no more comes. -/
theorem Runs.close (h : Runs sink₀ s events) (hdropped : s.dropped = true) (n : Nat) :
    Runs sink₀ (s.perform (.close n)).1 (events ++ (s.perform (.close n)).2) := by
  simp only [perform]
  refine ⟨h.stream, (FileStream.length_updateWriter ..).trans h.size, ?_, ?_, h.requests, ?_, ?_⟩
  · apply h.tended_update
    · intro shard hshard writer₀ htended
      rw [List.append_nil]
      exact htended.close
    · intro m hm
      rw [List.append_nil]
  · intro hopen
    simp [hdropped] at hopen
  · rw [List.append_nil]
    exact h.asked
  · intro handle
    have hsame : (s.sink.updateWriter n ShardWriter.close).awaits handle = s.sink.awaits handle := by
      rcases hshard : s.sink.shards[n]? with _ | shard
      · rw [FileStream.updateWriter_of_none hshard]
      · have hupdate := FileStream.awaits_updateWriter hshard ShardWriter.close handle
        have hawaited : (ShardWriter.close shard.writer).awaited = shard.writer.awaited := rfl
        rw [hawaited] at hupdate
        omega
    rw [hsame, List.append_nil]
    exact h.counts handle

/-- Every step of a schedule. -/
theorem Runs.act (h : Runs sink₀ s events) (action : StreamAction) :
    Runs sink₀ (s.act action).1 (events ++ (s.act action).2) := by
  cases action with
  | call c =>
      simp only [StreamSession.act]
      by_cases hdropped : s.dropped = true
      · rw [if_pos hdropped, List.append_nil]
        exact h
      · rw [if_neg hdropped, List.append_nil]
        rw [Bool.not_eq_true] at hdropped
        refine ⟨h.stream, h.size, h.tended, h.isOpen, ?_, ?_, h.counts⟩
        · intro call hcall request hrequest
          rcases List.mem_append.mp hcall with hcall | hcall
          · exact (h.requests call hcall request hrequest).mono (Nat.le_succ _)
          · obtain rfl := List.mem_singleton.mp hcall
            rw [hdropped]
            exact StreamCall.fits_requests s.sink (Nat.lt_succ_self _) c request hrequest
        · intro n ticket hasked
          exact Nat.lt_succ_of_lt (h.asked n ticket hasked)
  | proceed i =>
      simp only [StreamSession.act]
      split
      · rename_i request requests hcall
        have hfits := h.requests _ (List.mem_of_getElem? hcall)
        have hset : Runs sink₀ { s with calls := s.calls.set i requests } events := by
          refine ⟨h.stream, h.size, h.tended, h.isOpen, ?_, h.asked, h.counts⟩
          intro call hmem request' hrequest'
          rcases List.mem_or_eq_of_mem_set hmem with hmem | rfl
          · exact h.requests call hmem request' hrequest'
          · exact hfits request' (.tail _ hrequest')
        have hfirst := hfits request (.head _)
        cases request with
        | deliver d => exact hset.deliver hfirst d
        | flush n ticket => exact hset.flush hfirst.1 hfirst.2
        | close n => exact hset.close hfirst n
      · rw [List.append_nil]
        exact h
  | write n =>
      simp only [StreamSession.act, writeStep]
      rcases hshard : s.sink.shards[n]? with _ | shard
      · simp only [List.append_nil]
        exact h
      · obtain ⟨finished, written, hmove⟩ := shard.writer.move_step
        exact h.move hshard (f := fun _ => shard.writer.step.2) hmove
  | cut n =>
      simp only [StreamSession.act]
      rcases hshard : s.sink.shards[n]? with _ | shard
      · rw [FileStream.updateWriter_of_none hshard, List.append_nil]
        exact h
      · exact h.move hshard shard.writer.move_stopGathering
  | drop =>
      simp only [StreamSession.act]
      split
      · rw [List.append_nil]
        exact h
      · rw [List.append_nil]
        refine ⟨h.stream, h.size, h.tended, by simp, ?_, h.asked, h.counts⟩
        intro call hcall request hrequest
        obtain rfl := List.mem_singleton.mp hcall
        obtain ⟨n, -, rfl⟩ := List.mem_map.mp hrequest
        exact rfl

theorem Runs.follow (h : Runs sink₀ s events) (actions : List StreamAction) :
    Runs sink₀ (s.follow actions).1 (events ++ (s.follow actions).2) := by
  induction actions generalizing s events with
  | nil => simpa [StreamSession.follow] using h
  | cons action actions ih => simpa [StreamSession.follow] using ih (h.act action)

end StreamSession

end EventReplay
