import EventReplay.Proofs.WriterQueue

/-!
# The moves of a writer

What a step of a writer can come to (`ShardWriter.Move`): it takes commands from its queue, it writes a
batch, it tells an outcome, it answers a request to flush, or it ends. `ShardWriter.Carries` relates a
writer to all that it was sent, told and answered, whatever its device does, and
`ShardWriter.Fills` says what its file holds where the device takes all bytes. Every move keeps both.
-/

set_option autoImplicit false

namespace EventReplay

/-! ## Files on any device -/

namespace AppendFile

theorem toDevice_spec (file : AppendFile) (bytes : Bytes) :
    ∃ taken answers, taken ≤ bytes.length ∧ file.toDevice bytes =
      (taken, { file with content := file.content ++ bytes.take taken, answers }) := by
  unfold toDevice
  rcases file.answers with _ | ⟨answer, answers⟩
  · cases file.afterwards with
    | takes => exact ⟨_, _, Nat.le_refl _, rfl⟩
    | refusesAfter taken => exact ⟨_, _, Nat.min_le_right .., rfl⟩
  · cases answer with
    | takes => exact ⟨_, _, Nat.le_refl _, rfl⟩
    | refusesAfter taken => exact ⟨_, _, Nat.min_le_right .., rfl⟩

/-- The device only ever gets more; it has got all that was written if it refuses nothing. -/
theorem flush_spec (file : AppendFile) :
    file.content <+: file.flush.2.content ∧
    (file.flush.1 = .ok () → file.flush.2.content = file.written ∧ file.flush.2.pending = []) := by
  unfold flush
  split
  · rename_i hpending
    exact ⟨List.prefix_refl _, fun _ => ⟨by simp [written, hpending], hpending⟩⟩
  · obtain ⟨taken, answers, hle, heq⟩ := file.toDevice_spec file.pending
    rw [heq]
    refine ⟨List.prefix_append .., ?_⟩
    intro hok
    have hdrop : file.pending.drop taken = [] := by
      by_contra hne
      simp [hne] at hok
    have hall : file.pending.take taken = file.pending :=
      List.take_of_length_le (List.drop_eq_nil_iff.mp hdrop)
    exact ⟨by simp [hall, written], hdrop⟩

theorem content_sync (file : AppendFile) : file.content <+: file.sync.2.content := by
  have hflush := file.flush_spec.1
  unfold sync
  generalize file.flush = flushed at hflush
  obtain ⟨_ | _, file'⟩ := flushed <;> exact hflush

theorem write_spec (file : AppendFile) (bytes : Bytes) :
    file.content <+: (file.write bytes).2.content ∧
    ((file.write bytes).1 = .ok () → (file.write bytes).2.written = file.written ++ bytes) := by
  -- bytes that are let in behind what is pending, or past an empty buffer
  have henter : ∀ {file : AppendFile}, (capacity ≤ bytes.length → file.pending = []) →
      let entered := if capacity ≤ bytes.length then file.writeThrough bytes
        else (.ok (), { file with pending := file.pending ++ bytes })
      file.content <+: entered.2.content ∧
      (entered.1 = .ok () → entered.2.written = file.written ++ bytes) := by
    intro file hpending
    dsimp only
    split
    · rename_i hlong
      obtain ⟨taken, answers, hle, heq⟩ := file.toDevice_spec bytes
      simp only [writeThrough, heq]
      refine ⟨List.prefix_append .., ?_⟩
      intro hok
      have hall : taken = bytes.length := by
        by_contra hne
        simp [hne] at hok
      simp [written, hpending hlong, hall]
    · exact ⟨List.prefix_refl _, fun _ => by simp [written]⟩
  have hcapacity : 0 < capacity := by decide
  unfold write
  dsimp only
  split
  · apply henter
    intro hlong
    apply List.length_eq_zero_iff.mp
    omega
  · obtain ⟨hmore, hok⟩ := file.flush_spec
    rcases hflush : file.flush with ⟨_ | _, file'⟩
    · rw [hflush] at hmore
      exact ⟨hmore, by simp⟩
    · rw [hflush] at hmore hok
      obtain ⟨hcontent, hpending⟩ := hok rfl
      obtain ⟨hmore', hok'⟩ := @henter file' fun _ => hpending
      have hsame : file'.written = file.written := by
        have hnone : file'.pending = [] := hpending
        rw [written, hnone, List.append_nil]
        exact hcontent
      refine ⟨hmore.trans hmore', ?_⟩
      intro hentered
      rw [hok' hentered, hsame]

theorem writeAll_spec (file : AppendFile) (pieces : List Bytes) :
    file.content <+: (file.writeAll pieces).2.content ∧
    ((file.writeAll pieces).1 = .ok () →
      (file.writeAll pieces).2.written = file.written ++ pieces.flatten) := by
  induction pieces generalizing file with
  | nil => exact ⟨List.prefix_refl _, fun _ => by simp [writeAll]⟩
  | cons piece pieces ih =>
      obtain ⟨hmore, hok⟩ := file.write_spec piece
      simp only [writeAll]
      rcases hwrite : file.write piece with ⟨_ | _, file'⟩
      · rw [hwrite] at hmore
        exact ⟨hmore, by simp⟩
      · rw [hwrite] at hmore hok
        obtain ⟨hmore', hok'⟩ := ih file'
        refine ⟨hmore.trans hmore', ?_⟩
        intro hall
        rw [hok' hall, hok rfl, List.flatten_cons, List.append_assoc]

end AppendFile

/-! ## What a writer has to do -/

/-- The handle and the payload of a record that a command brings. -/
def ShardCommand.record? : ShardCommand → Option (Nat × Bytes)
  | append handle payload => some (handle, payload)
  | flush _ => none

/-- The records that commands bring, in order. -/
def recordsOf (commands : List ShardCommand) : List (Nat × Bytes) :=
  commands.filterMap ShardCommand.record?

theorem recordsOf_append (before after : List ShardCommand) :
    recordsOf (before ++ after) = recordsOf before ++ recordsOf after := List.filterMap_append

theorem recordsOf_appends (batch : List (Nat × Bytes)) : recordsOf (appends batch) = batch := by
  induction batch with
  | nil => rfl
  | cons record batch ih => simpa [recordsOf, appends, ShardCommand.record?] using ih

theorem recordsOf_flushes (ticket : Option Nat) :
    recordsOf (ticket.toList.map ShardCommand.flush) = [] := by
  cases ticket <;> rfl

/-- The handle whose outcome a reply tells. -/
def ShardReply.handle? : ShardReply → Option Nat
  | told handle _ => some handle
  | flushed .. => none

namespace ShardPhase

/-- The batch that has not been written. -/
def batch : ShardPhase → List (Nat × Bytes)
  | .gathering batch | .writing batch _ => batch
  | _ => []

/-- The outcomes that are to be told. -/
def toTell : ShardPhase → List (Nat × Outcome)
  | .telling outcome handles _ => handles.map fun handle => (handle, outcome)
  | _ => []

theorem recordsOf_ahead (phase : ShardPhase) : recordsOf phase.ahead = phase.batch := by
  cases phase with
  | gathering batch => exact recordsOf_appends batch
  | writing batch ticket =>
      rw [ahead, recordsOf_append, recordsOf_appends, recordsOf_flushes, List.append_nil]
      rfl
  | telling outcome handles ticket => exact recordsOf_flushes ticket
  | _ => rfl

end ShardPhase

namespace ShardWriter

/-- A move of a writer: the reply, the commands that it brings to an end, the batches that it writes,
and the writer afterwards. -/
inductive Move (writer : ShardWriter) : Option ShardReply → List ShardCommand →
    List (List (Nat × Bytes)) → ShardWriter → Prop where
  /-- Commands are taken from the queue, or a batch is ready, or all is told. -/
  | shift (queue : List ShardCommand) (phase : ShardPhase)
      (ahead : phase.ahead ++ queue = writer.phase.ahead ++ writer.queue)
      (toTell : phase.toTell = writer.phase.toTell)
      (gathered : ∀ batch, phase = .gathering batch → batch ≠ [])
      (fits : phase.batch.length ≤ writer.phase.batch.length ∨
        phase.batch.length ≤ max writer.maxBatch 1)
      (ended : phase = .ended → writer.phase = .ended ∧ queue = writer.queue) :
      Move writer none [] [] { writer with queue, phase }
  | write (batch : List (Nat × Bytes)) (ticket : Option Nat) (nonempty : batch ≠ [])
      (phase : writer.phase = .writing batch ticket) :
      Move writer none (appends batch) [batch]
        { writer with
          file := (writer.writeBatch batch).2
          phase := .telling (writer.writeBatch batch).1 (batch.map Prod.fst) ticket }
  | tell (outcome : Outcome) (handle : Nat) (handles : List Nat) (ticket : Option Nat)
      (phase : writer.phase = .telling outcome (handle :: handles) ticket) :
      Move writer (some (.told handle outcome)) [] []
        { writer with phase := .telling outcome handles ticket }
  | answer (outcome : Outcome) (ticket : Nat) (phase : writer.phase = .telling outcome [] (some ticket)) :
      Move writer (some (.flushed ticket writer.file.sync.1)) [.flush ticket] []
        { writer with file := writer.file.sync.2, phase := .waiting }
  | finish (phase : writer.phase = .waiting) (queue : writer.queue = [])
      (closed : writer.closed = true) :
      Move writer none [] [] { writer with file := writer.file.sync.2.flush.2, phase := .ended }

variable {writer writer' : ShardWriter} {reply : Option ShardReply} {finished : List ShardCommand}
  {written : List (List (Nat × Bytes))}

/-- A batch that has nothing behind it that belongs to it is ready to be written. -/
theorem Move.ready {batch : List (Nat × Bytes)} (h : writer.phase = .gathering batch) :
    Move writer none [] [] { writer with phase := .writing batch none } :=
  .shift writer.queue (.writing batch none) (by simp [h, ShardPhase.ahead]) (by rw [h]; rfl) (by simp)
    (.inl (by rw [h]; exact Nat.le_refl _)) (by simp)

/-- A record joins the batch. -/
theorem Move.take (batch : List (Nat × Bytes)) {handle : Nat} {payload : Bytes}
    {queue : List ShardCommand} (hahead : writer.phase.ahead = appends batch)
    (htoTell : writer.phase.toTell = []) (hfits : batch.length < max writer.maxBatch 1)
    (hqueue : writer.queue = .append handle payload :: queue) :
    Move writer none [] []
      { writer with queue, phase := .gathering (batch ++ [(handle, payload)]) } := by
  refine .shift queue (.gathering (batch ++ [(handle, payload)])) ?_ htoTell.symm ?_ (.inr ?_) (by simp)
  · rw [hahead, hqueue]
    simp [ShardPhase.ahead, appends]
  · rintro _ ⟨⟩
    simp
  · simpa [ShardPhase.batch] using Nat.succ_le_of_lt hfits

/-- A request to flush cuts the batch short. -/
theorem Move.takeFlush (batch : List (Nat × Bytes)) {ticket : Nat} {queue : List ShardCommand}
    (hahead : writer.phase.ahead = appends batch) (htoTell : writer.phase.toTell = [])
    (hbatch : writer.phase.batch = batch) (hqueue : writer.queue = .flush ticket :: queue) :
    Move writer none [] [] { writer with queue, phase := .writing batch (some ticket) } := by
  refine .shift queue (.writing batch (some ticket)) ?_ htoTell.symm (by simp) (.inl ?_) (by simp)
  · rw [hahead, hqueue]
    simp [ShardPhase.ahead]
  · rw [hbatch]
    exact Nat.le_refl _

theorem Move.rest (h : ∀ batch, writer.phase ≠ .gathering batch) : Move writer none [] [] writer :=
  .shift writer.queue writer.phase rfl rfl (fun batch heq => absurd heq (h batch))
    (.inl (Nat.le_refl _)) fun heq => ⟨heq, rfl⟩

/-- Every step is a move. -/
theorem move_step (writer : ShardWriter) :
    ∃ finished written, Move writer writer.step.1 finished written writer.step.2 := by
  obtain ⟨file, aggregate, maxBatch, queue, closed, phase⟩ := writer
  cases phase with
  | waiting =>
      rcases queue with _ | ⟨⟨handle, payload⟩ | ticket, queue⟩
      · cases closed with
        | false => exact ⟨_, _, .rest (by simp)⟩
        | true => exact ⟨_, _, .finish rfl rfl rfl⟩
      · exact ⟨_, _, .take [] rfl rfl (by simp only [List.length_nil]; omega) rfl⟩
      · exact ⟨_, _, .takeFlush [] rfl rfl rfl rfl⟩
  | gathering batch =>
      simp only [step]
      by_cases hfull : maxBatch ≤ batch.length
      · rw [if_pos hfull]
        exact ⟨_, _, .ready rfl⟩
      · rw [if_neg hfull]
        rcases queue with _ | ⟨⟨handle, payload⟩ | ticket, queue⟩
        · exact ⟨_, _, .ready rfl⟩
        · exact ⟨_, _, .take _ rfl rfl (by simp only; omega) rfl⟩
        · exact ⟨_, _, .takeFlush _ rfl rfl rfl rfl⟩
  | writing batch ticket =>
      rcases batch with _ | ⟨record, batch⟩
      · exact ⟨_, _, .shift queue (.telling .written [] ticket) rfl rfl (by simp) (.inl (Nat.le_refl _))
          (by simp)⟩
      · exact ⟨_, _, .write (record :: batch) ticket (by simp) rfl⟩
  | telling outcome handles ticket =>
      rcases handles with _ | ⟨handle, handles⟩
      · cases ticket with
        | none =>
            exact ⟨_, _, .shift queue .waiting rfl rfl (by simp) (.inl (Nat.le_refl _)) (by simp)⟩
        | some ticket => exact ⟨_, _, .answer outcome ticket rfl⟩
      · exact ⟨_, _, .tell outcome handle handles ticket rfl⟩
  | ended => exact ⟨_, _, .rest (by simp)⟩

theorem move_stopGathering (writer : ShardWriter) :
    Move writer none [] [] writer.stopGathering := by
  unfold stopGathering
  split
  · exact .ready ‹_›
  · exact .rest ‹_›

theorem Move.fixed (h : Move writer reply finished written writer') :
    writer'.aggregate = writer.aggregate ∧ writer'.maxBatch = writer.maxBatch ∧
    writer'.closed = writer.closed := by
  cases h <;> exact ⟨rfl, rfl, rfl⟩

/-! ## What becomes of a batch -/

theorem writeBatch_spec (writer : ShardWriter) (batch : List (Nat × Bytes)) :
    writer.file.content <+: (writer.writeBatch batch).2.content ∧
    ((writer.writeBatch batch).1 = .written →
      (writer.writeBatch batch).2.content =
        writer.file.written ++ rendered writer.aggregate (batch.map Prod.snd)) := by
  obtain ⟨hmore, hok⟩ := writer.file.writeAll_spec (writer.pieces (batch.map Prod.snd))
  unfold writeBatch
  rcases hwrite : writer.file.writeAll (writer.pieces (batch.map Prod.snd)) with ⟨_ | _, file⟩
  · rw [hwrite] at hmore
    exact ⟨hmore, by simp⟩
  · rw [hwrite] at hmore hok
    obtain ⟨hmore', hok'⟩ := file.flush_spec
    dsimp only at hmore hok ⊢
    rcases hflush : file.flush with ⟨_ | _, file'⟩
    · rw [hflush] at hmore'
      exact ⟨hmore.trans hmore', by simp⟩
    · rw [hflush] at hmore' hok'
      refine ⟨hmore.trans hmore', ?_⟩
      intro hwritten
      exact (hok' rfl).1.trans (hok rfl)

/-- The device only ever gets more. -/
theorem Move.content (h : Move writer reply finished written writer') :
    writer.file.content <+: writer'.file.content := by
  cases h with
  | write batch ticket => exact (writer.writeBatch_spec batch).1
  | answer outcome ticket => exact writer.file.content_sync
  | finish => exact writer.file.content_sync.trans writer.file.sync.2.flush_spec.1
  | _ => exact List.prefix_refl _

theorem mem_intersperse {separator piece : Bytes} {pieces : List Bytes} (h : piece ∈ pieces) :
    piece ∈ pieces.intersperse separator := by
  induction pieces with
  | nil => simp at h
  | cons first pieces ih =>
      rcases pieces with _ | ⟨second, pieces⟩
      · simpa using h
      · rw [List.intersperse_cons_cons]
        rcases List.mem_cons.mp h with rfl | h
        · exact .head _
        · exact .tail _ (.tail _ (ih h))

/-- A record is a part of what is written of its batch. -/
theorem infix_rendered (aggregate : Bool) {batch : List Bytes} {payload : Bytes}
    (h : payload ∈ batch) : payload <:+: rendered aggregate batch := by
  unfold rendered
  apply List.infix_of_mem_flatten
  cases aggregate with
  | true => simp [aggregatePieces, mem_intersperse h]
  | false =>
      simp only [linePieces, Bool.false_eq_true, if_false, List.mem_flatMap]
      exact ⟨payload, h, .head _⟩

/-! ## The handles that wait at a writer -/

/-- The handles whose outcome a writer is still to tell, in order. -/
def awaited (writer : ShardWriter) : List Nat :=
  writer.phase.toTell.map Prod.fst ++ (writer.phase.batch ++ recordsOf writer.queue).map Prod.fst

/-- A move tells the outcome of the first handle that waits, or of none. -/
theorem Move.awaited (h : Move writer reply finished written writer') :
    writer.awaited = (reply.bind ShardReply.handle?).toList ++ writer'.awaited := by
  unfold ShardWriter.awaited
  cases h with
  | shift queue phase hahead htoTell =>
      have hrecords := congrArg recordsOf hahead
      simp only [recordsOf_append, ShardPhase.recordsOf_ahead] at hrecords
      rw [htoTell, hrecords]
      rfl
  | write batch ticket hbatch hphase => simp [hphase, ShardPhase.toTell, ShardPhase.batch]
  | tell outcome handle handles ticket hphase =>
      simp [hphase, ShardPhase.toTell, ShardPhase.batch, ShardReply.handle?]
  | answer outcome ticket hphase =>
      simp [hphase, ShardPhase.toTell, ShardPhase.batch, ShardReply.handle?]
  | finish hphase => simp [hphase, ShardPhase.toTell, ShardPhase.batch]

theorem awaited_send (hgoing : writer.phase ≠ .ended) (command : ShardCommand) :
    (writer.send command).2.awaited = writer.awaited ++ (recordsOf [command]).map Prod.fst := by
  rw [send_of_going hgoing]
  simp [awaited, recordsOf_append]

/-- A writer that waits is left as it is by all that it could do. -/
theorem stopGathering_of_isWaiting (h : writer.isWaiting = true) : writer.stopGathering = writer := by
  unfold stopGathering
  split
  · rename_i hphase
    simp [isWaiting, hphase] at h
  · rfl

theorem work_stopGathering_le (writer : ShardWriter) : writer.stopGathering.work ≤ writer.work := by
  unfold stopGathering
  split
  · rename_i batch hphase
    simp only [work, hphase, ShardPhase.work]
    omega
  · exact Nat.le_refl _

/-- A writer that waits, or has ended, has no handle left to tell. -/
theorem awaited_of_isWaiting (h : writer.isWaiting = true)
    (hended : writer.phase = .ended → writer.queue = []) : writer.awaited = [] := by
  unfold isWaiting at h
  split at h
  · rename_i hphase
    have hqueue : writer.queue = [] := by
      rw [Bool.and_eq_true, List.isEmpty_iff] at h
      exact h.1
    simp [awaited, hphase, hqueue, ShardPhase.toTell, ShardPhase.batch, recordsOf]
  · rename_i hphase
    simp [awaited, hphase, hended hphase, ShardPhase.toTell, ShardPhase.batch, recordsOf]
  · simp at h

/-! ## What a writer has done -/

/-- All that a writer was sent, told and answered. -/
structure WriterLog where
  sent : List ShardCommand := []
  told : List (Nat × Outcome) := []
  /-- Tickets and answers, with what the device held then. -/
  answers : List (Nat × Except FileFault Unit × Bytes) := []

/-- Notes a reply, when the device holds some content. -/
def WriterLog.note (log : WriterLog) (content : Bytes) : Option ShardReply → WriterLog
  | none => log
  | some (.told handle outcome) => { log with told := log.told ++ [(handle, outcome)] }
  | some (.flushed ticket result) => { log with answers := log.answers ++ [(ticket, result, content)] }

/-- What a writer has done of what it was sent, and the batches that it has tried to write. -/
structure Carries (writer : ShardWriter) (log : WriterLog) (done : List ShardCommand)
    (batches : List (List (Nat × Bytes))) : Prop where
  sent : log.sent = done ++ (writer.phase.ahead ++ writer.queue)
  records : recordsOf done = batches.flatten
  sizes : ∀ batch ∈ batches, batch ≠ [] ∧ batch.length ≤ max writer.maxBatch 1
  gathered : ∀ batch, writer.phase = .gathering batch → batch ≠ []
  fits : writer.phase.batch.length ≤ max writer.maxBatch 1
  handles : batches.flatten.map Prod.fst = (log.told ++ writer.phase.toTell).map Prod.fst
  /-- What is told to be written is in the file. -/
  landed : ∀ entry ∈ log.told ++ writer.phase.toTell, entry.2 = .written →
    ∃ payload, (entry.1, payload) ∈ batches.flatten ∧ payload <:+: writer.file.content
  ended : writer.phase = .ended → writer.queue = []

variable {log : WriterLog} {done : List ShardCommand} {batches : List (List (Nat × Bytes))}

theorem Carries.recordsOf_sent (h : Carries writer log done batches) :
    recordsOf log.sent = batches.flatten ++ (writer.phase.batch ++ recordsOf writer.queue) := by
  rw [h.sent, recordsOf_append, recordsOf_append, h.records, ShardPhase.recordsOf_ahead]

/-- The handles of the records sent have been told, in their order, or wait. -/
theorem Carries.handles_sent (h : Carries writer log done batches) :
    (recordsOf log.sent).map Prod.fst = log.told.map Prod.fst ++ writer.awaited := by
  rw [h.recordsOf_sent, List.map_append, h.handles, List.map_append, awaited, List.append_assoc]

/-- What is in the file stays in it. -/
theorem Carries.landed_of_prefix (h : Carries writer log done batches) {content : Bytes}
    (hmore : writer.file.content <+: content) :
    ∀ entry ∈ log.told ++ writer.phase.toTell, entry.2 = .written →
      ∃ payload, (entry.1, payload) ∈ batches.flatten ∧ payload <:+: content := by
  intro entry hentry hwritten
  obtain ⟨payload, hmem, hwithin⟩ := h.landed entry hentry hwritten
  exact ⟨payload, hmem, hwithin.trans hmore.isInfix⟩

/-- A batch is written, or it is not, and its handles are to be told. -/
theorem Carries.write (h : Carries writer log done batches) {batch : List (Nat × Bytes)}
    {ticket : Option Nat} (hbatch : batch ≠ []) (hphase : writer.phase = .writing batch ticket) :
    Carries { writer with
        file := (writer.writeBatch batch).2
        phase := .telling (writer.writeBatch batch).1 (batch.map Prod.fst) ticket }
      log (done ++ appends batch) (batches ++ [batch]) := by
  obtain ⟨hmore, hok⟩ := writer.writeBatch_spec batch
  have hlanded := h.landed_of_prefix hmore
  have hhandles := h.handles
  have hfits := h.fits
  rw [hphase] at hlanded hhandles hfits
  simp only [ShardPhase.toTell, List.append_nil] at hlanded hhandles
  refine ⟨?_, ?_, ?_, by simp, by simp [ShardPhase.batch], ?_, ?_, by simp⟩
  · rw [h.sent, hphase]
    simp [ShardPhase.ahead]
  · rw [recordsOf_append, h.records, recordsOf_appends]
    simp
  · intro other hother
    rcases List.mem_append.mp hother with hother | hother
    · exact h.sizes other hother
    · obtain rfl := List.mem_singleton.mp hother
      exact ⟨hbatch, hfits⟩
  · simp [hhandles, ShardPhase.toTell]
  · intro entry hentry hwritten
    rcases List.mem_append.mp hentry with hentry | hentry
    · obtain ⟨payload, hmem, hwithin⟩ := hlanded entry hentry hwritten
      exact ⟨payload, by simp [hmem], hwithin⟩
    -- a batch that is told to be written is the last that the file holds
    · simp only [ShardPhase.toTell, List.map_map, List.mem_map, Function.comp_apply] at hentry
      obtain ⟨record, hrecord, rfl⟩ := hentry
      refine ⟨record.2, by simp [hrecord], ?_⟩
      rw [hok hwritten]
      have hpart := infix_rendered writer.aggregate (List.mem_map_of_mem (f := Prod.snd) hrecord)
      exact hpart.trans (List.suffix_append ..).isInfix

theorem Carries.move (h : Carries writer log done batches)
    (hmove : Move writer reply finished written writer') :
    Carries writer' (log.note writer'.file.content reply) (done ++ finished) (batches ++ written) := by
  have hlanded := h.landed_of_prefix hmove.content
  cases hmove with
  | shift queue phase hahead htoTell hgathered hfits hended =>
      rw [List.append_nil, List.append_nil]
      refine ⟨?_, h.records, h.sizes, hgathered, ?_, ?_, ?_, ?_⟩
      · rw [hahead]
        exact h.sent
      · rcases hfits with hfits | hfits
        · exact Nat.le_trans hfits h.fits
        · exact hfits
      · rw [htoTell]
        exact h.handles
      · rw [htoTell]
        exact hlanded
      · intro heq
        obtain ⟨hphase, rfl⟩ := hended heq
        exact h.ended hphase
  | write batch ticket hbatch hphase => exact h.write hbatch hphase
  | tell outcome handle handles ticket hphase =>
      rw [List.append_nil, List.append_nil]
      have hsame : (log.told ++ [(handle, outcome)]) ++
          ShardPhase.toTell (.telling outcome handles ticket) =
          log.told ++ writer.phase.toTell := by
        rw [hphase]
        simp [ShardPhase.toTell]
      refine ⟨?_, h.records, h.sizes, by simp, by simp [ShardPhase.batch], ?_, ?_, by simp⟩
      · have hsent := h.sent
        rw [hphase] at hsent
        exact hsent
      · exact h.handles.trans (congrArg _ hsame.symm)
      · intro entry hentry
        exact hlanded entry (hsame ▸ hentry)
  | answer outcome ticket hphase =>
      rw [List.append_nil]
      have hhandles := h.handles
      rw [hphase] at hhandles hlanded
      refine ⟨?_, ?_, h.sizes, by simp, by simp [ShardPhase.batch], hhandles, hlanded, by simp⟩
      · show log.sent = _
        rw [h.sent, hphase]
        simp [ShardPhase.ahead]
      · rw [recordsOf_append, h.records]
        simp [recordsOf, ShardCommand.record?]
  | finish hphase hqueue hclosed =>
      rw [List.append_nil, List.append_nil]
      have hhandles := h.handles
      have hsent := h.sent
      rw [hphase] at hhandles hlanded hsent
      exact ⟨hsent, h.records, h.sizes, by simp, by simp [ShardPhase.batch], hhandles, hlanded,
        fun _ => hqueue⟩

/-- A command that is sent waits behind the others. -/
theorem Carries.send (h : Carries writer log done batches) (hgoing : writer.phase ≠ .ended)
    (command : ShardCommand) :
    Carries (writer.send command).2 { log with sent := log.sent ++ [command] } done batches := by
  rw [send_of_going hgoing]
  refine ⟨?_, h.records, h.sizes, h.gathered, h.fits, h.handles, h.landed,
    fun hended => absurd hended hgoing⟩
  rw [h.sent]
  simp

theorem Carries.close (h : Carries writer log done batches) : Carries writer.close log done batches :=
  ⟨h.sent, h.records, h.sizes, h.gathered, h.fits, h.handles, h.landed, h.ended⟩

/-! ## What the file holds -/

/-- The bytes of batches in the file. -/
def laidOut (aggregate : Bool) (batches : List (List (Nat × Bytes))) : Bytes :=
  (batches.map fun batch => rendered aggregate (batch.map Prod.snd)).flatten

/-- What the file of a writer holds on a device that takes all bytes. -/
structure Fills (writer : ShardWriter) (first : Bytes) (log : WriterLog)
    (batches : List (List (Nat × Bytes))) : Prop where
  takes : writer.file.Takes
  pending : writer.file.pending = []
  content : writer.file.content = first ++ laidOut writer.aggregate batches
  written : ∀ entry ∈ log.told ++ writer.phase.toTell, entry.2 = .written
  /-- An answer without a fault comes when all that was sent before is in the file. -/
  kept : ∀ ticket content, (ticket, .ok (), content) ∈ log.answers →
    ∃ before later batches', log.sent = before ++ .flush ticket :: later ∧
      recordsOf before = batches'.flatten ∧ batches' <+: batches ∧
      content = first ++ laidOut writer.aggregate batches'

variable {first : Bytes}

theorem Fills.move (h : Fills writer first log batches) (hcarries : Carries writer log done batches)
    (hmove : Move writer reply finished written writer') :
    Fills writer' first (log.note writer'.file.content reply) (batches ++ written) := by
  cases hmove with
  | shift queue phase hahead htoTell =>
      rw [List.append_nil]
      exact ⟨h.takes, h.pending, h.content, by rw [htoTell]; exact h.written, h.kept⟩
  | write batch ticket hbatch hphase =>
      obtain ⟨file, hwrite, htakes, hpending, hcontent⟩ := writeBatch_of_takes h.takes h.pending batch
      have hwritten := h.written
      rw [hphase] at hwritten
      rw [hwrite]
      refine ⟨htakes, hpending, ?_, ?_, ?_⟩
      · rw [hcontent, h.content]
        simp [laidOut]
      · intro entry hentry
        rcases List.mem_append.mp hentry with hentry | hentry
        · exact hwritten entry (List.mem_append_left _ hentry)
        · obtain ⟨handle, -, rfl⟩ := List.mem_map.mp hentry
          rfl
      · intro ticket' content hmem
        obtain ⟨before, later, batches', hsent, hrecords, hbegins, hkept⟩ := h.kept ticket' content hmem
        exact ⟨before, later, batches', hsent, hrecords, hbegins.trans (List.prefix_append ..), hkept⟩
  | tell outcome handle handles ticket hphase =>
      rw [List.append_nil]
      have hwritten := h.written
      rw [hphase] at hwritten
      refine ⟨h.takes, h.pending, h.content, ?_, h.kept⟩
      simpa [WriterLog.note, ShardPhase.toTell, or_assoc] using hwritten
  -- there is nothing left to bring to the device
  | answer outcome ticket hphase =>
      rw [List.append_nil]
      have hfile : writer.file.sync.2 = writer.file := by
        simp only [AppendFile.sync, AppendFile.flush, h.pending, if_true]
      have hwritten := h.written
      have hsent := hcarries.sent
      rw [hphase] at hwritten hsent
      rw [hfile]
      refine ⟨h.takes, h.pending, h.content, hwritten, ?_⟩
      intro ticket' content hmem
      rcases List.mem_append.mp hmem with hmem | hmem
      · exact h.kept ticket' content hmem
      · simp only [List.mem_singleton, Prod.mk.injEq] at hmem
        obtain ⟨rfl, -, rfl⟩ := hmem
        refine ⟨done, writer.queue, batches, ?_, hcarries.records, List.prefix_refl _, h.content⟩
        simpa [ShardPhase.ahead, WriterLog.note] using hsent
  | finish hphase =>
      rw [List.append_nil]
      have hflush : writer.file.flush = (.ok (), writer.file) := by
        simp only [AppendFile.flush, h.pending, if_true]
      have hfile : writer.file.sync.2.flush.2 = writer.file := by
        simp only [AppendFile.sync, hflush]
      have hwritten := h.written
      rw [hphase] at hwritten
      rw [hfile]
      exact ⟨h.takes, h.pending, h.content, hwritten, h.kept⟩

theorem Fills.send (h : Fills writer first log batches) (hgoing : writer.phase ≠ .ended)
    (command : ShardCommand) :
    Fills (writer.send command).2 first { log with sent := log.sent ++ [command] } batches := by
  rw [send_of_going hgoing]
  refine ⟨h.takes, h.pending, h.content, h.written, ?_⟩
  intro ticket content hmem
  obtain ⟨before, later, batches', hsent, hrest⟩ := h.kept ticket content hmem
  exact ⟨before, later ++ [command], batches', by simp [hsent], hrest⟩

theorem Fills.close (h : Fills writer first log batches) : Fills writer.close first log batches :=
  ⟨h.takes, h.pending, h.content, h.written, h.kept⟩

end ShardWriter

end EventReplay
