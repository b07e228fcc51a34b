import Mathlib.Tactic.Common
import EventReplay.Proofs.RecordLines
import EventReplay.Sink.FileStream

/-!
# What a writer makes of its commands

On a device that takes all bytes a writer brings the records that it is sent to its file, each once and
in the order in which they were sent, batch after batch (`ShardWriter.Wrote`), whenever it takes its
steps and however many commands it finds waiting then.
-/

set_option autoImplicit false

namespace EventReplay

/-! ## Files on a device that takes all bytes -/

namespace AppendFile

/-- The device takes all bytes. -/
structure Takes (file : AppendFile) : Prop where
  answers : file.answers = []
  afterwards : file.afterwards = .takes

variable {file : AppendFile}

theorem toDevice_of_takes (h : file.Takes) (bytes : Bytes) :
    file.toDevice bytes = (bytes.length, { file with content := file.content ++ bytes }) := by
  obtain ⟨content, pending, answers, afterwards, durable⟩ := file
  obtain ⟨rfl, rfl⟩ := h
  simp [toDevice]

theorem flush_of_takes (h : file.Takes) :
    file.flush = (.ok (), { file with content := file.written, pending := [] }) := by
  unfold flush
  split
  · rename_i hpending
    obtain ⟨content, pending, answers, afterwards, durable⟩ := file
    obtain rfl : pending = [] := hpending
    simp [written]
  · simp [toDevice_of_takes h, written]

/-- A piece is written behind all that was written before. -/
theorem write_of_takes (h : file.Takes) (bytes : Bytes) :
    ∃ file', file.write bytes = (.ok (), file') ∧ file'.Takes ∧
      file'.written = file.written ++ bytes := by
  have henter : ∀ {file : AppendFile}, file.Takes →
      (capacity ≤ bytes.length → file.pending = []) →
      ∃ file', (if capacity ≤ bytes.length then file.writeThrough bytes
        else (.ok (), { file with pending := file.pending ++ bytes })) = (.ok (), file') ∧
          file'.Takes ∧ file'.written = file.written ++ bytes := by
    intro file h hpending
    split
    · rename_i hlong
      refine ⟨{ file with content := file.content ++ bytes }, ?_, ⟨h.answers, h.afterwards⟩, ?_⟩
      · simp [writeThrough, toDevice_of_takes h]
      · simp [written, hpending hlong]
    · exact ⟨{ file with pending := file.pending ++ bytes }, rfl, ⟨h.answers, h.afterwards⟩,
        by simp [written]⟩
  -- a piece that does not fit behind what is pending finds nothing pending any more
  unfold write
  dsimp only
  split
  · rename_i hfits
    apply henter h
    intro hlong
    have hcapacity : 0 < capacity := by decide
    apply List.length_eq_zero_iff.mp
    omega
  · rw [flush_of_takes h]
    obtain ⟨file', hwrite, htakes, hwritten⟩ := @henter { file with
      content := file.written, pending := [] } ⟨h.answers, h.afterwards⟩ fun _ => rfl
    exact ⟨file', hwrite, htakes, by rw [hwritten]; simp [written]⟩

theorem writeAll_of_takes (h : file.Takes) (pieces : List Bytes) :
    ∃ file', file.writeAll pieces = (.ok (), file') ∧ file'.Takes ∧
      file'.written = file.written ++ pieces.flatten := by
  induction pieces generalizing file with
  | nil => exact ⟨file, rfl, h, by simp⟩
  | cons piece pieces ih =>
      obtain ⟨file₁, hwrite, htakes, hwritten⟩ := write_of_takes h piece
      obtain ⟨file₂, hrest, htakes', hwritten'⟩ := ih htakes
      refine ⟨file₂, ?_, htakes', ?_⟩
      · simp only [writeAll, hwrite, hrest]
      · rw [hwritten', hwritten, List.flatten_cons, List.append_assoc]

/-! ### What has been written without failure -/

variable {file' : AppendFile}

/-- A device takes a beginning of the bytes. -/
theorem toDevice_eq {bytes : Bytes} {taken : Nat} (h : file.toDevice bytes = (taken, file')) :
    file'.content = file.content ++ bytes.take taken ∧ file'.pending = file.pending := by
  unfold toDevice at h
  cases h
  exact ⟨rfl, rfl⟩

/-- A buffer that is handed over is all with the device. -/
theorem flush_eq_ok (h : file.flush = (.ok (), file')) :
    file'.pending = [] ∧ file'.content = file.written := by
  unfold flush at h
  split at h
  next hpending =>
    cases h
    exact ⟨hpending, by rw [written, hpending, List.append_nil]⟩
  next =>
    generalize hdevice : file.toDevice file.pending = answer at h
    obtain ⟨taken, between⟩ := answer
    obtain ⟨hcontent, -⟩ := toDevice_eq hdevice
    simp only [Prod.mk.injEq] at h
    obtain ⟨hresult, rfl⟩ := h
    have hleft : file.pending.drop taken = [] := by
      by_contra hne
      simp [hne] at hresult
    refine ⟨hleft, ?_⟩
    rw [hcontent, List.take_of_length_le (List.drop_eq_nil_iff.mp hleft), written]

/-- What is written without failure stands behind all that was written before. -/
theorem write_eq_ok {bytes : Bytes} (h : file.write bytes = (.ok (), file')) :
    file'.written = file.written ++ bytes := by
  have henter : ∀ {file file' : AppendFile}, (capacity ≤ bytes.length → file.pending = []) →
      (if capacity ≤ bytes.length then file.writeThrough bytes
        else (.ok (), { file with pending := file.pending ++ bytes })) = (.ok (), file') →
      file'.written = file.written ++ bytes := by
    intro file file' hpending h
    split at h
    next hlong =>
      unfold writeThrough at h
      generalize hdevice : file.toDevice bytes = answer at h
      obtain ⟨taken, between⟩ := answer
      obtain ⟨hcontent, hbuffer⟩ := toDevice_eq hdevice
      simp only [Prod.mk.injEq] at h
      obtain ⟨hresult, rfl⟩ := h
      have hall : taken = bytes.length := by
        by_contra hne
        simp [hne] at hresult
      rw [written, written, hbuffer, hpending hlong, hcontent, hall, List.take_length, List.append_nil,
        List.append_nil]
    next =>
      cases h
      rw [written, written, List.append_assoc]
  unfold write at h
  dsimp only at h
  split at h
  next hfits =>
    refine henter (fun hlong => ?_) h
    have hcapacity : 0 < capacity := by decide
    apply List.length_eq_zero_iff.mp
    omega
  next =>
    split at h
    next flushed hflush =>
      obtain ⟨hempty, hcontent⟩ := flush_eq_ok hflush
      rw [henter (fun _ => hempty) h, written, hempty, hcontent, List.append_nil]
    next => simp at h

theorem writeAll_eq_ok {pieces : List Bytes} (h : file.writeAll pieces = (.ok (), file')) :
    file'.written = file.written ++ pieces.flatten := by
  induction pieces generalizing file with
  | nil =>
      cases h
      rw [List.flatten_nil, List.append_nil]
  | cons piece pieces ih =>
      rw [writeAll] at h
      split at h
      next between hwrite =>
        rw [ih h, write_eq_ok hwrite, List.flatten_cons, List.append_assoc]
      next => simp at h

end AppendFile

/-! ## Commands -/

/-- The record that a command brings. -/
def ShardCommand.payload? : ShardCommand → Option Bytes
  | append _ payload => some payload
  | flush _ => none

/-- The ticket of a command to flush. -/
def ShardCommand.ticket? : ShardCommand → Option Nat
  | append .. => none
  | flush ticket => some ticket

/-- The ticket that a reply answers. -/
def ShardReply.ticket? : ShardReply → Option Nat
  | told .. => none
  | flushed ticket _ => some ticket

/-- The commands of the records of a batch. -/
def appends (batch : List (Nat × Bytes)) : List ShardCommand :=
  batch.map fun record => .append record.1 record.2

/-- The commands that a writer has taken and not brought to an end. -/
def ShardPhase.ahead : ShardPhase → List ShardCommand
  | .waiting | .ended => []
  | .gathering batch => appends batch
  | .writing batch ticket => appends batch ++ ticket.toList.map .flush
  | .telling _ _ ticket => ticket.toList.map .flush

theorem filterMap_payload?_appends (batch : List (Nat × Bytes)) :
    (appends batch).filterMap ShardCommand.payload? = batch.map Prod.snd := by
  induction batch with
  | nil => rfl
  | cons record batch ih => simpa [appends, ShardCommand.payload?] using ih

theorem filterMap_ticket?_appends (batch : List (Nat × Bytes)) :
    (appends batch).filterMap ShardCommand.ticket? = [] := by
  simp [appends, ShardCommand.ticket?]

namespace ShardWriter

/-! ## From the queue to the file -/

/-- The bytes of a batch in the file. -/
def rendered (aggregate : Bool) (batch : List Bytes) : Bytes :=
  (if aggregate then aggregatePieces batch else linePieces batch).flatten

/-- What a writer has done of what it was sent, and the batches that it has written. -/
structure Wrote (writer : ShardWriter) (sent done : List ShardCommand) (batches : List (List Bytes)) :
    Prop where
  sent : sent = done ++ (writer.phase.ahead ++ writer.queue)
  records : done.filterMap ShardCommand.payload? = batches.flatten
  nonempty : ∀ batch ∈ batches, batch ≠ []
  content : writer.file.content = (batches.map (rendered writer.aggregate)).flatten
  takes : writer.file.Takes
  pending : writer.file.pending = []
  gathered : ∀ batch, writer.phase = .gathering batch → batch ≠ []
  going : writer.phase ≠ .ended
  isOpen : writer.closed = false

variable {writer : ShardWriter} {sent done : List ShardCommand} {batches : List (List Bytes)}

theorem send_of_going (hgoing : writer.phase ≠ .ended) (command : ShardCommand) :
    writer.send command = (none, { writer with queue := writer.queue ++ [command] }) := by
  unfold ShardWriter.send
  split
  · exact absurd ‹_› hgoing
  · rfl

/-- A command that is sent waits behind the others. -/
theorem Wrote.send (h : Wrote writer sent done batches) (command : ShardCommand) :
    (writer.send command).1 = none ∧
    Wrote (writer.send command).2 (sent ++ [command]) done batches := by
  rw [send_of_going h.going]
  refine ⟨rfl, ⟨?_, h.records, h.nonempty, h.content, h.takes, h.pending, h.gathered, h.going,
    h.isOpen⟩⟩
  rw [h.sent]
  simp

/-- A batch goes to the file as one piece of it. -/
theorem writeBatch_of_takes (htakes : writer.file.Takes) (hpending : writer.file.pending = [])
    (batch : List (Nat × Bytes)) :
    ∃ file, writer.writeBatch batch = (.written, file) ∧ file.Takes ∧ file.pending = [] ∧
      file.content = writer.file.content ++ rendered writer.aggregate (batch.map Prod.snd) := by
  obtain ⟨file, hwrite, htakes', hwritten⟩ :=
    AppendFile.writeAll_of_takes htakes (writer.pieces (batch.map Prod.snd))
  refine ⟨{ file with content := file.written, pending := [] }, ?_,
    ⟨htakes'.answers, htakes'.afterwards⟩, rfl, ?_⟩
  · simp only [writeBatch, hwrite, AppendFile.flush_of_takes htakes']
  · rw [hwritten]
    simp [AppendFile.written, hpending, rendered, pieces]

/-- The file stays as it is, and no command comes to its end. -/
theorem Wrote.stay (h : Wrote writer sent done batches) (queue : List ShardCommand)
    (phase : ShardPhase) (heq : phase.ahead ++ queue = writer.phase.ahead ++ writer.queue)
    (hbatch : ∀ batch, phase = .gathering batch → batch ≠ []) (hphase : phase ≠ .ended) :
    Wrote { writer with queue, phase } sent (done ++ []) batches := by
  rw [List.append_nil]
  exact ⟨by rw [h.sent, ← heq], h.records, h.nonempty, h.content, h.takes, h.pending, hbatch, hphase,
    h.isOpen⟩

/-- A batch is written. -/
theorem Wrote.write (h : Wrote writer sent done batches) {batch : List (Nat × Bytes)}
    {ticket : Option Nat} (hbatch : batch ≠ []) (hphase : writer.phase = .writing batch ticket) :
    (writer.writeBatch batch).1 = .written ∧
    Wrote { writer with file := (writer.writeBatch batch).2,
                        phase := .telling .written (batch.map Prod.fst) ticket }
      sent (done ++ appends batch) (batches ++ [batch.map Prod.snd]) := by
  obtain ⟨file, hwrite, htakes, hpending, hcontent⟩ := writeBatch_of_takes h.takes h.pending batch
  rw [hwrite]
  refine ⟨rfl, ⟨?_, ?_, ?_, ?_, htakes, hpending, by simp, by simp, h.isOpen⟩⟩
  · rw [h.sent, hphase]
    simp [ShardPhase.ahead]
  · rw [List.filterMap_append, h.records, filterMap_payload?_appends]
    simp
  · intro b hb
    rcases List.mem_append.mp hb with hb | hb
    · exact h.nonempty b hb
    · rw [List.mem_singleton.mp hb]
      simpa using hbatch
  · rw [hcontent, h.content]
    simp

/-- A flush is answered; there is nothing left to bring to the device. -/
theorem Wrote.answer (h : Wrote writer sent done batches) {outcome : Outcome} {ticket : Nat}
    (hphase : writer.phase = .telling outcome [] (some ticket)) :
    Wrote { writer with file := writer.file.sync.2, phase := .waiting } sent (done ++ [.flush ticket])
      batches := by
  have hfile : writer.file.sync.2 = writer.file := by
    simp only [AppendFile.sync, AppendFile.flush, h.pending, if_true]
  rw [hfile]
  refine ⟨?_, ?_, h.nonempty, h.content, h.takes, h.pending, by simp, by simp, h.isOpen⟩
  · rw [h.sent, hphase]
    simp [ShardPhase.ahead]
  · simp [h.records, ShardCommand.payload?]

/-- A step brings the writer further, and an answer to a flush says that it has come to it. -/
theorem Wrote.step (h : Wrote writer sent done batches) :
    ∃ done' batches', Wrote writer.step.2 sent (done ++ done') batches' ∧
      done'.filterMap ShardCommand.ticket? = (writer.step.1.bind ShardReply.ticket?).toList ∧
      writer.step.2.aggregate = writer.aggregate := by
  obtain ⟨file, aggregate, maxBatch, queue, closed, phase⟩ := writer
  have hopen : closed = false := h.isOpen
  cases phase with
  | waiting =>
      cases queue with
      | nil =>
          simp only [ShardWriter.step, hopen, Bool.false_eq_true, if_false]
          exact ⟨[], batches, hopen ▸ h.stay [] .waiting rfl (by simp) (by simp), rfl, trivial⟩
      | cons command queue =>
          cases command with
          | append handle payload =>
              refine ⟨[], batches, h.stay queue (.gathering [(handle, payload)]) rfl ?_ (by simp), rfl,
                rfl⟩
              rintro _ ⟨⟩
              exact List.cons_ne_nil _ _
          | flush ticket =>
              exact ⟨[], batches, h.stay queue (.writing [] (some ticket)) rfl (by simp) (by simp), rfl,
                rfl⟩
  -- a batch that is full, or has a flush or nothing behind it, goes to the file
  | gathering batch =>
      have hwriting := h.stay queue (.writing batch none) (by simp [ShardPhase.ahead]) (by simp)
        (by simp)
      simp only [ShardWriter.step]
      split
      · exact ⟨[], batches, hwriting, rfl, rfl⟩
      · cases queue with
        | nil => exact ⟨[], batches, hwriting, rfl, rfl⟩
        | cons command queue =>
            cases command with
            | append handle payload =>
                refine ⟨[], batches, h.stay queue (.gathering (batch ++ [(handle, payload)])) ?_ ?_
                  (by simp), rfl, rfl⟩
                · simp [ShardPhase.ahead, appends]
                · rintro _ ⟨⟩
                  simp
            | flush ticket =>
                refine ⟨[], batches, h.stay queue (.writing batch (some ticket)) ?_ (by simp) (by simp),
                  rfl, rfl⟩
                simp [ShardPhase.ahead]
  -- an empty batch stands for a flush that has come first
  | writing batch ticket =>
      cases batch with
      | nil =>
          exact ⟨[], batches, h.stay queue (.telling .written [] ticket) rfl (by simp) (by simp), rfl,
            rfl⟩
      | cons record batch =>
          obtain ⟨houtcome, hwrote⟩ := h.write (List.cons_ne_nil record batch) rfl
          refine ⟨appends (record :: batch), batches ++ [(record :: batch).map Prod.snd], ?_,
            filterMap_ticket?_appends _, rfl⟩
          simp only [ShardWriter.step, houtcome]
          exact hwrote
  | telling outcome handles ticket =>
      cases handles with
      | cons handle handles =>
          have hstay := h.stay queue (.telling outcome handles ticket) rfl (by simp) (by simp)
          exact ⟨[], batches, hstay, rfl, rfl⟩
      | nil =>
          cases ticket with
          | none => exact ⟨[], batches, h.stay queue .waiting rfl (by simp) (by simp), rfl, rfl⟩
          | some ticket => exact ⟨[.flush ticket], batches, h.answer rfl, rfl, rfl⟩
  | ended => exact absurd rfl h.going

/-- A writer that has answered a flush, where only one is asked for, behind some records, has written
these records. -/
theorem Wrote.of_flushed (h : Wrote writer sent done batches) {later : List ShardCommand}
    {records : List (Nat × Bytes)} {ticket : Nat}
    (hsent : sent ++ later = appends records ++ [.flush ticket])
    (hflushed : done.filterMap ShardCommand.ticket? ≠ []) :
    batches.flatten = records.map Prod.snd := by
  have hall : done ++ (writer.phase.ahead ++ writer.queue ++ later) =
      appends records ++ [.flush ticket] := by
    rw [← hsent, h.sent]
    simp only [List.append_assoc]
  -- the one request to flush stands last, so nothing is left behind it
  have hdone : done = appends records ++ [.flush ticket] := by
    rcases List.eq_nil_or_concat (writer.phase.ahead ++ writer.queue ++ later) with
      hnil | ⟨rest, last, hrest⟩
    · rw [← hall, hnil, List.append_nil]
    · have hinit : appends records ++ [.flush ticket] = (done ++ rest) ++ [last] := by
        rw [← hall, hrest, List.concat_eq_append, List.append_assoc]
      have hbegins := congrArg (List.filterMap ShardCommand.ticket?) (List.append_inj' hinit rfl).1
      rw [filterMap_ticket?_appends, List.filterMap_append] at hbegins
      exact absurd (List.append_eq_nil_iff.mp hbegins.symm).1 hflushed
  rw [← h.records, hdone, List.filterMap_append, filterMap_payload?_appends]
  simp [ShardCommand.payload?]

/-! ## The lines of the file -/

/-- The line of a batch that is one line. -/
def aggregateLine (batch : List Bytes) : Bytes := (aggregatePieces batch).flatten

/-- The lines of batches. -/
def fileLines (aggregate : Bool) (batches : List (List Bytes)) : List Bytes :=
  if aggregate then batches.map aggregateLine
  else batches.flatten.map fun payload => payload ++ [Bytes.lineFeed]

theorem flatten_rendered (aggregate : Bool) (batches : List (List Bytes)) :
    (batches.map (rendered aggregate)).flatten = (fileLines aggregate batches).flatten := by
  cases aggregate with
  | true => rfl
  | false =>
      induction batches with
      | nil => rfl
      | cons batch batches ih =>
          have hbatch : rendered false batch =
              (batch.map fun payload => payload ++ [Bytes.lineFeed]).flatten := by
            simp [rendered, linePieces, List.flatMap, List.flatten_flatten, Function.comp_def]
          simp only [fileLines, Bool.false_eq_true, if_false, List.map_cons, List.flatten_cons,
            List.map_append, List.flatten_append, hbatch] at ih ⊢
          rw [ih]

theorem mem_of_mem_intersperse {separator piece : Bytes} {pieces : List Bytes}
    (h : piece ∈ pieces.intersperse separator) : piece = separator ∨ piece ∈ pieces := by
  induction pieces with
  | nil => simp at h
  | cons first pieces ih =>
      cases pieces with
      | nil => exact .inr (by simpa using h)
      | cons second pieces =>
          rw [List.intersperse_cons_cons] at h
          rcases List.mem_cons.mp h with rfl | h
          · exact .inr (.head _)
          · rcases List.mem_cons.mp h with rfl | h
            · exact .inl rfl
            · exact (ih h).imp_right (.tail _)

theorem isLine_aggregateLine {batch : List Bytes} (h : ∀ payload ∈ batch, Bytes.lineFeed ∉ payload) :
    Bytes.IsLine (aggregateLine batch) := by
  refine ⟨ascii '[' :: ((batch.intersperse [ascii ',']).flatten ++ [ascii ']']), ?_, ?_⟩
  · simp [aggregateLine, aggregatePieces]
  -- brackets and commas are no line feeds
  · have hitems : Bytes.lineFeed ∉ (batch.intersperse [ascii ',']).flatten := by
      intro hmem
      obtain ⟨piece, hpiece, hb⟩ := List.mem_flatten.mp hmem
      rcases mem_of_mem_intersperse hpiece with rfl | hpiece
      · exact absurd hb (by decide)
      · exact h piece hpiece hb
    simp only [List.mem_cons, List.mem_append, List.not_mem_nil, or_false, not_or]
    exact ⟨by decide, hitems, by decide⟩

/-- Where records hold no line feed, the lines of their batches in a file are as they were written. -/
theorem lines_rendered (aggregate : Bool) {batches : List (List Bytes)}
    (h : ∀ payload ∈ batches.flatten, Bytes.lineFeed ∉ payload) :
    Bytes.lines (batches.map (rendered aggregate)).flatten = fileLines aggregate batches := by
  rw [flatten_rendered]
  apply Bytes.lines_flatten
  intro line hline
  unfold fileLines at hline
  split at hline
  · obtain ⟨batch, hbatch, rfl⟩ := List.mem_map.mp hline
    exact isLine_aggregateLine fun payload hpayload =>
      h payload (List.mem_flatten.mpr ⟨batch, hbatch, hpayload⟩)
  · obtain ⟨payload, hpayload, rfl⟩ := List.mem_map.mp hline
    exact ⟨payload, rfl, h payload hpayload⟩

/-- Where records hold no line feed, the lines of the file are those of the batches. -/
theorem Wrote.lines (h : Wrote writer sent done batches)
    (hpayloads : ∀ payload ∈ batches.flatten, Bytes.lineFeed ∉ payload) :
    Bytes.lines writer.file.content = fileLines writer.aggregate batches := by
  rw [h.content]
  exact lines_rendered writer.aggregate hpayloads

end ShardWriter

end EventReplay
