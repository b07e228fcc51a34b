import EventReplay.Proofs.WriterMoves

/-!
# What a failing device leaves of lines

A write that fails leaves a beginning of what was to be written, in the file or in the buffer, and the next
batch comes behind that. So whatever a device refuses, what a writer has written is made of beginnings of
lines (`LinePart`), and those of batches that were told to be written are whole lines in the file. Every move
keeps this (`ShardWriter.Leaves.move`).
-/

set_option autoImplicit false

namespace EventReplay

/-! ## Files that are written in part -/

namespace AppendFile

/-- Handing the buffer to the device loses nothing. -/
theorem written_flush (file : AppendFile) : file.flush.2.written = file.written := by
  unfold flush
  split
  · rfl
  · obtain ⟨taken, answers, -, heq⟩ := file.toDevice_spec file.pending
    rw [heq]
    simp [written]

theorem written_sync (file : AppendFile) : file.sync.2.written = file.written := by
  have hflush := file.written_flush
  unfold sync
  generalize file.flush = flushed at hflush
  obtain ⟨_ | _, file'⟩ := flushed <;> exact hflush

/-- A beginning of what is written is kept. -/
theorem write_part (file : AppendFile) (bytes : Bytes) :
    ∃ part, part <+: bytes ∧ (file.write bytes).2.written = file.written ++ part := by
  have henter : ∀ {file : AppendFile}, (capacity ≤ bytes.length → file.pending = []) →
      let entered := if capacity ≤ bytes.length then file.writeThrough bytes
        else (.ok (), { file with pending := file.pending ++ bytes })
      ∃ part, part <+: bytes ∧ entered.2.written = file.written ++ part := by
    intro file hpending
    dsimp only
    split
    · rename_i hlong
      obtain ⟨taken, answers, -, heq⟩ := file.toDevice_spec bytes
      exact ⟨bytes.take taken, List.take_prefix _ _, by simp [writeThrough, heq, written, hpending hlong]⟩
    · exact ⟨bytes, List.prefix_refl _, by simp [written]⟩
  have hcapacity : 0 < capacity := by decide
  unfold write
  dsimp only
  split
  · apply henter
    intro hlong
    apply List.length_eq_zero_iff.mp
    omega
  · have hsame := file.written_flush
    have hok := file.flush_spec.2
    rcases hflush : file.flush with ⟨_ | _, file'⟩
    · rw [hflush] at hsame
      exact ⟨[], List.nil_prefix, by rw [List.append_nil]; exact hsame⟩
    · rw [hflush] at hsame hok
      obtain ⟨part, hpart, hwritten⟩ := @henter file' fun _ => (hok rfl).2
      exact ⟨part, hpart, by rw [hwritten]; exact congrArg (· ++ part) hsame⟩

theorem writeAll_part (file : AppendFile) (pieces : List Bytes) :
    ∃ part, part <+: pieces.flatten ∧ (file.writeAll pieces).2.written = file.written ++ part := by
  induction pieces generalizing file with
  | nil => exact ⟨[], List.nil_prefix, (List.append_nil _).symm⟩
  | cons piece pieces ih =>
      obtain ⟨part, hpart, hwritten⟩ := file.write_part piece
      have hok := (file.write_spec piece).2
      simp only [writeAll, List.flatten_cons]
      rcases hwrite : file.write piece with ⟨_ | _, file'⟩
      · rw [hwrite] at hwritten
        exact ⟨part, hpart.trans (List.prefix_append _ _), hwritten⟩
      · rw [hwrite] at hok
        obtain ⟨rest, hrest, hwritten'⟩ := ih file'
        refine ⟨piece ++ rest, (List.prefix_append_right_inj _).mpr hrest, ?_⟩
        rw [← List.append_assoc, ← hok rfl]
        exact hwritten'

end AppendFile

namespace ShardWriter

variable {writer writer' : ShardWriter}

/-- A beginning of what a batch comes to is kept, and nothing waits in the buffer behind a batch that is
written. -/
theorem writeBatch_part (writer : ShardWriter) (batch : List (Nat × Bytes)) :
    ∃ part, part <+: rendered writer.aggregate (batch.map Prod.snd) ∧
      (writer.writeBatch batch).2.written = writer.file.written ++ part ∧
      ((writer.writeBatch batch).1 = .written →
        part = rendered writer.aggregate (batch.map Prod.snd) ∧ (writer.writeBatch batch).2.pending = []) := by
  obtain ⟨part, hpart, hwritten⟩ := writer.file.writeAll_part (writer.pieces (batch.map Prod.snd))
  have hok := (writer.file.writeAll_spec (writer.pieces (batch.map Prod.snd))).2
  refine ⟨part, hpart, ?_⟩
  unfold writeBatch
  rcases hwrite : writer.file.writeAll (writer.pieces (batch.map Prod.snd)) with ⟨_ | _, file⟩
  · rw [hwrite] at hwritten
    exact ⟨hwritten, by simp⟩
  · rw [hwrite] at hwritten hok
    dsimp only at hwritten hok ⊢
    have hsame := file.written_flush
    have hempty := file.flush_spec.2
    have hwhole : part = rendered writer.aggregate (batch.map Prod.snd) :=
      List.append_cancel_left (hwritten.symm.trans (hok rfl))
    rcases hflush : file.flush with ⟨_ | _, file'⟩
    · rw [hflush] at hsame
      exact ⟨hsame.trans hwritten, by simp⟩
    · rw [hflush] at hsame hempty
      exact ⟨hsame.trans hwritten, fun _ => ⟨hwhole, (hempty rfl).2⟩⟩

/-! ## Lines -/

/-- Payloads that one line can hold. -/
def FitLine (aggregate : Bool) (payloads : List Bytes) : Prop :=
  payloads ≠ [] ∧ (aggregate = false → payloads.length = 1)

/-- The records of a batch, line by line. -/
def batchLines (aggregate : Bool) (batch : List (Nat × Bytes)) : List (List (Nat × Bytes)) :=
  if aggregate then [batch] else batch.map fun record => [record]

theorem flatten_batchLines (aggregate : Bool) (batch : List (Nat × Bytes)) :
    (batchLines aggregate batch).flatten = batch := by
  cases aggregate with
  | true => exact List.flatten_singleton
  | false => simp [batchLines, ← List.flatMap_def]

theorem rendered_batchLines (aggregate : Bool) (batch : List (Nat × Bytes)) :
    (batchLines aggregate batch).flatMap (fun line => rendered aggregate (line.map Prod.snd)) =
      rendered aggregate (batch.map Prod.snd) := by
  cases aggregate with
  | true => exact List.append_nil _
  | false =>
      induction batch with
      | nil => rfl
      | cons record batch ih =>
          have hcons : rendered false ((record :: batch).map Prod.snd) =
              rendered false ([record].map Prod.snd) ++ rendered false (batch.map Prod.snd) := by
            simp [rendered, linePieces]
          rw [hcons, ← ih]
          rfl

theorem fitLine_batchLines (aggregate : Bool) {batch : List (Nat × Bytes)} (hne : batch ≠ []) :
    ∀ line ∈ batchLines aggregate batch, FitLine aggregate (line.map Prod.snd) := by
  intro line hline
  cases aggregate with
  | true =>
      obtain rfl := List.mem_singleton.mp hline
      exact ⟨by simpa using hne, by simp⟩
  | false =>
      obtain ⟨record, -, rfl⟩ := List.mem_map.mp hline
      exact ⟨by simp, by simp⟩

end ShardWriter

open ShardWriter

/-! ## Parts of lines -/

/-- What has been written of a line, and what is told of the records in it. -/
structure LinePart where
  line : List (Nat × Bytes)
  outcome : Outcome
  part : Bytes

namespace LinePart

/-- The whole line. -/
def whole (p : LinePart) (aggregate : Bool) : Bytes := rendered aggregate (p.line.map Prod.snd)

/-- What is told of the records of the line. -/
def told (p : LinePart) : List (Nat × Outcome) := p.line.map fun record => (record.1, p.outcome)

/-- The part is a beginning of the line, and of a line that is told to be written it is the whole. -/
structure Fits (p : LinePart) (aggregate : Bool) : Prop where
  line : FitLine aggregate (p.line.map Prod.snd)
  begins : p.part <+: p.whole aggregate
  whole : p.outcome = .written → p.part = p.whole aggregate

/-- One part of a line is a beginning of another. -/
structure Cut (q p : LinePart) : Prop where
  line : q.line = p.line
  outcome : q.outcome = p.outcome
  begins : q.part <+: p.part

theorem Fits.cut {p q : LinePart} {aggregate : Bool} (h : p.Fits aggregate) (hcut : Cut q p)
    (hfailed : q.outcome ≠ .written) : q.Fits aggregate := by
  have hwhole : q.whole aggregate = p.whole aggregate := by
    rw [LinePart.whole, LinePart.whole, hcut.line]
  refine ⟨hcut.line ▸ h.line, ?_, fun hwritten => absurd hwritten hfailed⟩
  rw [hwhole]
  exact hcut.begins.trans h.begins

/-- A beginning of what is made of parts is made of beginnings of them. -/
theorem exists_cut {ps : List LinePart} {bytes : Bytes} (h : bytes <+: ps.flatMap part) :
    ∃ qs, List.Forall₂ Cut qs ps ∧ qs.flatMap part = bytes := by
  induction ps generalizing bytes with
  | nil => exact ⟨[], .nil, (List.prefix_nil.mp h).symm⟩
  | cons p ps ih =>
      obtain ⟨rest, hrest⟩ := h
      rw [List.flatMap_cons, List.append_eq_append_iff] at hrest
      obtain ⟨missing, hmissing, -⟩ | ⟨more, rfl, hmore⟩ := hrest
      · obtain ⟨qs, hcut, hnone⟩ := ih List.nil_prefix
        refine ⟨{ p with part := bytes } :: qs, .cons ⟨rfl, rfl, ⟨missing, hmissing.symm⟩⟩ hcut, ?_⟩
        rw [List.flatMap_cons, hnone, List.append_nil]
      · obtain ⟨qs, hcut, hbytes⟩ := ih ⟨rest, hmore.symm⟩
        refine ⟨p :: qs, .cons ⟨rfl, rfl, List.prefix_refl _⟩ hcut, ?_⟩
        rw [List.flatMap_cons, hbytes]

theorem flatMap_cut {ps qs : List LinePart} (h : List.Forall₂ Cut qs ps) :
    qs.flatMap line = ps.flatMap line ∧ qs.flatMap told = ps.flatMap told := by
  induction h with
  | nil => exact ⟨rfl, rfl⟩
  | cons hcut _ ih =>
      rw [List.flatMap_cons, List.flatMap_cons, List.flatMap_cons, List.flatMap_cons, ih.1, ih.2, told, told,
        hcut.line, hcut.outcome]
      exact ⟨rfl, rfl⟩

theorem mem_cut {ps qs : List LinePart} (h : List.Forall₂ Cut qs ps) : ∀ q ∈ qs, ∃ p ∈ ps, Cut q p := by
  induction h with
  | nil => simp
  | cons hcut _ ih =>
      rw [List.forall_mem_cons]
      exact ⟨⟨_, List.mem_cons_self, hcut⟩, fun q hq =>
        (ih q hq).imp fun p hp => ⟨List.mem_cons_of_mem _ hp.1, hp.2⟩⟩

end LinePart

namespace ShardWriter

open LinePart

variable {writer writer' : ShardWriter} {reply : Option ShardReply} {finished : List ShardCommand}
  {batches : List (List (Nat × Bytes))} {log : WriterLog} {first : Bytes}

/-- What a batch leaves. -/
theorem exists_parts (writer : ShardWriter) {batch : List (Nat × Bytes)} (hne : batch ≠ []) :
    ∃ ps : List LinePart, (∀ p ∈ ps, p.Fits writer.aggregate ∧ p.outcome = (writer.writeBatch batch).1) ∧
      ps.flatMap line = batch ∧
      ps.flatMap told = batch.map (fun record => (record.1, (writer.writeBatch batch).1)) ∧
      (writer.writeBatch batch).2.written = writer.file.written ++ ps.flatMap part ∧
      ((writer.writeBatch batch).1 = .written → (writer.writeBatch batch).2.pending = []) := by
  obtain ⟨part', hpart, hwritten, hwhole⟩ := writer.writeBatch_part batch
  generalize (writer.writeBatch batch).1 = outcome at hwhole ⊢
  let ps : List LinePart := (batchLines writer.aggregate batch).map fun line =>
    ⟨line, outcome, rendered writer.aggregate (line.map Prod.snd)⟩
  have hparts : ps.flatMap part = rendered writer.aggregate (batch.map Prod.snd) := by
    rw [← rendered_batchLines, List.flatMap_map]
  have hlines : ps.flatMap line = batch := by
    rw [List.flatMap_map]
    exact List.flatMap_id'.trans (flatten_batchLines _ _)
  have htold : ps.flatMap told = batch.map fun record => (record.1, outcome) := by
    conv_rhs => rw [← flatten_batchLines writer.aggregate batch, List.map_flatten]
    rw [List.flatMap_map]
    rfl
  have hfits : ∀ p ∈ ps, p.Fits writer.aggregate ∧ p.outcome = outcome := by
    intro p hp
    obtain ⟨line, hline, rfl⟩ := List.mem_map.mp hp
    exact ⟨⟨fitLine_batchLines _ hne line hline, List.prefix_refl _, fun _ => rfl⟩, rfl⟩
  by_cases hout : outcome = .written
  · exact ⟨ps, hfits, hlines, htold, by rw [hwritten, hparts, (hwhole hout).1], fun _ => (hwhole hout).2⟩
  · rw [← hparts] at hpart
    obtain ⟨qs, hcut, hbytes⟩ := exists_cut hpart
    obtain ⟨hline, htold'⟩ := flatMap_cut hcut
    refine ⟨qs, fun q hq => ?_, hline.trans hlines, htold'.trans htold, by rw [hwritten, hbytes],
      fun hwritten => absurd hwritten hout⟩
    obtain ⟨p, hp, hqp⟩ := mem_cut hcut q hq
    obtain ⟨hfit, rfl⟩ := hfits p hp
    exact ⟨hfit.cut hqp (hqp.outcome ▸ hout), hqp.outcome⟩

/-! ## Writers -/

/-- What a writer has written behind the first content of its file is made of parts of lines. Those that are
settled are in the file. No others are told to be written, and they are in the file up to where the buffer
begins. -/
structure Leaves (writer : ShardWriter) (first : Bytes) (log : WriterLog)
    (settled unsettled : List LinePart) : Prop where
  fits : ∀ p ∈ settled ++ unsettled, p.Fits writer.aggregate
  records : recordsOf log.sent = (settled ++ unsettled).flatMap line ++
    (writer.phase.batch ++ recordsOf writer.queue)
  told : (settled ++ unsettled).flatMap LinePart.told = log.told ++ writer.phase.toTell
  failed : ∀ p ∈ unsettled, p.outcome ≠ .written
  content : ∃ rest, writer.file.content = first ++ settled.flatMap part ++ rest ∧
    rest ++ writer.file.pending = unsettled.flatMap part

variable {settled unsettled : List LinePart}

theorem Leaves.written_eq (h : Leaves writer first log settled unsettled) :
    writer.file.written = first ++ (settled ++ unsettled).flatMap part := by
  obtain ⟨rest, hcontent, hrest⟩ := h.content
  rw [AppendFile.written, hcontent, List.flatMap_append, ← hrest]
  simp

/-- More gets into the file behind what is settled. -/
theorem Leaves.content_of_written (h : Leaves writer first log settled unsettled) {file : AppendFile}
    (hmore : writer.file.content <+: file.content) {bytes : Bytes}
    (hwritten : file.written = writer.file.written ++ bytes) :
    ∃ rest, file.content = first ++ settled.flatMap part ++ rest ∧
      rest ++ file.pending = unsettled.flatMap part ++ bytes := by
  obtain ⟨rest, hcontent, hrest⟩ := h.content
  obtain ⟨more, hmore⟩ := hmore
  refine ⟨rest ++ more, by rw [← hmore, hcontent, List.append_assoc _ rest more], ?_⟩
  rw [AppendFile.written, AppendFile.written, ← hmore, List.append_assoc, List.append_assoc] at hwritten
  rw [List.append_assoc, List.append_cancel_left hwritten, ← List.append_assoc, hrest]

theorem Leaves.write (h : Leaves writer first log settled unsettled) {batch : List (Nat × Bytes)}
    {ticket : Option Nat} (hbatch : batch ≠ []) (hphase : writer.phase = .writing batch ticket) :
    ∃ settled' unsettled', Leaves { writer with
        file := (writer.writeBatch batch).2
        phase := .telling (writer.writeBatch batch).1 (batch.map Prod.fst) ticket } first log
      settled' unsettled' := by
  obtain ⟨ps, hps, hline, htold, hwritten, hempty⟩ := writer.exists_parts hbatch
  have hfits : ∀ p ∈ (settled ++ unsettled) ++ ps, p.Fits writer.aggregate := by
    rw [List.forall_mem_append]
    exact ⟨h.fits, fun p hp => (hps p hp).1⟩
  have hrecords : recordsOf log.sent = ((settled ++ unsettled) ++ ps).flatMap line ++
      recordsOf writer.queue := by
    have hsplit : ((settled ++ unsettled) ++ ps).flatMap line = (settled ++ unsettled).flatMap line ++ batch := by
      rw [List.flatMap_append, hline]
    rw [hsplit, h.records, hphase, List.append_assoc]
    rfl
  have htells : ((settled ++ unsettled) ++ ps).flatMap LinePart.told =
      log.told ++ (batch.map Prod.fst).map fun handle => (handle, (writer.writeBatch batch).1) := by
    rw [List.flatMap_append, h.told, hphase, htold, List.map_map]
    simp [ShardPhase.toTell, Function.comp_def]
  by_cases hout : (writer.writeBatch batch).1 = .written
  · -- all that was pending is now in the file
    refine ⟨(settled ++ unsettled) ++ ps, [], ?_, ?_, ?_, by simp, [], ?_, ?_⟩
    · rwa [List.append_nil]
    · rwa [List.append_nil]
    · rwa [List.append_nil]
    · have hcontent : (writer.writeBatch batch).2.content = (writer.writeBatch batch).2.written := by
        rw [AppendFile.written, hempty hout, List.append_nil]
      rw [List.append_nil, hcontent, hwritten, h.written_eq, List.append_assoc, ← List.flatMap_append]
    · exact hempty hout
  · obtain ⟨rest, hcontent, hrest⟩ := h.content_of_written (writer.writeBatch_spec batch).1 hwritten
    refine ⟨settled, unsettled ++ ps, ?_, ?_, ?_, ?_, rest, hcontent, ?_⟩
    · rwa [← List.append_assoc settled]
    · rw [← List.append_assoc settled]
      exact hrecords
    · rwa [← List.append_assoc settled]
    · rw [List.forall_mem_append]
      exact ⟨h.failed, fun p hp => (hps p hp).2 ▸ hout⟩
    · rw [hrest, List.flatMap_append]

/-- Every move keeps it. -/
theorem Leaves.move (h : Leaves writer first log settled unsettled)
    (hmove : Move writer reply finished batches writer') :
    ∃ settled' unsettled', Leaves writer' first (log.note writer'.file.content reply) settled' unsettled' := by
  cases hmove with
  | shift queue phase hahead htoTell =>
      have hbatch : phase.batch ++ recordsOf queue = writer.phase.batch ++ recordsOf writer.queue := by
        rw [← ShardPhase.recordsOf_ahead, ← ShardPhase.recordsOf_ahead, ← recordsOf_append, hahead,
          recordsOf_append]
      refine ⟨settled, unsettled, h.fits, ?_, ?_, h.failed, h.content⟩
      · rw [hbatch]
        exact h.records
      · rw [htoTell]
        exact h.told
  | write batch ticket hbatch hphase => exact h.write hbatch hphase
  | tell outcome handle handles ticket hphase =>
      refine ⟨settled, unsettled, h.fits, ?_, ?_, h.failed, h.content⟩
      · have hrecords := h.records
        rw [hphase] at hrecords
        exact hrecords
      · have htold := h.told
        rw [hphase] at htold
        simpa [ShardPhase.toTell, WriterLog.note] using htold
  | answer outcome ticket hphase =>
      refine ⟨settled, unsettled, h.fits, ?_, ?_, h.failed, ?_⟩
      · have hrecords := h.records
        rw [hphase] at hrecords
        exact hrecords
      · have htold := h.told
        rw [hphase] at htold
        exact htold
      · have hmore := h.content_of_written writer.file.content_sync
          (writer.file.written_sync.trans (List.append_nil _).symm)
        rwa [List.append_nil] at hmore
  | finish hphase hqueue hclosed =>
      refine ⟨settled, unsettled, h.fits, ?_, ?_, h.failed, ?_⟩
      · have hrecords := h.records
        rw [hphase] at hrecords
        exact hrecords
      · have htold := h.told
        rw [hphase] at htold
        exact htold
      · have hmore := h.content_of_written
          (writer.file.content_sync.trans writer.file.sync.2.flush_spec.1)
          ((writer.file.sync.2.written_flush.trans writer.file.written_sync).trans (List.append_nil _).symm)
        rwa [List.append_nil] at hmore

theorem Leaves.send (h : Leaves writer first log settled unsettled) (hgoing : writer.phase ≠ .ended)
    (command : ShardCommand) :
    Leaves (writer.send command).2 first { log with sent := log.sent ++ [command] } settled unsettled := by
  rw [send_of_going hgoing]
  refine ⟨h.fits, ?_, h.told, h.failed, h.content⟩
  rw [recordsOf_append, recordsOf_append, h.records]
  simp only [List.append_assoc]

theorem Leaves.close (h : Leaves writer first log settled unsettled) :
    Leaves writer.close first log settled unsettled :=
  ⟨h.fits, h.records, h.told, h.failed, h.content⟩

end ShardWriter

end EventReplay
