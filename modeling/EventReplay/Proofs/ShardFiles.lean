import EventReplay.Proofs.FileReplay

/-!
# What a shard file holds at the end

When a replay into files has ended with a report, the file of each shard holds the events whose keys
belong to the shard, in the order of the source, with every marker among them. No event stands behind a
marker that it is not later than, and the last record is the last marker.
-/

set_option autoImplicit false

namespace EventReplay

open FileReplay

namespace Replay

variable {σ : Type} [EventSource σ]

theorem not_ended_ofSource {source : σ} {events : List Event}
    (hyields : EventSource.Yields source events) (hne : events ≠ []) (plan : ReplayPlan)
    (metrics : Option ReplayMetrics) (shards : Nat) (start : Moment) (report : ReplayReport) :
    (ofSource plan metrics shards start source).1.stage ≠ .ended (.ok report) := by
  cases hyields with
  | done h => exact absurd rfl hne
  | failed h => exact absurd rfl hne
  | more h rest =>
      simp only [ofSource, h]
      simp

end Replay

/-! ## The records of a shard -/

namespace StreamRecord

theorem filterMap_dispatch?_filter (shards n : Nat) (records : List StreamRecord) :
    (records.filter (isFor shards n)).filterMap dispatch? =
      (records.filterMap dispatch?).filter fun d => shardOf d.event.key shards = n := by
  induction records with
  | nil => rfl
  | cons record records ih =>
      cases record with
      | marker w =>
          rw [List.filter_cons_of_pos rfl]
          simpa [dispatch?, List.filterMap_cons] using ih
      | event d =>
          by_cases h : shardOf d.event.key shards = n <;>
            simpa [isFor, dispatch?, List.filterMap_cons, h] using ih

theorem filterMap_marker?_filter (shards n : Nat) (records : List StreamRecord) :
    (records.filter (isFor shards n)).filterMap marker? = records.filterMap marker? := by
  induction records with
  | nil => rfl
  | cons record records ih =>
      cases record with
      | marker w =>
          rw [List.filter_cons_of_pos rfl]
          simpa [marker?, List.filterMap_cons] using ih
      | event d =>
          by_cases h : shardOf d.event.key shards = n <;>
            simpa [isFor, marker?, List.filterMap_cons, h] using ih

theorem getLast?_filter (shards n : Nat) {records : List StreamRecord} {w : Watermark}
    (h : records.getLast? = some (.marker w)) :
    (records.filter (isFor shards n)).getLast? = some (.marker w) := by
  obtain ⟨init, rfl⟩ := List.getLast?_eq_some_iff.mp h
  simp [isFor]

/-- A record is in one line if the payload of its event is. -/
theorem lineFeed_notMem_bytes {record : StreamRecord}
    (h : ∀ d, record = .event d → Bytes.lineFeed ∉ d.event.payload) :
    Bytes.lineFeed ∉ record.bytes := by
  cases record with
  | event d => exact lineFeed_notMem_encodeEvent d.outbound (h d rfl)
  | marker w => exact lineFeed_notMem_encodeWatermark w

end StreamRecord

theorem Replay.lineFeed_notMem_records {σ : Type} [EventSource σ] {r : Replay σ}
    {actions : List ReplayAction}
    (h : ∀ d ∈ r.dispatches actions, Bytes.lineFeed ∉ d.event.payload) :
    ∀ record ∈ r.records actions, Bytes.lineFeed ∉ record.bytes := by
  intro record hrecord
  refine StreamRecord.lineFeed_notMem_bytes fun d hd => h d ?_
  rw [← filterMap_dispatch?_records]
  exact List.mem_filterMap.mpr ⟨record, hrecord, by rw [hd]; rfl⟩

/-- A replay of sorted events into files that hold nothing yet, with markers, whose threads take turns in
any way: when it has ended with a report, the file of every shard is made of the lines of its records.
Among these are just the events of the shard, in order, and all markers; no event stands behind a marker
that it is not later than; and the last record is the last marker, which carries the greatest outbound
time of all events. -/
theorem shard_file_of_ended {σ : Type} [EventSource σ] {source : σ} {events : List Event}
    (hyields : EventSource.Yields source events) (hne : events ≠ [])
    (hsorted : events.Pairwise fun e e' => e.timestamp ≤ e'.timestamp)
    (hevents : ∀ e ∈ events, Millis.InRange e.timestamp)
    (hpayloads : ∀ e ∈ events, Bytes.lineFeed ∉ e.payload) (plan : ReplayPlan)
    (henabled : plan.watermark.enabled = true) (metrics : Option ReplayMetrics)
    (options : StreamOptions) (root : String) (files : FileTree) (sink : FileStream)
    (hsink : (FileStream.ofRoot options root plan.stream files).1 = .ok sink)
    (hempty : ∀ shard ∈ sink.shards, shard.writer.file.content = []) (start : Moment)
    (actions : List FileReplayAction) (report : ReplayReport)
    (hclock : (start.now :: readings
      ((FileReplay.ofSource plan metrics start source sink).run actions).steps).Pairwise (· ≤ ·))
    (hrange : ∀ n ∈ readings ((FileReplay.ofSource plan metrics start source sink).run actions).steps,
      Millis.InRange n)
    (hmin : ∀ d ∈ (Replay.ofSource plan metrics options.shards start source).1.dispatches
      ((FileReplay.ofSource plan metrics start source sink).run actions).steps,
      Millis.earliest < d.outbound)
    (hended : ((FileReplay.ofSource plan metrics start source sink).run actions).replay.result? =
      some (.ok report)) :
    let s := (FileReplay.ofSource plan metrics start source sink).run actions
    let ds := (Replay.ofSource plan metrics options.shards start source).1.dispatches s.steps
    ∀ n shard, s.sink.shards[n]? = some shard →
      ∃ (records : List StreamRecord) (batches : List (List Bytes)),
        (batches.flatten = records.map StreamRecord.bytes ∧ (∀ batch ∈ batches, batch ≠ []) ∧
          Bytes.lines shard.writer.file.content = ShardWriter.fileLines options.aggregate batches) ∧
        (records.filterMap StreamRecord.dispatch?).map Dispatch.event =
          events.filter (fun e => shardOf e.key options.shards = n) ∧
        (records.filterMap StreamRecord.marker?).length = report.watermarksEmitted ∧
        records.Pairwise StreamRecord.InOrder ∧
        ∃ w, records.getLast? = some (.marker w) ∧ report.lastWatermark = some w.value ∧
          (∃ d ∈ ds, d.outbound = w.value) ∧ ∀ d ∈ ds, d.outbound ≤ w.value := by
  have hb := Replay.balanced_ofSource plan metrics options.shards start source
  have hs := Replay.supplied_ofSource hyields plan metrics options.shards start
  have ho := Replay.ordered_ofSource source hsorted plan metrics options.shards start
  have hstart := Replay.starts_ofSource plan metrics options.shards start source
  have hstage := Replay.not_ended_ofSource hyields hne plan metrics options.shards start
  have hdelivers := (delivers_ofSource hsink hempty metrics start source hstage).run hb actions
  generalize (Replay.ofSource plan metrics options.shards start source).1 = replay at *
  intro s ds n shard hshard
  have hfinal : (replay.follow s.steps).1.stage = .ended (.ok report) := by
    rw [← hdelivers.replay]
    exact Replay.stage_of_result? hended
  obtain ⟨batches, hbatches, hnonempty, hlines⟩ :=
    hdelivers.written hb hstart.isLast hstage hfinal hshard
  -- the replay has sent nothing since it waited for the flush
  obtain ⟨before, moment, after, hsteps, hflushing, hmade, hrecords⟩ :=
    hb.ended_split hstage s.steps hfinal
  have hds : ds = replay.dispatches before := by
    show replay.dispatches s.steps = _
    rw [← Replay.filterMap_dispatch?_records, hrecords, Replay.filterMap_dispatch?_records]
  rw [hsteps, readings_append] at hclock hrange
  have hclock' : (start.now :: readings before).Pairwise (· ≤ ·) :=
    hclock.sublist (List.sublist_append_left _ _)
  obtain ⟨-, -, -, d, hd, -, -, -, hsupplied, -, hlast, hmax⟩ := hstart.last_marker hb hs hne hevents
    before (fun n hn => hrange n (List.mem_append_left _ hn)) hflushing
  obtain ⟨marker, hmarker, hvalue⟩ := hb.getLast_records hstart.flushing before hflushing
    (by rw [hstart.config, henabled]) hlast
  rw [hrecords] at hbatches
  refine ⟨(replay.records before).filter (StreamRecord.isFor options.shards n), batches,
    ⟨hbatches, hnonempty, ?_⟩, ?_, ?_, ?_, marker,
    StreamRecord.getLast?_filter options.shards n hmarker, ?_, ?_, ?_⟩
  · apply hlines
    rw [hbatches]
    intro payload hpayload
    obtain ⟨record, hrecord, rfl⟩ := List.mem_map.mp hpayload
    refine Replay.lineFeed_notMem_records (fun d hd => hpayloads d.event ?_) record
      (List.mem_filter.mp hrecord).1
    rw [← hsupplied]
    exact List.mem_map_of_mem hd
  · rw [StreamRecord.filterMap_dispatch?_filter, Replay.filterMap_dispatch?_records, ← hsupplied,
      List.filter_map]
    rfl
  · rw [StreamRecord.filterMap_marker?_filter, hmade]
    have hemitted := hb.emitted_follow before
    rw [hstart.emitted, Nat.zero_add] at hemitted
    exact hemitted.symm
  · have hmin' : ∀ d ∈ replay.dispatches before, Millis.earliest < d.outbound := by
      rw [← hds]
      exact hmin
    exact (Replay.Ordered.records hb hs ho before hclock' hmin').filter _
  · rw [hvalue, hmade]
    exact hlast
  · rw [hds, hvalue]
    exact ⟨d, hd, rfl⟩
  · rw [hds, hvalue]
    exact hmax

/-- Two events with keys of different shards, replayed into the files of two shards. -/
theorem shard_file_of_ended_two_events :
    let plan : ReplayPlan := { stream := "out" }
    let source := EventQueue.mk [⟨10, "a", []⟩, ⟨20, "b", []⟩]
    let turns := [FileReplayAction.produce ⟨1000000, 100⟩, .write 0, .write 1] ++
      (List.range 4).map .continueTelling
    let actions := (List.replicate 40 turns).flatten ++ [.finish ⟨2000000, 200⟩]
    ∃ (sink : FileStream) (shard : FileShard) (records : List StreamRecord) (marker : Watermark),
      (FileStream.ofRoot { shards := 2 } "/" "out" {}).1 = .ok sink ∧
      ((FileReplay.ofSource plan none ⟨0, 100⟩ source sink).run actions).sink.shards[0]? = some shard ∧
      Bytes.lines shard.writer.file.content =
        records.map (fun record => record.bytes ++ [Bytes.lineFeed]) ∧
      (records.filterMap StreamRecord.dispatch?).map Dispatch.event = [⟨20, "b", []⟩] ∧
      records.getLast? = some (.marker marker) ∧ marker.value = 20 := by
  intro plan source turns actions
  let sink : FileStream :=
    ⟨"out", "/out", [freshShard "out" "shard-0000.log", freshShard "out" "shard-0001.log"]⟩
  have hended := FileReplay.result?_finish (FileReplay.ofSource plan none ⟨0, 100⟩ source sink)
    (List.replicate 40 turns).flatten (Replay.stage_of_waitsForFlush (by decide +kernel))
    (by decide +kernel) (by decide +kernel) ⟨2000000, 200⟩
  have hds : (Replay.ofSource plan none 2 ⟨0, 100⟩ source).1.dispatches
      ((FileReplay.ofSource plan none ⟨0, 100⟩ source sink).run actions).steps =
      [⟨0, ⟨10, "a", []⟩, 10⟩, ⟨1, ⟨20, "b", []⟩, 20⟩] := by decide +kernel
  have hyields : EventSource.Yields source [⟨10, "a", []⟩, ⟨20, "b", []⟩] := EventQueue.yields _
  have hfiles := shard_file_of_ended hyields (by decide) (by decide) (by decide) (by decide) plan rfl
    none { shards := 2 } "/" {} sink ofRoot_two_shards (by decide +kernel) ⟨0, 100⟩ actions _
    (by decide +kernel) (by decide +kernel) (by decide +kernel) hended 0
  obtain ⟨shard, hshard⟩ : ∃ shard, ((FileReplay.ofSource plan none ⟨0, 100⟩ source sink).run
      actions).sink.shards[0]? = some shard := Option.isSome_iff_exists.mp (by decide +kernel)
  obtain ⟨records, batches, ⟨hbytes, -, hlines⟩, hevents, -, -, w, hlast, -, ⟨d, hd, hw⟩, hmax⟩ :=
    hfiles shard hshard
  refine ⟨sink, shard, records, w, ofRoot_two_shards, hshard, ?_, ?_, hlast, ?_⟩
  · rw [hlines, ShardWriter.fileLines, if_neg (by decide), hbytes, List.map_map]
    rfl
  · rw [hevents]
    decide +kernel
  · rw [hds] at hd hmax
    obtain ⟨hten, htwenty⟩ : (10 : Int) ≤ w.value ∧ (20 : Int) ≤ w.value := by simpa using hmax
    rcases List.mem_cons.mp hd with rfl | hd
    · simp at hw
      omega
    · obtain rfl := List.mem_singleton.mp hd
      exact hw.symm

end EventReplay
