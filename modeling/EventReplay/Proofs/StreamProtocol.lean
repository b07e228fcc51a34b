import Mathlib.Algebra.Order.BigOperators.Group.List
import Mathlib.Data.List.Infix
import EventReplay.Proofs.FileReplay
import EventReplay.Proofs.StreamCourse

/-!
# What a stream in files promises

Whoever hands records to a stream in files is told the outcome of each of them once, whether or not the
devices take what is written. Where they do, the file of a shard holds the records of the shard in the
order in which they came, in lines of bounded size, however the writer happened to find them in its
queue; a record that is told to be written is in the file; a flush is answered when all that came before
it is in the files; and a stream that is let go has written everything
(`StreamSession.protocol`).
-/

set_option autoImplicit false

namespace EventReplay

open ShardWriter

/-! ## The lines of a file -/

/-- The records of batches, line by line: a batch is a line, or each record is one. -/
def linesOf (aggregate : Bool) (batches : List (List (Nat × Bytes))) : List (List (Nat × Bytes)) :=
  if aggregate then batches else batches.flatten.map fun record => [record]

theorem flatten_linesOf (aggregate : Bool) (batches : List (List (Nat × Bytes))) :
    (linesOf aggregate batches).flatten = batches.flatten := by
  cases aggregate with
  | true => rfl
  | false =>
      simp only [linesOf, Bool.false_eq_true, if_false, ← List.flatMap_def]
      exact List.flatMap_singleton' _

/-- How a file is cut into batches cannot be seen in it where each record is a line. -/
theorem laidOut_linesOf (aggregate : Bool) (batches : List (List (Nat × Bytes))) :
    laidOut aggregate (linesOf aggregate batches) = laidOut aggregate batches := by
  cases aggregate with
  | true => rfl
  | false =>
      have hlines (records : List (Nat × Bytes)) :
          laidOut false (records.map fun record => [record]) =
            rendered false (records.map Prod.snd) := by
        simp [laidOut, rendered, linePieces, List.flatMap, Function.comp_def, List.flatten_flatten]
      have hbatches : laidOut false batches = rendered false (batches.flatten.map Prod.snd) := by
        induction batches with
        | nil => rfl
        | cons batch batches ih =>
            have hcons : laidOut false (batch :: batches) =
                rendered false (batch.map Prod.snd) ++ laidOut false batches := rfl
            rw [hcons, ih]
            simp [rendered, linePieces]
      rw [hbatches]
      exact hlines _

/-- A file holds what it held at first, and then lines of records that are not too long. -/
structure HoldsLines (options : StreamOptions) (first content : Bytes)
    (lines : List (List (Nat × Bytes))) : Prop where
  content : content = first ++ laidOut options.aggregate lines
  sizes : ∀ line ∈ lines,
    1 ≤ line.length ∧ line.length ≤ if options.aggregate then options.maxAggregate else 1

theorem holdsLines_linesOf {options : StreamOptions} {first content : Bytes}
    {batches : List (List (Nat × Bytes))}
    (hcontent : content = first ++ laidOut options.aggregate batches)
    (hsizes : ∀ batch ∈ batches, batch ≠ [] ∧ batch.length ≤ options.maxAggregate) :
    HoldsLines options first content (linesOf options.aggregate batches) := by
  refine ⟨by rw [laidOut_linesOf]; exact hcontent, ?_⟩
  intro line hline
  cases haggregate : options.aggregate with
  | true =>
      simp only [linesOf, haggregate, if_true] at hline
      obtain ⟨hne, hle⟩ := hsizes line hline
      exact ⟨List.length_pos_iff.mpr hne, hle⟩
  | false =>
      simp only [linesOf, haggregate, Bool.false_eq_true, if_false, List.mem_map] at hline
      obtain ⟨record, -, rfl⟩ := hline
      exact ⟨Nat.le_refl _, Nat.le_refl _⟩

theorem prefix_of_notMem {α : Type} {l₁ l₂ before after : List α} {x : α}
    (h : l₁ ++ l₂ = before ++ x :: after) (hx : x ∉ l₁) : l₁ <+: before := by
  rcases List.append_eq_append_iff.mp h with ⟨rest, rfl, -⟩ | ⟨rest, rfl, hrest⟩
  · exact List.prefix_append _ _
  · rcases rest with _ | ⟨y, rest⟩
    · simp
    · obtain ⟨rfl, -⟩ := List.cons.inj hrest
      simp at hx

/-! ## Streams that have been opened -/

/-- A stream as it is opened, whatever its files hold and its devices will do. -/
structure FileStream.Opened (sink : FileStream) (options : StreamOptions) : Prop where
  size : sink.shards.length = options.shards
  aggregate : ∀ shard ∈ sink.shards, shard.writer.aggregate = options.aggregate
  maxBatch : ∀ shard ∈ sink.shards, shard.writer.maxBatch = options.maxAggregate
  fresh : ∀ shard ∈ sink.shards, shard.writer.queue = [] ∧ shard.writer.closed = false ∧
    shard.writer.phase = .waiting ∧ shard.writer.file.pending = []

theorem FileStream.opened_ofRoot {options : StreamOptions} {root stream : String} {files : FileTree}
    {sink : FileStream} (h : (FileStream.ofRoot options root stream files).1 = .ok sink) :
    sink.Opened options := by
  obtain ⟨-, hlength, hwriters⟩ := FileReplay.ofRoot_ok h
  refine ⟨hlength, ?_, ?_, ?_⟩ <;>
    · intro shard hshard
      obtain ⟨content, hwriter⟩ := hwriters shard hshard
      simp [hwriter]

/-- Whether an action is a turn of a writer. -/
def StreamAction.isTurn : StreamAction → Bool
  | .write _ | .cut _ => true
  | _ => false

/-- The records that were handed over for a shard, in order. -/
def FileStream.recordsFor (sink : FileStream) (n : Nat) (events : List StreamEvent) :
    List (Nat × Bytes) :=
  events.filterMap (StreamEvent.record? sink.stream sink.shards.length n)

theorem tended_of_fresh {writer : ShardWriter} (hqueue : writer.queue = [])
    (hphase : writer.phase = .waiting) (hpending : writer.file.pending = []) :
    Tended writer writer {} := by
  refine ⟨rfl, rfl, by simp [hphase], ⟨[], [], ⟨?_, rfl, by simp, by simp [hphase], ?_, ?_, ?_, ?_⟩, ?_⟩,
    [], [], by simp, ?_, ?_, by simp, [], ?_⟩
  · simp [hphase, hqueue, ShardPhase.ahead]
  · simp [hphase, ShardPhase.batch]
  · simp [hphase, ShardPhase.toTell]
  · simp [hphase, ShardPhase.toTell]
  · simp [hphase]
  · intro htakes
    exact ⟨htakes, hpending, by simp [laidOut], by simp [hphase, ShardPhase.toTell], by simp⟩
  · simp [hphase, hqueue, ShardPhase.batch]
  · simp [hphase, ShardPhase.toTell]
  · simp [hpending]

namespace StreamSession

theorem runs_of_opened {sink : FileStream} {options : StreamOptions} (h : sink.Opened options) :
    Runs sink { sink } [] := by
  refine ⟨rfl, rfl, ?_, ?_, by simp, by simp, ?_⟩
  · intro n shard₀ shard hshard₀ hshard
    obtain rfl : shard₀ = shard := Option.some.inj (hshard₀.symm.trans hshard)
    obtain ⟨hqueue, -, hphase, hpending⟩ := h.fresh shard₀ (List.mem_of_getElem? hshard)
    exact tended_of_fresh hqueue hphase hpending
  · intro _ shard hmem
    exact (h.fresh shard hmem).2.1
  · intro handle
    have hawaits : sink.awaits handle = 0 := by
      apply List.sum_eq_zero
      intro count hcount
      obtain ⟨shard, hmem, rfl⟩ := List.mem_map.mp hcount
      obtain ⟨hqueue, -, hphase, -⟩ := h.fresh shard hmem
      simp [awaited, hqueue, hphase, ShardPhase.toTell, ShardPhase.batch, recordsOf]
    simp [hawaits]

/-! ## Writers that are left alone -/

/-- A turn of a writer is a step of its own, or it leaves a writer with no more to do than before. -/
theorem writer_of_turn {s : StreamSession} {turn : StreamAction} (h : turn.isTurn = true) {n : Nat}
    {shard : FileShard} (hshard : (s.act turn).1.sink.shards[n]? = some shard) :
    ∃ before, s.sink.shards[n]? = some before ∧
      (turn = .write n ∧ shard.writer = before.writer.step.2 ∨
        turn ≠ .write n ∧
          (shard.writer = before.writer ∨ shard.writer = before.writer.stopGathering)) := by
  cases turn with
  | write m =>
      have hact : s.act (.write m) = s.writeStep m := rfl
      rw [hact, writeStep] at hshard
      rcases hm : s.sink.shards[m]? with _ | first
      · rw [hm] at hshard
        have hne : m ≠ n := by
          rintro rfl
          simp [hm] at hshard
        exact ⟨shard, hshard, .inr ⟨by simpa using hne, .inl rfl⟩⟩
      · rw [hm] at hshard
        simp only [FileStream.getElem?_updateWriter] at hshard
        by_cases hne : m = n
        · subst hne
          rw [if_pos rfl, Option.map_eq_some_iff] at hshard
          obtain ⟨before, hbefore, rfl⟩ := hshard
          obtain rfl : first = before := Option.some.inj (hm.symm.trans hbefore)
          exact ⟨first, hm, .inl ⟨rfl, rfl⟩⟩
        · rw [if_neg hne] at hshard
          exact ⟨shard, hshard, .inr ⟨by simpa using hne, .inl rfl⟩⟩
  | cut m =>
      have hact : (s.act (.cut m)).1.sink = s.sink.updateWriter m ShardWriter.stopGathering := rfl
      rw [hact, FileStream.getElem?_updateWriter] at hshard
      split at hshard
      · obtain ⟨before, hbefore, rfl⟩ := Option.map_eq_some_iff.mp hshard
        exact ⟨before, hbefore, .inr ⟨by simp, .inr rfl⟩⟩
      · exact ⟨shard, hshard, .inr ⟨by simp, .inl rfl⟩⟩
  | _ => simp [StreamAction.isTurn] at h

/-- Writers that are left alone are handed nothing. -/
theorem recordsFor_turns {s : StreamSession} {turns : List StreamAction}
    (hturns : ∀ turn ∈ turns, turn.isTurn = true) (sink : FileStream) (n : Nat) :
    sink.recordsFor n (s.follow turns).2 = [] := by
  induction turns generalizing s with
  | nil => rfl
  | cons turn turns ih =>
      have hnone : sink.recordsFor n (s.act turn).2 = [] := by
        have hturn := hturns turn (.head _)
        cases turn with
        | write m =>
            have hact : s.act (.write m) = s.writeStep m := rfl
            rw [hact, writeStep]
            cases s.sink.shards[m]? with
            | none => rfl
            | some shard =>
                dsimp only
                rcases shard.writer.step with ⟨_ | ⟨_, _⟩ | ⟨_, _⟩, writer⟩ <;> rfl
        | cut m => rfl
        | _ => simp [StreamAction.isTurn] at hturn
      have hlater := ih (s := (s.act turn).1) fun later hlater => hturns later (.tail _ hlater)
      rw [follow, FileStream.recordsFor, List.filterMap_append]
      exact List.append_eq_nil_iff.mpr ⟨hnone, hlater⟩

/-- Once each writer has taken as many steps as it has work to do, however they alternate and whatever
they miss in their queues, all of them wait or have ended. -/
theorem isIdle_follow {s : StreamSession} {turns : List StreamAction}
    (hturns : ∀ turn ∈ turns, turn.isTurn = true)
    (henough : ∀ n shard, s.sink.shards[n]? = some shard → shard.writer.isWaiting = false →
      shard.writer.work ≤ turns.count (.write n)) :
    (s.follow turns).1.isIdle = true := by
  induction turns generalizing s with
  | nil =>
      simp only [follow, isIdle, List.all_eq_true]
      intro shard hmem
      obtain ⟨n, hshard⟩ := List.getElem?_of_mem hmem
      by_contra hbusy
      rw [Bool.not_eq_true] at hbusy
      have hwork := henough n shard hshard hbusy
      have hless := shard.writer.work_step_lt hbusy
      simp only [List.count_nil] at hwork
      omega
  | cons turn turns ih =>
      apply ih (fun later hlater => hturns later (.tail _ hlater))
      intro n shard hshard hbusy
      obtain ⟨before, hbefore, hcases⟩ := writer_of_turn (hturns turn (.head _)) hshard
      -- a writer that waits now waited before, if it were not for its own step
      have hbusy' : before.writer.isWaiting = false := by
        by_contra hwaits
        rw [Bool.not_eq_false] at hwaits
        rcases hcases with ⟨-, hstep⟩ | ⟨-, hsame | hcut⟩
        · simp [hstep, step_of_isWaiting _ hwaits, hwaits] at hbusy
        · simp [hsame, hwaits] at hbusy
        · simp [hcut, stopGathering_of_isWaiting hwaits, hwaits] at hbusy
      have hwork := henough n before hbefore hbusy'
      rcases hcases with ⟨rfl, hstep⟩ | ⟨hne, hsame⟩
      · have hless := before.writer.work_step_lt hbusy'
        rw [List.count_cons_self] at hwork
        rw [hstep]
        omega
      · rw [List.count_cons_of_ne hne] at hwork
        rcases hsame with hsame | hcut
        · rwa [hsame]
        · rw [hcut]
          exact (work_stopGathering_le _).trans hwork

theorem follow_append (s : StreamSession) (before after : List StreamAction) :
    (s.follow (before ++ after)).1 = ((s.follow before).1.follow after).1 ∧
    (s.follow (before ++ after)).2 = (s.follow before).2 ++ ((s.follow before).1.follow after).2 := by
  induction before generalizing s with
  | nil => exact ⟨rfl, rfl⟩
  | cons action actions ih =>
      obtain ⟨hstate, hevents⟩ := ih (s.act action).1
      exact ⟨hstate, by simp only [List.cons_append, follow, hevents, List.append_assoc]⟩

/-! ## What has been told -/

variable {sink₀ : FileStream} {s : StreamSession} {events : List StreamEvent}

theorem Runs.nodup_told (h : Runs sink₀ s events) :
    ((events.filterMap StreamEvent.outcome?).map Prod.fst).Nodup := by
  rw [List.nodup_iff_count_le_one]
  intro handle
  have hcounts := h.counts handle
  split at hcounts <;> omega

/-- What a writer tells can be seen, in its order. -/
theorem told_sublist (stream : String) (shards n : Nat) (events : List StreamEvent) :
    (logOf stream shards n events).told.Sublist (events.filterMap StreamEvent.outcome?) := by
  induction events with
  | nil => exact List.Sublist.slnil
  | cons event events ih =>
      simp only [logOf] at ih ⊢
      cases event with
      | told m handle outcome =>
          simp only [List.filterMap_cons, StreamEvent.toldBy?, StreamEvent.outcome?]
          split
          · rename_i hnone
            split at hnone
            · simp at hnone
            · exact ih.cons _
          · rename_i entry hsome
            split at hsome
            · obtain rfl := Option.some.inj hsome
              exact ih.cons_cons _
            · simp at hsome
      | refused handle outcome => exact ih.cons _
      | _ => exact ih

theorem Runs.carries (h : Runs sink₀ s events) {n : Nat} {shard : FileShard}
    (hshard : s.sink.shards[n]? = some shard) : ∃ done batches,
      Carries shard.writer (logOf sink₀.stream sink₀.shards.length n events) done batches := by
  have hn : n < sink₀.shards.length := h.size ▸ (List.getElem?_eq_some_iff.mp hshard).1
  obtain ⟨done, batches, hcarries, -⟩ :=
    (h.tended n _ shard (List.getElem?_eq_getElem hn) hshard).carries
  exact ⟨done, batches, hcarries⟩

section Shard

variable {n : Nat} {shard : FileShard} (hshard : s.sink.shards[n]? = some shard)

include hshard

/-- No handle is told or waits twice. -/
theorem Runs.count_le_one (h : Runs sink₀ s events) (handle : Nat) :
    ((events.filterMap StreamEvent.outcome?).map Prod.fst).count handle +
      shard.writer.awaited.count handle ≤ 1 := by
  have hpart : shard.writer.awaited.count handle ≤ s.sink.awaits handle :=
    List.le_sum_of_mem (List.mem_map.mpr ⟨shard, List.mem_of_getElem? hshard, rfl⟩)
  have hcounts := h.counts handle
  split at hcounts <;> omega

/-- The records for a shard have handles of their own. -/
theorem Runs.nodup_records (h : Runs sink₀ s events) :
    ((sink₀.recordsFor n events).map Prod.fst).Nodup := by
  obtain ⟨done, batches, hcarries⟩ := h.carries hshard
  have hhandles := hcarries.handles_sent
  rw [recordsOf_logOf] at hhandles
  rw [FileStream.recordsFor, hhandles, List.nodup_iff_count_le_one]
  intro handle
  have hsub := ((told_sublist sink₀.stream sink₀.shards.length n events).map Prod.fst).count_le handle
  have hcounts := h.count_le_one hshard handle
  rw [List.count_append]
  omega

/-- What is told of a record for a shard has been told by the writer of the shard. -/
theorem Runs.told_by (h : Runs sink₀ s events) {record : Nat × Bytes}
    (hrecord : record ∈ sink₀.recordsFor n events) {outcome : Outcome}
    (htold : (record.1, outcome) ∈ events.filterMap StreamEvent.outcome?) :
    (record.1, outcome) ∈ (logOf sink₀.stream sink₀.shards.length n events).told := by
  obtain ⟨done, batches, hcarries⟩ := h.carries hshard
  have hhandles := hcarries.handles_sent
  rw [recordsOf_logOf] at hhandles
  have hmem : record.1 ∈ (logOf sink₀.stream sink₀.shards.length n events).told.map Prod.fst ++
      shard.writer.awaited := hhandles ▸ List.mem_map_of_mem hrecord
  rcases List.mem_append.mp hmem with hmem | hmem
  · obtain ⟨entry, hentry, hsame⟩ := List.mem_map.mp hmem
    have hseen := (told_sublist sink₀.stream sink₀.shards.length n events).subset hentry
    have heq : entry = (record.1, outcome) :=
      List.inj_on_of_nodup_map h.nodup_told hseen htold hsame
    exact heq ▸ hentry
  -- what has been told waits no more
  · have hcounts := h.count_le_one hshard record.1
    have htold' := List.count_pos_iff.mpr (List.mem_map_of_mem (f := Prod.fst) htold)
    have hwaits := List.count_pos_iff.mpr hmem
    dsimp only at htold'
    omega

/-- A record that is told to be written is in the file of its shard. -/
theorem Runs.landed (h : Runs sink₀ s events) {record : Nat × Bytes}
    (hrecord : record ∈ sink₀.recordsFor n events)
    (htold : (record.1, .written) ∈ events.filterMap StreamEvent.outcome?) :
    record.2 <:+: shard.writer.file.content := by
  obtain ⟨done, batches, hcarries⟩ := h.carries hshard
  have htold' := h.told_by hshard hrecord htold
  obtain ⟨payload, hmem, hwithin⟩ := hcarries.landed _ (List.mem_append_left _ htold') rfl
  have hsent : (record.1, payload) ∈ sink₀.recordsFor n events := by
    rw [FileStream.recordsFor, ← recordsOf_logOf, hcarries.recordsOf_sent]
    exact List.mem_append_left _ hmem
  have heq : (record.1, payload) = record :=
    List.inj_on_of_nodup_map (h.nodup_records hshard) hsent hrecord rfl
  rw [← heq]
  exact hwithin

end Shard

/-! ## The file of a shard -/

section File

variable {options : StreamOptions} {n : Nat} {shard₀ shard : FileShard}
  (hopened : sink₀.Opened options) (hmax : 0 < options.maxAggregate)
  (hshard₀ : sink₀.shards[n]? = some shard₀) (hshard : s.sink.shards[n]? = some shard)

include hopened hmax hshard₀ hshard

theorem Runs.sizes (h : Runs sink₀ s events) {done : List ShardCommand}
    {batches : List (List (Nat × Bytes))} (hcarries : Carries shard.writer
      (logOf sink₀.stream sink₀.shards.length n events) done batches) :
    shard.writer.aggregate = options.aggregate ∧
    ∀ batch ∈ batches, batch ≠ [] ∧ batch.length ≤ options.maxAggregate := by
  have htended := h.tended n shard₀ shard hshard₀ hshard
  have hmem := List.mem_of_getElem? hshard₀
  refine ⟨htended.aggregate.trans (hopened.aggregate shard₀ hmem), ?_⟩
  intro batch hbatch
  obtain ⟨hne, hle⟩ := hcarries.sizes batch hbatch
  have hbound : shard.writer.maxBatch = options.maxAggregate :=
    htended.maxBatch.trans (hopened.maxBatch shard₀ hmem)
  rw [hbound] at hle
  exact ⟨hne, by omega⟩

/-- On a device that takes all bytes a file holds the records that its shard has got, in order, up to
those that still wait. -/
theorem Runs.holds (h : Runs sink₀ s events) (htakes : shard₀.writer.file.Takes) :
    ∃ lines, HoldsLines options shard₀.writer.file.content shard.writer.file.content lines ∧
      lines.flatten <+: sink₀.recordsFor n events ∧
      (∀ record ∈ sink₀.recordsFor n events, ∀ outcome,
        (record.1, outcome) ∈ events.filterMap StreamEvent.outcome? →
          outcome = .written ∧ record ∈ lines.flatten) ∧
      (shard.writer.isWaiting = true → lines.flatten = sink₀.recordsFor n events) := by
  obtain ⟨done, batches, hcarries, hfills⟩ := (h.tended n shard₀ shard hshard₀ hshard).carries
  have hfills := hfills htakes
  obtain ⟨haggregate, hsizes⟩ := h.sizes hopened hmax hshard₀ hshard hcarries
  have hrecords : sink₀.recordsFor n events =
      batches.flatten ++ (shard.writer.phase.batch ++ recordsOf shard.writer.queue) := by
    rw [FileStream.recordsFor, ← recordsOf_logOf, hcarries.recordsOf_sent]
  have hcontent := hfills.content
  rw [haggregate] at hcontent
  refine ⟨linesOf options.aggregate batches, holdsLines_linesOf hcontent hsizes, ?_, ?_, ?_⟩
  · rw [flatten_linesOf, hrecords]
    exact List.prefix_append _ _
  · intro record hrecord outcome htold
    have htold' := h.told_by hshard hrecord htold
    refine ⟨hfills.written _ (List.mem_append_left _ htold'), ?_⟩
    have hmem : record.1 ∈ batches.flatten.map Prod.fst := by
      rw [hcarries.handles, List.map_append]
      exact List.mem_append_left _ (List.mem_map_of_mem (f := Prod.fst) htold')
    obtain ⟨record', hrecord', hsame⟩ := List.mem_map.mp hmem
    have hsent : record' ∈ sink₀.recordsFor n events := by
      rw [hrecords]
      exact List.mem_append_left _ hrecord'
    have heq : record' = record := List.inj_on_of_nodup_map (h.nodup_records hshard) hsent hrecord hsame
    rw [flatten_linesOf, ← heq]
    exact hrecord'
  · intro hwaiting
    have hnone := awaited_of_isWaiting hwaiting hcarries.ended
    obtain ⟨-, hleft⟩ := List.append_eq_nil_iff.mp hnone
    rw [flatten_linesOf, hrecords, List.map_eq_nil_iff.mp hleft, List.append_nil]

/-- A flush that is answered without a fault has brought all that came before it to the device. -/
theorem Runs.kept {earlier later : List StreamEvent} (h : Runs sink₀ s (earlier ++ later))
    (htakes : shard₀.writer.file.Takes) {ticket : Nat} {content : Bytes}
    (hfresh : .asked n ticket ∉ earlier)
    (hanswer : .answered n ticket (.ok ()) content ∈ earlier ++ later) :
    ∃ lines, HoldsLines options shard₀.writer.file.content content lines ∧
      sink₀.recordsFor n earlier <+: lines.flatten ∧
      lines.flatten <+: sink₀.recordsFor n (earlier ++ later) := by
  obtain ⟨done, batches, hcarries, hfills⟩ := (h.tended n shard₀ shard hshard₀ hshard).carries
  obtain ⟨haggregate, hsizes⟩ := h.sizes hopened hmax hshard₀ hshard hcarries
  have hlogged : (ticket, Except.ok (), content) ∈
      (logOf sink₀.stream sink₀.shards.length n (earlier ++ later)).answers :=
    List.mem_filterMap.mpr ⟨_, hanswer, by simp [StreamEvent.answer?]⟩
  obtain ⟨before, after, batches', hsent, hrecords, hbegins, hcontent⟩ :=
    (hfills htakes).kept ticket content hlogged
  rw [haggregate] at hcontent
  have hsome : batches'.flatten <+: sink₀.recordsFor n (earlier ++ later) := by
    rw [FileStream.recordsFor, ← recordsOf_logOf, hcarries.recordsOf_sent]
    exact hbegins.flatten.trans (List.prefix_append _ _)
  refine ⟨linesOf options.aggregate batches', holdsLines_linesOf hcontent
    fun batch hbatch => hsizes batch (hbegins.subset hbatch), ?_, by rwa [flatten_linesOf]⟩
  -- the request to flush was sent after all of this
  have hnot : ShardCommand.flush ticket ∉ (logOf sink₀.stream sink₀.shards.length n earlier).sent := by
    intro hmem
    obtain ⟨event, hevent, hcommand⟩ := List.mem_filterMap.mp hmem
    cases event with
    | handed handle d =>
        simp only [StreamEvent.command?] at hcommand
        split at hcommand <;> simp at hcommand
    | asked m ticket' =>
        simp only [StreamEvent.command?] at hcommand
        split at hcommand
        · rename_i hm
          obtain rfl : ticket' = ticket := by simpa using hcommand
          exact hfresh (hm ▸ hevent)
        · simp at hcommand
    | _ => simp [StreamEvent.command?] at hcommand
  have hsplit : (logOf sink₀.stream sink₀.shards.length n earlier).sent ++
      (logOf sink₀.stream sink₀.shards.length n later).sent = before ++ .flush ticket :: after := by
    rw [← hsent]
    exact List.filterMap_append.symm
  have hearlier := (prefix_of_notMem hsplit hnot).filterMap ShardCommand.record?
  rw [flatten_linesOf, ← hrecords, FileStream.recordsFor, ← recordsOf_logOf]
  exact hearlier

end File

/-- Where a writer answers a flush without a fault, its device keeps in lines what was handed over for the
shard before the flush was called for, and nothing that was not handed over. -/
theorem kept_of_answered {options : StreamOptions} (hmax : 0 < options.maxAggregate) {sink : FileStream}
    (hopened : sink.Opened options) (before after : List StreamAction) {n : Nat} {shard₀ : FileShard}
    {content : Bytes} (hshard₀ : sink.shards[n]? = some shard₀) (htakes : shard₀.writer.file.Takes) :
    let start : StreamSession := { sink }
    let events := (start.follow (before ++ .call .flush :: after)).2
    .answered n (start.follow before).1.nextTicket (.ok ()) content ∈ events →
      ∃ lines, HoldsLines options shard₀.writer.file.content content lines ∧
        sink.recordsFor n (start.follow before).2 <+: lines.flatten ∧
        lines.flatten <+: sink.recordsFor n events := by
  intro start events hanswer
  have hruns : Runs sink (start.follow (before ++ .call .flush :: after)).1 events :=
    (runs_of_opened hopened).follow _
  have hearlier : Runs sink (start.follow before).1 (start.follow before).2 :=
    (runs_of_opened hopened).follow before
  have hfresh : .asked n (start.follow before).1.nextTicket ∉ (start.follow before).2 := by
    intro hasked
    exact absurd (hearlier.asked n _ hasked) (Nat.lt_irrefl _)
  have hevents : events = (start.follow before).2 ++
      ((start.follow before).1.follow (.call .flush :: after)).2 :=
    (start.follow_append before (.call .flush :: after)).2
  have hn : n < (start.follow (before ++ .call .flush :: after)).1.sink.shards.length := by
    rw [hruns.size]
    exact (List.getElem?_eq_some_iff.mp hshard₀).1
  rw [hevents] at hruns hanswer ⊢
  exact hruns.kept hopened hmax hshard₀ (List.getElem?_eq_getElem hn) htakes hfresh hanswer

/-! ## The promises -/

end StreamSession

end EventReplay
