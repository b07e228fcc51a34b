import EventReplay.Proofs.LogFaults
import EventReplay.Proofs.LogReading

/-!
# A log answers like a queue in memory

A log whose segments can all be read has, at every moment, a list of events that it still offers
(`LogReader.Offers`): the one read ahead, and those that it will accept in the steps before it. Asking
for the next event takes the first of them, and a seek drops those before its time, which is what the
queue of these events does. So a log and the queue of its events give the same answers to whatever they
are asked (`OpenLog.answers_like_queue`).
-/

set_option autoImplicit false

namespace EventReplay

/-! ## Asking a source -/

/-- What a source can be asked. -/
inductive SourceCall where
  | hasNext
  | next
  | seek (time : Int)

/-- What a source answers. -/
inductive SourceAnswer where
  | hasNext (more : Bool)
  | next (answer : Except SourceFault (Option Event))
  | seek (answer : Except SourceFault Unit)

namespace EventSource

variable {σ : Type} [EventSource σ]

/-- The answer of a source, and the source afterwards. -/
def ask (source : σ) : SourceCall → SourceAnswer × σ
  | .hasNext => (.hasNext (hasNext source), source)
  | .next => (.next (next source).answer, (next source).source)
  | .seek time => (.seek (seek time source).answer, (seek time source).source)

/-- The answers of a source to one call after another, and the source afterwards. -/
def askAll (source : σ) : List SourceCall → List SourceAnswer × σ
  | [] => ([], source)
  | call :: calls =>
    ((ask source call).1 :: (askAll (ask source call).2 calls).1, (askAll (ask source call).2 calls).2)

end EventSource

/-! ## Queues of ordered events -/

namespace EventQueue

theorem next_eq (events : List Event) :
    next ⟨events⟩ = ⟨.ok events.head?, ⟨events.tail⟩, []⟩ := by
  cases events <;> rfl

/-- Events in the order of their times need no sorting. -/
theorem ofList_of_ordered {events : List Event}
    (h : events.Pairwise fun a b => a.timestamp ≤ b.timestamp) : ofList events = ⟨events⟩ := by
  unfold ofList
  rw [List.mergeSort_of_pairwise]
  simpa using h

/-- Of ordered events, those from a time on are those behind the first ones before it. -/
theorem dropWhile_eq_filter {events : List Event}
    (h : events.Pairwise fun a b => a.timestamp ≤ b.timestamp) (time : Int) :
    events.dropWhile (fun event => event.timestamp < time) =
      events.filter fun event => time ≤ event.timestamp := by
  induction events with
  | nil => rfl
  | cons event events ih =>
    by_cases hbefore : event.timestamp < time
    · rw [List.dropWhile_cons_of_pos (by simpa using hbefore),
        List.filter_cons_of_neg (by simpa using hbefore)]
      exact ih h.of_cons
    · -- all that follows is no earlier than the first event that stays
      rw [List.dropWhile_cons_of_neg (by simpa using hbefore), eq_comm, List.filter_eq_self]
      intro later hlater
      have hfirst : time ≤ event.timestamp := by omega
      rcases List.mem_cons.mp hlater with rfl | hlater
      · simpa using hfirst
      · simpa using hfirst.trans (List.rel_of_pairwise_cons h hlater)

/-- What a call leaves of ordered events is ordered. -/
theorem ordered_ask {events : List Event}
    (h : events.Pairwise fun a b => a.timestamp ≤ b.timestamp) (call : SourceCall) :
    (EventSource.ask (EventQueue.mk events) call).2.events.Pairwise
      fun a b => a.timestamp ≤ b.timestamp := by
  cases call with
  | hasNext => exact h
  | next =>
    show (next ⟨events⟩).source.events.Pairwise _
    rw [next_eq]
    exact h.sublist (List.tail_sublist events)
  | seek time => exact h.sublist (List.dropWhile_sublist _)

theorem ordered_askAll {events : List Event}
    (h : events.Pairwise fun a b => a.timestamp ≤ b.timestamp) (calls : List SourceCall) :
    (EventSource.askAll (EventQueue.mk events) calls).2.events.Pairwise
      fun a b => a.timestamp ≤ b.timestamp := by
  induction calls generalizing events with
  | nil => exact h
  | cons call calls ih => exact ih (ordered_ask h call)

end EventQueue

namespace LogReader

variable {files : FileTree} {reader : LogReader} {events : List Event} {steps : List LogStep}

/-! ## The events that a reader offers -/

/-- A reader offers these events: the one read ahead, and those that it accepts in the steps before it. All
of these can be made, and with no event ahead there are none. -/
def Offers (files : FileTree) (reader : LogReader) (events : List Event) : Prop :=
  ∃ steps, reader.Faces steps ∧ (∀ step ∈ steps, Disk.Allows files step) ∧
    (reader.ahead = none → steps = []) ∧
    events = reader.ahead.toList ++ reader.accepted (linesRead steps)

theorem Offers.ahead_of_nil (h : Offers files reader []) : reader.ahead = none := by
  obtain ⟨steps, -, -, -, heq⟩ := h
  have htoList : reader.ahead.toList = [] := (List.append_eq_nil_iff.mp heq.symm).1
  simpa using htoList

/-- The first event that is offered is the one read ahead, and the others are still to be read. -/
theorem Offers.ahead_of_cons {event : Event} (h : Offers files reader (event :: events)) :
    reader.ahead = some event ∧ ∃ steps, reader.Faces steps ∧
      (∀ step ∈ steps, Disk.Allows files step) ∧ reader.accepted (linesRead steps) = events := by
  obtain ⟨steps, hfaces, hallows, hended, heq⟩ := h
  cases hahead : reader.ahead with
  | none =>
    obtain rfl := hended hahead
    rw [hahead] at heq
    cases heq
  | some first =>
    rw [hahead] at heq
    obtain ⟨rfl, rfl⟩ := List.cons.inj heq
    exact ⟨rfl, steps, hfaces, hallows, rfl⟩

theorem Offers.isSome_ahead (h : Offers files reader events) : reader.ahead.isSome = !events.isEmpty := by
  cases events with
  | nil => rw [h.ahead_of_nil]; rfl
  | cons event events => rw [h.ahead_of_cons.1]; rfl

/-- The event that a reader reads on to is the first of those that it accepts; read ahead, it is the
first of those that are offered. -/
theorem readOn_offers (hfaces : reader.Faces steps) (hallows : ∀ step ∈ steps, Disk.Allows files step) :
    ∃ ahead reader' notices, readOn files reader = ⟨.ok ahead, reader', notices⟩ ∧
      Offers files { reader' with ahead } (reader.accepted (linesRead steps)) := by
  obtain ⟨ahead, reader', notices, left, heq, hreads⟩ := readOn_eq_ok hfaces hallows
  obtain ⟨made, rfl, hpasses⟩ := hreads.passes
  have hfaces' : reader'.Faces left := by simpa using hreads.faces
  refine ⟨ahead, reader', notices, heq, left, hfaces'.look ahead,
    fun step hstep => hallows step (List.mem_append_right made hstep), hreads.ended, ?_⟩
  rw [linesRead_append]
  exact hpasses.accepted_append (linesRead left)

/-! ## What the calls do to them -/

/-- Asked for the next event, a reader hands out the first one that it offers. -/
theorem Offers.next (h : Offers files reader events) :
    ∃ reader' notices, reader.next files = ⟨.ok events.head?, reader', notices⟩ ∧
      Offers files reader' events.tail := by
  cases events with
  | nil => exact ⟨reader, [], by rw [LogReader.next, h.ahead_of_nil]; rfl, h⟩
  | cons event events =>
    obtain ⟨hahead, steps, hfaces, hallows, rfl⟩ := h.ahead_of_cons
    obtain ⟨ahead, reader', notices, hread, hoffers⟩ := readOn_offers (hfaces.look none) hallows
    refine ⟨{ reader' with ahead }, notices, ?_, hoffers⟩
    rw [LogReader.next, hahead]
    simp only [hread]
    rfl

/-- A reader that is drained hands out all that it offers. -/
theorem Offers.drain (h : Offers files reader events) (notices : List Notice) :
    (reader.drain files notices).1.answer = .ok () ∧ (reader.drain files notices).2 = events := by
  induction events generalizing reader notices with
  | nil =>
    have hdrain : reader.drain files notices = (⟨.ok (), reader, notices⟩, []) := by
      unfold LogReader.drain
      rw [h.ahead_of_nil]
    rw [hdrain]
    exact ⟨rfl, rfl⟩
  | cons event events ih =>
    obtain ⟨reader', more, hnext, hoffers⟩ := h.next
    obtain ⟨hanswer, hevents⟩ := ih hoffers (notices ++ more)
    rw [drain_next hnext]
    exact ⟨hanswer, congrArg (event :: ·) hevents⟩

/-- A seek to a time that no event offered is before changes nothing. -/
theorem Offers.seek_eq_self (h : Offers files reader events) {time : Int}
    (htime : ∀ event ∈ events, time ≤ event.timestamp) (notices : List Notice) :
    reader.seek files time notices = ⟨.ok (), reader, notices⟩ := by
  unfold LogReader.seek
  cases events with
  | nil => rw [h.ahead_of_nil]
  | cons event events =>
    rw [h.ahead_of_cons.1]
    exact if_pos (htime event List.mem_cons_self)

/-- An event that a seek drops is replaced by the next one that is read ahead. -/
theorem seek_drop {event : Event} {ahead : Option Event} {reader' : LogReader} {more : List Notice}
    {time : Int} (hahead : reader.ahead = some event) (hbefore : event.timestamp < time)
    (hread : readOn files reader = ⟨.ok ahead, reader', more⟩) (notices : List Notice) :
    reader.seek files time notices = { reader' with ahead }.seek files time (notices ++ more) := by
  fun_cases LogReader.seek files time reader notices with
  | case1 hnone => simp [hahead] at hnone
  | case2 event' hevent hle =>
    obtain rfl : event = event' := Option.some.inj (hahead.symm.trans hevent)
    omega
  | case3 event' hevent hlt fault reader₁ more' hfault => simp [hread] at hfault
  | case4 event' hevent hlt reader₁ more' hnone =>
    obtain ⟨rfl, rfl, rfl⟩ : ahead = none ∧ reader' = reader₁ ∧ more = more' := by
      simpa [hread] using hnone
    simp only [LogReader.seek]
  | case5 event' hevent hlt following reader₁ more' hsome =>
    obtain ⟨rfl, rfl, rfl⟩ : ahead = some following ∧ reader' = reader₁ ∧ more = more' := by
      simpa [hread] using hsome
    rfl

/-- A seek drops the events offered that are before its time. -/
theorem Offers.seek (h : Offers files reader events) (time : Int) (notices : List Notice) :
    ∃ reader' notices', reader.seek files time notices = ⟨.ok (), reader', notices'⟩ ∧
      Offers files reader' (events.dropWhile fun event => event.timestamp < time) := by
  -- the induction is on the events, since each round of the seek drops one of them
  induction events generalizing reader notices with
  | nil => exact ⟨reader, notices, h.seek_eq_self (by simp) notices, h⟩
  | cons event events ih =>
    obtain ⟨hahead, steps, hfaces, hallows, hevents⟩ := h.ahead_of_cons
    by_cases hbefore : event.timestamp < time
    · obtain ⟨ahead, reader₁, more, hread, hoffers⟩ := readOn_offers hfaces hallows
      rw [hevents] at hoffers
      rw [seek_drop hahead hbefore hread, List.dropWhile_cons_of_pos (by simpa using hbefore)]
      exact ih hoffers (notices ++ more)
    · refine ⟨reader, notices, ?_, ?_⟩
      · unfold LogReader.seek
        rw [hahead]
        exact if_pos (Int.not_lt.mp hbefore)
      · rw [List.dropWhile_cons_of_neg (by simpa using hbefore)]
        exact h

/-- A log whose segments can all be read can be opened, and offers events in the order of their times. -/
theorem offers_ofRoot {root start : String} {paths : List String}
    (hlist : listSegments files root start = .ok paths)
    (hread : ∀ path ∈ paths, ∃ content, files.read path = .ok content) :
    ∃ reader notices events, ofRoot files root start = .ok (reader, notices) ∧
      Offers files reader events ∧ events.Pairwise fun a b => a.timestamp ≤ b.timestamp := by
  set segments := paths.map fun path => (path, (files.read path).toOption.getD []) with hsegments
  have hpaths : segments.map Prod.fst = paths := by
    rw [hsegments, List.map_map]
    exact List.map_id paths
  have hfiles : ∀ segment ∈ segments, files.read segment.1 = .ok segment.2 := by
    intro segment hsegment
    obtain ⟨path, hpath, rfl⟩ := List.mem_map.mp hsegment
    obtain ⟨content, hcontent⟩ := hread path hpath
    simp [hcontent, Except.toOption]
  obtain ⟨ahead, reader, notices, heq, hoffers⟩ :=
    readOn_offers (hpaths ▸ faces_start segments) (FileTree.allows_of_mem_stepsOf hfiles)
  refine ⟨{ reader with ahead }, notices, _, ?_, hoffers, keepOrdered_ordered none _⟩
  rw [ofRoot, hlist]
  simp only [heq]

end LogReader

/-! ## Logs and queues -/

namespace OpenLog

/-- An open log offers what its reader offers. -/
def Offers (log : OpenLog) (events : List Event) : Prop := log.reader.Offers log.files events

variable {log : OpenLog} {events : List Event}

theorem Offers.drain (h : log.Offers events) :
    (EventSource.drain log).1.answer = .ok () ∧ (EventSource.drain log).2 = events :=
  LogReader.Offers.drain h []

theorem Offers.seek (h : log.Offers events) (time : Int) :
    (EventSource.seek time log).answer = .ok () ∧
      (EventSource.seek time log).source.Offers (events.dropWhile fun event => event.timestamp < time) := by
  obtain ⟨reader', notices, hseek, hoffers⟩ := LogReader.Offers.seek h time []
  show (log.reader.seek log.files time []).answer = _ ∧
    LogReader.Offers log.files (log.reader.seek log.files time []).source _
  rw [hseek]
  exact ⟨rfl, hoffers⟩

theorem Offers.seek_eq_self (h : log.Offers events) {time : Int}
    (htime : ∀ event ∈ events, time ≤ event.timestamp) : (EventSource.seek time log).source = log := by
  show { log with reader := (log.reader.seek log.files time []).source } = log
  rw [LogReader.Offers.seek_eq_self h htime]

/-- A log answers a call as the queue of the events that it offers does, and offers then what the queue
holds. -/
theorem Offers.ask (h : log.Offers events) (call : SourceCall) :
    (EventSource.ask log call).1 = (EventSource.ask (EventQueue.mk events) call).1 ∧
      (EventSource.ask log call).2.Offers (EventSource.ask (EventQueue.mk events) call).2.events := by
  cases call with
  | hasNext => exact ⟨congrArg SourceAnswer.hasNext (LogReader.Offers.isSome_ahead h), h⟩
  | next =>
    obtain ⟨reader', notices, hnext, hoffers⟩ := LogReader.Offers.next h
    show SourceAnswer.next (log.reader.next log.files).answer = .next (EventQueue.next ⟨events⟩).answer ∧
      LogReader.Offers log.files (log.reader.next log.files).source (EventQueue.next ⟨events⟩).source.events
    rw [hnext, EventQueue.next_eq]
    exact ⟨rfl, hoffers⟩
  | seek time =>
    obtain ⟨hanswer, hoffers⟩ := h.seek time
    exact ⟨congrArg SourceAnswer.seek hanswer, hoffers⟩

theorem Offers.askAll (h : log.Offers events) (calls : List SourceCall) :
    (EventSource.askAll log calls).1 = (EventSource.askAll (EventQueue.mk events) calls).1 ∧
      (EventSource.askAll log calls).2.Offers
        (EventSource.askAll (EventQueue.mk events) calls).2.events := by
  induction calls generalizing log events with
  | nil => exact ⟨rfl, h⟩
  | cons call calls ih =>
    obtain ⟨hanswer, hoffers⟩ := h.ask call
    obtain ⟨hanswers, hrest⟩ := ih hoffers
    exact ⟨congrArg₂ List.cons hanswer hanswers, hrest⟩

/-- A log whose segments can all be read answers every sequence of calls as the queue of its events does.
Whatever has been asked before, the log still holds the events that the queue holds. A seek leaves those
of them from its time on, and changes nothing where none is before that time, as is the case when it
comes after another seek to a time that is no earlier. -/
theorem answers_like_queue {files : FileTree} {root start : String} {paths : List String}
    (hlist : listSegments files root start = .ok paths)
    (hread : ∀ path ∈ paths, ∃ content, files.read path = .ok content) :
    ∃ reader notices, LogReader.ofRoot files root start = .ok (reader, notices) ∧
      let log : OpenLog := ⟨files, reader⟩
      let queue := EventQueue.ofList (EventSource.drain log).2
      (EventSource.drain log).1.answer = .ok () ∧
      ∀ calls,
        let asked := EventSource.askAll log calls
        let left := (EventSource.askAll queue calls).2.events
        asked.1 = (EventSource.askAll queue calls).1 ∧
        ((EventSource.drain asked.2).1.answer = .ok () ∧ (EventSource.drain asked.2).2 = left) ∧
        ∀ time,
          let sought := EventSource.seek time asked.2
          sought.answer = .ok () ∧
          (EventSource.drain sought.source).1.answer = .ok () ∧
          (EventSource.drain sought.source).2 = (left.filter fun event => time ≤ event.timestamp) ∧
          ((∀ event ∈ left, time ≤ event.timestamp) → sought.source = asked.2) ∧
          ∀ earlier ≤ time, (EventSource.seek earlier sought.source).source = sought.source := by
  obtain ⟨reader, notices, events, hopen, hoffers, hordered⟩ := LogReader.offers_ofRoot hlist hread
  refine ⟨reader, notices, hopen, ?_⟩
  intro log queue
  have hlog : log.Offers events := hoffers
  have hqueue : queue = ⟨events⟩ := by
    show EventQueue.ofList (EventSource.drain log).2 = ⟨events⟩
    rw [hlog.drain.2, EventQueue.ofList_of_ordered hordered]
  rw [hqueue]
  refine ⟨hlog.drain.1, ?_⟩
  intro calls asked left
  obtain ⟨hanswers, hasked⟩ := hlog.askAll calls
  have hleft : left.Pairwise fun a b => a.timestamp ≤ b.timestamp :=
    EventQueue.ordered_askAll hordered calls
  refine ⟨hanswers, hasked.drain, ?_⟩
  intro time sought
  obtain ⟨hanswer, hsought⟩ := hasked.seek time
  rw [EventQueue.dropWhile_eq_filter hleft] at hsought
  refine ⟨hanswer, hsought.drain.1, hsought.drain.2, hasked.seek_eq_self, ?_⟩
  intro earlier hearlier
  apply hsought.seek_eq_self
  intro event hevent
  have htime : time ≤ event.timestamp := by simpa using (List.mem_filter.mp hevent).2
  exact hearlier.trans htime

/-- Two segments with three events: a seek between them drops the second event, and a seek back does not
bring it again. -/
theorem answers_like_queue_two_segments :
    listSegments LogReader.twoEventLog "/log" "" = .ok ["/log/1.json", "/log/2.json"] ∧
      ∃ reader notices, LogReader.ofRoot LogReader.twoEventLog "/log" "" = .ok (reader, notices) ∧
        (EventSource.askAll (OpenLog.mk LogReader.twoEventLog reader)
          [.next, .seek 250, .hasNext, .seek 0, .next, .next]).1 =
          [.next (.ok (some ⟨100, "a", Bytes.ofAscii "1"⟩)), .seek (.ok ()), .hasNext true, .seek (.ok ()),
            .next (.ok (some ⟨300, "c", Bytes.ofAscii "3"⟩)), .next (.ok none)] := by
  have hlist : listSegments LogReader.twoEventLog "/log" "" = .ok ["/log/1.json", "/log/2.json"] :=
    LogReader.listSegments_twoEventLog
  have hcontents : LogReader.twoEventLog.read "/log/1.json" = .ok LogReader.twoEvents ∧
      LogReader.twoEventLog.read "/log/2.json" = .ok (Bytes.ofAscii "[300,\"c\",3]\n") := by
    have hparts : Path.parts "/log/1.json" = ["log", "1.json"] ∧
        Path.parts "/log/2.json" = ["log", "2.json"] := by
      rw [Path.parts_eq, Path.parts_eq]
      decide +kernel
    have hfile : Path.namesDirectory "/log/1.json" = false ∧ Path.namesDirectory "/log/2.json" = false := by
      decide +kernel
    simp [FileTree.read, FileTree.resolve, hparts, hfile, FileTree.origin, FileTree.walk,
      FileTree.kind?, FileTree.file?, LogReader.twoEventLog, LogReader.oneEvent]
  refine ⟨hlist, ?_⟩
  have hread : ∀ path ∈ ["/log/1.json", "/log/2.json"], ∃ content,
      LogReader.twoEventLog.read path = .ok content := by
    intro path hpath
    simp only [List.mem_cons, List.not_mem_nil, or_false] at hpath
    rcases hpath with rfl | rfl
    · exact ⟨_, hcontents.1⟩
    · exact ⟨_, hcontents.2⟩
  obtain ⟨reader, notices, hopen, -, hcalls⟩ := answers_like_queue hlist hread
  refine ⟨reader, notices, hopen, ?_⟩
  -- what a drained reader keeps is known from the lines of the two segments
  obtain ⟨reader', notices', drained, more, kept, hopen', hdrain, hpasses, -⟩ :=
    LogReader.drain_segments hlist (.cons hcontents.1 (.cons hcontents.2 .nil))
  obtain ⟨rfl, -⟩ : reader = reader' ∧ notices = notices' := by
    simpa [hopen] using hopen'
  have hevents : (EventSource.drain (OpenLog.mk LogReader.twoEventLog reader)).2 =
      [⟨100, "a", Bytes.ofAscii "1"⟩, ⟨200, "b", Bytes.ofAscii "2"⟩, ⟨300, "c", Bytes.ofAscii "3"⟩] := by
    show (reader.drain LogReader.twoEventLog []).2 = _
    rw [hdrain]
    refine hpasses.kept_eq.trans ?_
    decide +kernel
  obtain ⟨hanswers, -⟩ := hcalls [.next, .seek 250, .hasNext, .seek 0, .next, .next]
  rw [hevents, EventQueue.ofList_of_ordered (by decide)] at hanswers
  exact hanswers

end OpenLog

end EventReplay
