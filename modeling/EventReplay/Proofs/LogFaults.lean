import EventReplay.Proofs.LogSteps

/-!
# A step that cannot be made

A reader looks one event ahead, so it comes to a step that fails, the opening of a segment or the reading
of a line or of the end of one, in the call that is to hand out the last event before that step. That call
fails, the event is gone, and from then on the reader answers as at the end of the log
(`LogReader.answers_broken`). So the calls lose nothing just if they are too few to come to that step
(`LogReader.lossless_answers_iff`).
-/

set_option autoImplicit false

namespace EventReplay

/-- A step that is made with a disk fails, for this cause. -/
def Disk.Fails (disk : Disk) (cause : FileFault) : LogStep → Prop
  | .opening path _ => disk.openFile path = .error cause
  | .line path _ number _ | .closing path _ number =>
    ∃ lost, disk.readFault path number = some ⟨cause, lost⟩

theorem OpenSegment.refresh_place (files : FileTree) (segment : OpenSegment) :
    (segment.refresh files).path = segment.path ∧ (segment.refresh files).line = segment.line := by
  unfold OpenSegment.refresh
  cases files.read segment.path <;> exact ⟨rfl, rfl⟩

/-- A segment whose file holds what it held at its opening, or is not there, has nothing to take in. -/
theorem OpenSegment.refresh_eq_self {files : FileTree} {segment : OpenSegment} {content : Bytes}
    (hseen : segment.seen = content.length)
    (hsame : ∀ found, files.read segment.path = .ok found → found = content) :
    segment.refresh files = segment := by
  unfold OpenSegment.refresh
  split
  · rfl
  next found hread =>
    obtain rfl := hsame found hread
    rw [hseen, Nat.max_self, List.drop_length, List.append_nil, ← hseen]

namespace LogReader

/-- What a reader answers before a call and to it: whether it has an event, and what it hands out. -/
abbrev Answer : Type := Bool × Except SourceFault (Option Event)

/-- What a reader answers to one call after another, each with the disk as it is at that time. What has been
appended to the open segment by then is there to be read. -/
def answers : List Disk → LogReader → List Answer
  | [], _ => []
  | disk :: disks, reader =>
    let pull := (reader.refresh disk.files).next disk
    (reader.ahead.isSome, pull.answer) :: answers disks pull.source

/-- The answer that hands out an event. -/
def handOut (event : Event) : Answer := (true, .ok (some event))

/-- The answer of a reader that is at its end. -/
def atEnd : Answer := (false, .ok none)

/-- The event that an answer hands out. -/
def Answer.event? : Answer → Option Event
  | (_, .ok event) => event
  | (_, .error _) => none

/-- In a run of answers no accepted event is lost: all are handed out before the first fault, and behind a
fault the end is not reached before that. -/
structure Lossless (events : List Event) (answers : List Answer) : Prop where
  complete : ∀ before more fault after, answers = before ++ (more, .error fault) :: after →
    (∀ answer ∈ before, ∃ event, answer.2 = .ok event) → before.filterMap Answer.event? = events
  honest : ∀ before more fault between after,
    answers = before ++ (more, .error fault) :: (between ++ atEnd :: after) →
    (before ++ between).filterMap Answer.event? = events

variable {disk : Disk} {disks : List Disk} {reader : LogReader} {event : Event}
  {step : LogStep} {steps rest : List LogStep} {events : List Event} {cause : FileFault}

/-! ## Files that change between calls -/

/-- With a segment open, the next step is made in it. -/
theorem Faces.step_of_current {segment : OpenSegment} (h : reader.Faces (step :: steps))
    (hcurrent : reader.current = some segment) :
    ∃ content, segment.seen = content.length ∧
      ((∃ text, step = .line segment.path content segment.line text) ∨
        step = .closing segment.path content segment.line) := by
  obtain ⟨content, segments, -, hseen, hsteps⟩ := h.steps_eq
  rw [unreadSteps_of_current hcurrent] at hsteps
  refine ⟨content, hseen segment hcurrent, ?_⟩
  cases hlines : Bytes.lines segment.unread with
  | nil =>
    rw [hlines] at hsteps
    exact Or.inr (List.cons.inj hsteps).1
  | cons text lines =>
    rw [hlines] at hsteps
    exact Or.inl ⟨text, (List.cons.inj hsteps).1⟩

/-- As long as the open segment can be read on, nothing has been appended to it. -/
theorem Faces.refresh_eq_self (h : reader.Faces (step :: steps)) (hallows : disk.Allows step) :
    reader.refresh disk.files = reader := by
  have hcurrent : reader.current.map (OpenSegment.refresh disk.files) = reader.current := by
    cases hcurrent : reader.current with
    | none => rfl
    | some segment =>
      obtain ⟨content, hseen, hstep⟩ := h.step_of_current hcurrent
      refine congrArg some (OpenSegment.refresh_eq_self hseen ?_)
      obtain ⟨text, rfl⟩ | rfl := hstep
      · exact hallows.2
      · exact hallows.2
  rw [refresh, hcurrent]

/-! ## The step that fails -/

/-- A reader comes to a step next, whatever is left to read of the segment that is open. -/
def IsAt (reader : LogReader) : LogStep → Prop
  | .opening path _ => reader.current = none ∧ reader.pending.head? = some path
  | .line path _ number _ | .closing path _ number =>
    ∃ segment, reader.current = some segment ∧ segment.path = path ∧ segment.line = number

theorem Faces.isAt (h : reader.Faces (step :: steps)) : reader.IsAt step := by
  cases hcurrent : reader.current with
  | none =>
    obtain ⟨content, segments, hpending, -, hsteps⟩ := h.steps_eq
    rw [unreadSteps, hcurrent, List.nil_append] at hsteps
    cases segments with
    | nil => cases hsteps
    | cons segment segments =>
      obtain ⟨rfl, -⟩ := List.cons.inj hsteps
      exact ⟨hcurrent, by rw [hpending]; rfl⟩
  | some segment =>
    obtain ⟨content, -, ⟨text, rfl⟩ | rfl⟩ := h.step_of_current hcurrent
    · exact ⟨segment, hcurrent, rfl, rfl⟩
    · exact ⟨segment, hcurrent, rfl, rfl⟩

/-- What is taken in does not move a reader. -/
theorem IsAt.refresh (h : reader.IsAt step) (files : FileTree) : (reader.refresh files).IsAt step := by
  have hopen : ∀ {path : String} {number : Nat},
      (∃ segment, reader.current = some segment ∧ segment.path = path ∧ segment.line = number) →
      ∃ segment, (reader.refresh files).current = some segment ∧ segment.path = path ∧
        segment.line = number := by
    rintro path number ⟨segment, hcurrent, rfl, rfl⟩
    exact ⟨segment.refresh files, congrArg (Option.map (OpenSegment.refresh files)) hcurrent,
      OpenSegment.refresh_place files segment⟩
  cases step with
  | opening path content =>
    exact ⟨congrArg (Option.map (OpenSegment.refresh files)) h.1, h.2⟩
  | line path content number text => exact hopen h
  | closing path content number => exact hopen h

theorem stumble_ahead (reader : LogReader) (path : String) (paths : List String) (cause : FileFault) :
    (reader.stumble path paths cause).ahead = reader.ahead := by
  rw [stumble]
  split <;> rfl

/-- The round that comes to the step fails. -/
theorem round_failed (hsound : reader.broken = none) (hat : reader.IsAt step)
    (hfails : disk.Fails cause step) :
    ∃ reader', round disk reader = .failed (.unreadable step.path cause) reader' ∧
      reader'.ahead = reader.ahead := by
  have hopen : ∀ {path : String} {number : Nat},
      (∃ segment, reader.current = some segment ∧ segment.path = path ∧ segment.line = number) →
      (∃ lost, disk.readFault path number = some ⟨cause, lost⟩) →
      ∃ reader', round disk reader = .failed (.unreadable path cause) reader' ∧
        reader'.ahead = reader.ahead := by
    rintro path number ⟨segment, hcurrent, rfl, rfl⟩ ⟨lost, hfault⟩
    refine ⟨reader.moveTo (segment.lose lost), ?_, rfl⟩
    rw [round, hsound, hcurrent]
    simp only [readLine, hfault]
  cases step with
  | opening path content =>
    obtain ⟨hcurrent, hhead⟩ := hat
    obtain ⟨paths, hpending⟩ := List.head?_eq_some_iff.mp hhead
    have hfault : disk.openFile path = .error cause := hfails
    refine ⟨reader.stumble path paths cause, ?_, stumble_ahead ..⟩
    rw [round, hsound, hcurrent]
    simp only [openNext, hpending, hfault]
    rfl
  | line path content number text => exact hopen hat hfails
  | closing path content number => exact hopen hat hfails

/-! ## Reading on -/

/-- A reader is to accept these events in the steps before it, reading on once with each of the disks. A step
is made on the way to the event that follows all events accepted before it, and the disk of that time allows
it. -/
structure Expects (reader : LogReader) (disks : List Disk) (steps rest : List LogStep)
    (events : List Event) : Prop where
  faces : reader.Faces (steps ++ rest)
  allows : ∀ before step after, steps = before ++ step :: after →
    ∀ disk, disks[(reader.accepted (linesRead before)).length]? = some disk → disk.Allows step
  accepted_eq : reader.accepted (linesRead steps) = events

theorem Expects.getsOn (h : reader.Expects (disk :: disks) steps rest events) :
    GetsOn disk reader steps := by
  intro before step after hsplit hnone
  exact h.allows before step after hsplit disk (by rw [hnone]; rfl)

theorem Expects.look (h : reader.Expects disks steps rest events) (ahead : Option Event) :
    { reader with ahead }.Expects disks steps rest events :=
  ⟨h.faces.look ahead, h.allows, h.accepted_eq⟩

/-- A reader that has a step to make with the first disk finds its open segment as it was. -/
theorem Expects.refresh_eq_self (h : reader.Expects (disk :: disks) (step :: steps) rest events) :
    reader.refresh disk.files = reader := by
  have hfaces : reader.Faces (step :: (steps ++ rest)) := h.faces
  exact hfaces.refresh_eq_self (h.getsOn [] step steps rfl rfl)

/-- Reading on with the first disk takes the first event. -/
theorem readOn_accepted (h : reader.Expects (disk :: disks) steps rest (event :: events)) :
    ∃ reader' notices left,
      readOn disk (reader.refresh disk.files) = ⟨.ok (some event), reader', notices⟩ ∧
      LogReader.Expects reader' disks left rest events := by
  have hsame : reader.refresh disk.files = reader := by
    cases steps with
    | nil => cases h.accepted_eq
    | cons step steps => exact h.refresh_eq_self
  rw [hsame]
  obtain ⟨answer, reader', notices, left, hreads, heq⟩ := readFrom_readsOn [] h.faces h.getsOn
  obtain ⟨made, rfl, hpasses⟩ := hreads.passes
  have haccepted := h.accepted_eq
  rw [linesRead_append, hpasses.accepted_append] at haccepted
  cases answer with
  | none =>
    obtain rfl := hreads.ended rfl
    cases haccepted
  | some first =>
    obtain ⟨rfl, haccepted'⟩ := List.cons.inj haccepted
    refine ⟨reader', notices, left, heq, hreads.faces, ?_, haccepted'⟩
    intro before step after hsplit disk hdisk
    refine h.allows (made ++ before) step after (by rw [hsplit, List.append_assoc]) disk ?_
    rw [linesRead_append, hpasses.accepted_append]
    exact hdisk

/-- With no event to accept before it, reading on comes to the step that fails. -/
theorem readOn_failed (h : reader.Expects (disk :: disks) steps (step :: rest) [])
    (hfails : disk.Fails cause step) :
    ∃ reader' notices,
      readOn disk (reader.refresh disk.files) = ⟨.error (.unreadable step.path cause), reader', notices⟩ ∧
      reader'.ahead = reader.ahead := by
  cases steps with
  | nil =>
    -- the step comes first, and the segment that is open may have changed in any way
    have hsound : (reader.refresh disk.files).broken = none := h.faces.sound
    obtain ⟨reader', hround, hahead⟩ := round_failed hsound (h.faces.isAt.refresh disk.files) hfails
    exact ⟨reader', [], readFrom_failed hround [], hahead⟩
  | cons first steps =>
    rw [h.refresh_eq_self]
    obtain ⟨answer, reader₁, notices, left, hreads, heq⟩ := readFrom_readsOn [] h.faces h.getsOn
    cases answer with
    | some event =>
      obtain ⟨made, hmade, hpasses⟩ := hreads.passes
      have haccepted := h.accepted_eq
      rw [hmade, linesRead_append, hpasses.accepted_append] at haccepted
      cases haccepted
    | none =>
      obtain rfl := hreads.ended rfl
      obtain ⟨reader', hround, hahead⟩ := round_failed hreads.faces.sound hreads.faces.isAt hfails
      exact ⟨reader', notices, heq.trans (readFrom_failed hround notices), hahead.trans hreads.ahead⟩

/-! ## One call after another -/

/-- A reader with no event ahead has come to its end, whatever lies before it. -/
theorem answers_exhausted (hahead : reader.ahead = none) (disks : List Disk) :
    reader.answers disks = List.replicate disks.length atEnd := by
  induction disks generalizing reader with
  | nil => rfl
  | cons disk disks ih =>
    have hahead' : (reader.refresh disk.files).ahead = none := hahead
    have hnext : (reader.refresh disk.files).next disk = ⟨.ok none, reader.refresh disk.files, []⟩ := by
      rw [next, hahead']
    rw [answers, hnext, hahead]
    exact congrArg (atEnd :: ·) (ih hahead')

/-- A call hands out the event read ahead if reading on comes to another one. -/
theorem next_accepted (hahead : reader.ahead = some event) {following : Event}
    (h : reader.Expects (disk :: disks) steps rest (following :: events)) :
    ∃ reader' notices left,
      (reader.refresh disk.files).next disk = ⟨.ok (some event), reader', notices⟩ ∧
      reader'.ahead = some following ∧ reader'.Expects disks left rest events := by
  obtain ⟨reader₁, notices, left, heq, h₁⟩ := readOn_accepted (h.look none)
  refine ⟨{ reader₁ with ahead := some following }, notices, left, ?_, rfl, h₁.look _⟩
  have hahead' : (reader.refresh disk.files).ahead = some event := hahead
  have heq' : readOn disk { reader.refresh disk.files with ahead := none } = _ := heq
  rw [next, hahead']
  simp only [heq']

/-- A call fails if reading on comes to the step that fails, and then no event is ahead. -/
theorem next_failed (hahead : reader.ahead = some event)
    (h : reader.Expects (disk :: disks) steps (step :: rest) []) (hfails : disk.Fails cause step) :
    ∃ reader' notices,
      (reader.refresh disk.files).next disk = ⟨.error (.unreadable step.path cause), reader', notices⟩ ∧
      reader'.ahead = none := by
  obtain ⟨reader', notices, heq, hahead'⟩ := readOn_failed (h.look none) hfails
  refine ⟨reader', notices, ?_, hahead'⟩
  have hahead' : (reader.refresh disk.files).ahead = some event := hahead
  have heq' : readOn disk { reader.refresh disk.files with ahead := none } = _ := heq
  rw [next, hahead']
  simp only [heq']

/-- As long as reading on comes to an accepted event, every call hands out one. -/
theorem answers_accepted (working more : List Disk) (hahead : reader.ahead = some event)
    (h : reader.Expects (working ++ more) steps rest events) (hcount : working.length ≤ events.length) :
    ∃ (reader' : LogReader) (event' : Event) (left : List LogStep) (events' : List Event),
      reader.answers (working ++ more) =
        ((event :: events).take working.length).map handOut ++ reader'.answers more ∧
      reader'.ahead = some event' ∧ reader'.Expects more left rest events' ∧
      event' :: events' = (event :: events).drop working.length := by
  induction working generalizing reader event steps events with
  | nil => exact ⟨reader, event, steps, events, rfl, hahead, h, rfl⟩
  | cons disk working ih =>
    obtain ⟨following, events, rfl⟩ := List.exists_cons_of_length_pos (Nat.zero_lt_of_lt hcount)
    obtain ⟨reader₁, notices, left, hnext, hahead₁, h₁⟩ := next_accepted hahead h
    obtain ⟨reader', event', left', events', hanswers, hahead', h', hevents⟩ :=
      ih hahead₁ h₁ (Nat.le_of_succ_le_succ hcount)
    refine ⟨reader', event', left', events', ?_, hahead', h', hevents⟩
    rw [List.cons_append, answers, hnext, hanswers, hahead]
    rfl

/-- Before a step that fails, every call hands out an event but the one that is to hand out the last of
them. That one fails, and all calls behind it find the reader at its end. -/
theorem answers_broken (working after : List Disk) (hahead : reader.ahead = some event)
    (h : reader.Expects (working ++ disk :: after) steps (step :: rest) events)
    (hfails : disk.Fails cause step) (hcount : working.length = events.length) :
    reader.answers (working ++ disk :: after) =
      (event :: events).dropLast.map handOut ++
        (true, .error (.unreadable step.path cause)) :: List.replicate after.length atEnd := by
  obtain ⟨reader₁, event₁, left, events₁, hanswers, hahead₁, h₁, hevents⟩ :=
    answers_accepted working (disk :: after) hahead h hcount.le
  obtain rfl : events₁ = [] := by
    have hlength := congrArg List.length hevents
    rw [List.length_drop, List.length_cons, List.length_cons, hcount] at hlength
    exact List.length_eq_zero_iff.mp (by omega)
  obtain ⟨reader₂, notices, hnext, hahead₂⟩ := next_failed hahead₁ h₁ hfails
  rw [hanswers, answers, hnext, answers_exhausted hahead₂, hahead₁, List.dropLast_eq_take, hcount]
  rfl

/-- While there are fewer calls than events, every call hands out an event. -/
theorem answers_of_lt {calls : List Disk} (hahead : reader.ahead = some event)
    (h : reader.Expects calls steps rest events) (hcalls : calls.length < (event :: events).length) :
    reader.answers calls = ((event :: events).take calls.length).map handOut := by
  rw [← List.append_nil calls] at h
  obtain ⟨reader', -, -, -, hanswers, -⟩ :=
    answers_accepted calls [] hahead h (Nat.le_of_lt_succ hcalls)
  rwa [List.append_nil, answers, List.append_nil] at hanswers

/-- With as many calls as events, the call that is to hand out the last event is the one that fails. -/
theorem answers_of_le {calls : List Disk} (hahead : reader.ahead = some event)
    (h : reader.Expects calls steps (step :: rest) events)
    (hfails : ∀ disk, calls[events.length]? = some disk → disk.Fails cause step)
    (hcalls : (event :: events).length ≤ calls.length) :
    reader.answers calls = (event :: events).dropLast.map handOut ++
      (true, .error (.unreadable step.path cause)) ::
        List.replicate (calls.length - (event :: events).length) atEnd := by
  rw [List.length_cons] at hcalls
  have hcut : calls.take events.length ++ calls[events.length] :: calls.drop (events.length + 1) =
      calls := by
    rw [List.getElem_cons_drop, List.take_append_drop]
  rw [← hcut] at h
  have hanswers := answers_broken _ _ hahead h (hfails _ (List.getElem?_eq_getElem hcalls))
    (List.length_take_of_le (Nat.le_of_lt hcalls))
  rwa [hcut, List.length_drop] at hanswers

/-- Handing out events loses none. -/
theorem lossless_handOut (events handed : List Event) : Lossless events (handed.map handOut) := by
  have hfault : ∀ before more fault after,
      handed.map handOut ≠ before ++ ((more, .error fault) : Answer) :: after := by
    intro before more fault after h
    have hmem : ((more, .error fault) : Answer) ∈ handed.map handOut := by
      rw [h]
      exact List.mem_append_right _ List.mem_cons_self
    obtain ⟨event, -, heq⟩ := List.mem_map.mp hmem
    simp [handOut] at heq
  exact ⟨fun _ _ _ _ h => (hfault _ _ _ _ h).elim, fun _ _ _ _ _ h => (hfault _ _ _ _ h).elim⟩

theorem filterMap_handOut (events : List Event) :
    (events.map handOut).filterMap Answer.event? = events := by
  rw [List.filterMap_map]
  exact List.filterMap_some

/-- The last event is lost if a fault comes in its place. -/
theorem not_lossless_dropLast (hsome : events ≠ []) (more : Bool) (fault : SourceFault)
    (after : List Answer) :
    ¬ Lossless events (events.dropLast.map handOut ++ (more, .error fault) :: after) := by
  intro hlossless
  have hall := hlossless.complete _ _ _ _ rfl (by
    rw [List.forall_mem_map]
    exact fun event _ => ⟨some event, rfl⟩)
  rw [filterMap_handOut] at hall
  have hlength := congrArg List.length hall
  rw [List.length_dropLast] at hlength
  have hpos := List.length_pos_of_ne_nil hsome
  omega

/-! ## Logs -/

/-- The events that are accepted in some steps of reading a log from its start. -/
def eventsOf (steps : List LogStep) : List Event := keepOrdered none (logRecords (linesRead steps))

/-- A log is opened with the first accepted event read ahead. -/
theorem ofRoot_accepted {root start : String} {pending : List String}
    (hlist : listSegments disk.files root start = .ok pending)
    (h : LogReader.Expects { pending } (disk :: disks) steps rest (event :: events)) :
    ∃ reader notices left,
      ofRoot disk root start = .ok (reader, notices) ∧ reader.ahead = some event ∧
      reader.Expects disks left rest events := by
  obtain ⟨reader, notices, left, heq, h'⟩ := readOn_accepted h
  refine ⟨{ reader with ahead := some event }, notices, left, ?_, rfl, h'.look _⟩
  have heq' : readOn disk { pending } = ⟨.ok (some event), reader, notices⟩ := heq
  rw [ofRoot, hlist]
  simp only [heq']

/-- A log is opened and then read in calls, each with the disk as it is at that time. Whichever step of
reading it fails when the reader comes to it, the opening of a segment, a line of one or the end of one, if
no event is accepted before that step, the log cannot be opened. Otherwise the reader hands out the events
before the step except for the last one. In place of that one it answers the fault, and to every later call
that it is at its end. So no event is lost just if there are fewer calls than accepted events.

Between the calls the files may change and vanish, but a segment that the reader is in must not be given
other content before it has been read to its end or to the step that fails. -/
theorem lossless_answers_iff {calls : List Disk} {root start : String}
    {segments : List (String × Bytes)} {before after : List LogStep}
    (hlist : listSegments disk.files root start = .ok (segments.map Prod.fst))
    (hsteps : stepsOf segments = before ++ step :: after)
    (hallows : ∀ made next left, before = made ++ next :: left →
      ∀ now, (disk :: calls)[(eventsOf made).length]? = some now → now.Allows next)
    (hfails : ∀ now, (disk :: calls)[(eventsOf before).length]? = some now → now.Fails cause step) :
    (eventsOf before = [] → ofRoot disk root start = .error (.unreadable step.path cause)) ∧
    (eventsOf before ≠ [] → ∃ reader notices,
      ofRoot disk root start = .ok (reader, notices) ∧
      (calls.length < (eventsOf before).length →
        reader.answers calls = ((eventsOf before).take calls.length).map handOut) ∧
      ((eventsOf before).length ≤ calls.length →
        reader.answers calls = (eventsOf before).dropLast.map handOut ++
          (true, .error (.unreadable step.path cause)) ::
            List.replicate (calls.length - (eventsOf before).length) atEnd) ∧
      (Lossless (eventsOf before) (reader.answers calls) ↔
        calls.length < (eventsOf before).length)) := by
  have hexpects : LogReader.Expects { pending := segments.map Prod.fst } (disk :: calls) before
      (step :: after) (eventsOf before) :=
    ⟨hsteps ▸ faces_start segments, hallows, rfl⟩
  generalize eventsOf before = events at hexpects hfails ⊢
  refine ⟨?_, fun hsome => ?_⟩
  · rintro rfl
    obtain ⟨reader, notices, heq, -⟩ := readOn_failed hexpects (hfails disk rfl)
    have heq' : readOn disk { pending := segments.map Prod.fst } =
        ⟨.error (.unreadable step.path cause), reader, notices⟩ := heq
    rw [ofRoot, hlist]
    simp only [heq']
  obtain ⟨first, events, rfl⟩ := List.exists_cons_of_ne_nil hsome
  obtain ⟨reader, notices, left, hreader, hahead, h⟩ := ofRoot_accepted hlist hexpects
  have hmany := answers_of_le hahead h hfails
  refine ⟨reader, notices, hreader, answers_of_lt hahead h, hmany, ?_⟩
  constructor
  · intro hlossless
    by_contra hcalls
    rw [hmany (Nat.le_of_not_lt hcalls)] at hlossless
    exact not_lossless_dropLast hsome _ _ _ hlossless
  · intro hcalls
    rw [answers_of_lt hahead h hcalls]
    exact lossless_handOut _ _

/-! ## Two segments, one of which fails -/

/-- A segment with two events. -/
def twoEvents : Bytes := Bytes.ofAscii "[100,\"a\",1]\n[200,\"b\",2]\n"

/-- A segment with one event. -/
def oneEvent : Bytes := Bytes.ofAscii "[300,\"c\",3]\n"

/-- A log of these segments. -/
def twoEventLog : FileTree where
  files := [(["log", "1.json"], twoEvents), (["log", "2.json"], oneEvent)]
  directories := [["log"]]

/-- The log without its second segment. -/
def removedSegment : FileTree where
  files := [(["log", "1.json"], twoEvents)]
  directories := [["log"]]

/-- The log without its second segment, where moreover the second line of the first one cannot be read. -/
def failingLine : Disk where
  files := removedSegment
  readFault path line :=
    if path = "/log/1.json" ∧ line = 1 then some ⟨.other "Input/output error (os error 5)", 4⟩ else none

/-- The segments of the log. -/
def bothSegments : List (String × Bytes) := [("/log/1.json", twoEvents), ("/log/2.json", oneEvent)]

theorem listSegments_twoEventLog :
    listSegments twoEventLog "/log" "" = .ok (bothSegments.map Prod.fst) := by
  have hparts : Path.parts "/log" = ["log"] := by
    rw [Path.parts_eq]
    decide +kernel
  have horigin : "/log".startsWith "/" = true := by decide +kernel
  have hroot : twoEventLog.resolve "/log" = .ok (["log"], some .directory) := by
    simp [FileTree.resolve, hparts, FileTree.origin, horigin, FileTree.walk, FileTree.kind?,
      FileTree.file?, twoEventLog]
  have hfound : twoEventLog.files.filterMap (segmentBelow? ["log"] "") =
      twoEventLog.files.map fun f => (f.1.drop 1, f.2) := by decide +kernel
  have hsegments : segmentsBelow twoEventLog ["log"] "" =
      twoEventLog.files.map fun f => (f.1.drop 1, f.2) := by
    rw [segmentsBelow, hfound]
    exact List.mergeSort_of_pairwise (by decide +kernel)
  rw [listSegments_eq hroot, hsegments]
  decide +kernel

theorem read_segments :
    twoEventLog.read "/log/1.json" = .ok twoEvents ∧ removedSegment.read "/log/1.json" = .ok twoEvents ∧
      removedSegment.read "/log/2.json" = .error .missing := by
  have hparts : Path.parts "/log/1.json" = ["log", "1.json"] ∧
      Path.parts "/log/2.json" = ["log", "2.json"] := by
    rw [Path.parts_eq, Path.parts_eq]
    decide +kernel
  have horigin : "/log/1.json".startsWith "/" = true ∧ "/log/2.json".startsWith "/" = true := by
    decide +kernel
  have hfile : Path.namesDirectory "/log/1.json" = false := by decide +kernel
  simp [FileTree.read, FileTree.resolve, hparts, horigin, hfile, FileTree.origin, FileTree.walk,
    FileTree.kind?, FileTree.file?, twoEventLog, removedSegment]

/-- Disks that all allow some steps allow each of them at its time. -/
theorem allows_of_forall (hallows : ∀ now ∈ disks, ∀ step ∈ steps, now.Allows step) :
    ∀ made next left, steps = made ++ next :: left →
      ∀ now, disks[(eventsOf made).length]? = some now → now.Allows next := by
  rintro made next left rfl now hnow
  exact hallows now (List.mem_of_getElem? hnow) next (List.mem_append_right made List.mem_cons_self)

/-- The steps in the log up to the second line of its first segment. -/
def firstSteps : List LogStep :=
  [.opening "/log/1.json" twoEvents, .line "/log/1.json" twoEvents 0 (Bytes.ofAscii "[100,\"a\",1]\n")]

/-- The second line of the first segment cannot be read in the first call, and could be read again in the
second one. The event before it is accepted but never handed out. -/
theorem lossless_answers_iff_failingLine :
    ∃ reader notices,
      ofRoot twoEventLog "/log" "" = .ok (reader, notices) ∧
      eventsOf firstSteps = [⟨100, "a", Bytes.ofAscii "1"⟩] ∧
      reader.answers [failingLine, twoEventLog] =
        [(true, .error (.unreadable "/log/1.json" (.other "Input/output error (os error 5)"))), atEnd] ∧
      ¬ Lossless (eventsOf firstSteps) (reader.answers [failingLine, twoEventLog]) := by
  have hsteps : stepsOf bothSegments = firstSteps ++
      .line "/log/1.json" twoEvents 1 (Bytes.ofAscii "[200,\"b\",2]\n") ::
        (stepsOf bothSegments).drop 3 := by
    decide +kernel
  have hevents : eventsOf firstSteps = [⟨100, "a", Bytes.ofAscii "1"⟩] := by decide +kernel
  have hallows : ∀ now ∈ ([twoEventLog, failingLine, twoEventLog] : List Disk), ∀ step ∈ firstSteps,
      now.Allows step := by
    have hfirst : ∀ {now : Disk}, now.openFault "/log/1.json" = none →
        now.readFault "/log/1.json" 0 = none → now.files.read "/log/1.json" = .ok twoEvents →
        ∀ step ∈ firstSteps, now.Allows step := by
      intro now hopen hfault hread
      refine List.forall_mem_cons.mpr ⟨?_, List.forall_mem_singleton.mpr ⟨hfault, ?_⟩⟩
      · show now.openFile "/log/1.json" = _
        rw [Disk.openFile, hopen, hread]
      · exact fun found hfound => Except.ok.inj (hfound.symm.trans hread)
    simp only [List.forall_mem_cons, List.not_mem_nil, false_imp_iff, implies_true, and_true]
    exact ⟨hfirst rfl rfl read_segments.1, hfirst rfl (by decide) read_segments.2.1,
      hfirst rfl rfl read_segments.1⟩
  have hfails : ∀ now, ([twoEventLog, failingLine, twoEventLog] : List Disk)[
      (eventsOf firstSteps).length]? = some now → now.Fails (.other "Input/output error (os error 5)")
        (.line "/log/1.json" twoEvents 1 (Bytes.ofAscii "[200,\"b\",2]\n")) := by
    rw [hevents]
    rintro now ⟨rfl⟩
    exact ⟨4, by decide⟩
  obtain ⟨-, h⟩ := lossless_answers_iff listSegments_twoEventLog hsteps (allows_of_forall hallows) hfails
  rw [hevents] at h ⊢
  obtain ⟨reader, notices, hreader, -, hmany, hlossless⟩ := h (by decide)
  exact ⟨reader, notices, hreader, rfl, hmany (by decide), hlossless.not.mpr (by decide)⟩

/-- The second segment is removed after the log has been opened. The second event of the first one is
accepted but never handed out, and behind the fault the reader is at its end. -/
theorem removedSegment_loses_event :
    ∃ reader notices,
      ofRoot twoEventLog "/log" "" = .ok (reader, notices) ∧
      eventsOf (stepsOf [("/log/1.json", twoEvents)]) =
        [⟨100, "a", Bytes.ofAscii "1"⟩, ⟨200, "b", Bytes.ofAscii "2"⟩] ∧
      reader.answers [removedSegment, removedSegment, removedSegment] =
        [(true, .ok (some ⟨100, "a", Bytes.ofAscii "1"⟩)),
          (true, .error (.unreadable "/log/2.json" .missing)), (false, .ok none)] ∧
      ¬ Lossless (eventsOf (stepsOf [("/log/1.json", twoEvents)]))
        (reader.answers [removedSegment, removedSegment, removedSegment]) := by
  have hsteps : stepsOf bothSegments = stepsOf [("/log/1.json", twoEvents)] ++
      .opening "/log/2.json" oneEvent :: (stepsOf bothSegments).drop 5 := by
    decide +kernel
  have hevents : eventsOf (stepsOf [("/log/1.json", twoEvents)]) =
      [⟨100, "a", Bytes.ofAscii "1"⟩, ⟨200, "b", Bytes.ofAscii "2"⟩] := by
    decide +kernel
  have hallows : ∀ now ∈ ([twoEventLog, removedSegment, removedSegment, removedSegment] : List Disk),
      ∀ step ∈ stepsOf [("/log/1.json", twoEvents)], now.Allows step := by
    have hfirst : ∀ {files : FileTree}, files.read "/log/1.json" = .ok twoEvents →
        ∀ step ∈ stepsOf [("/log/1.json", twoEvents)], Disk.Allows files step := fun hread =>
      FileTree.allows_of_mem_stepsOf (List.forall_mem_singleton.mpr hread)
    simp only [List.forall_mem_cons, List.not_mem_nil, false_imp_iff, implies_true, and_true]
    exact ⟨hfirst read_segments.1, hfirst read_segments.2.1, hfirst read_segments.2.1,
      hfirst read_segments.2.1⟩
  have hfails : Disk.Fails removedSegment .missing (.opening "/log/2.json" oneEvent) := read_segments.2.2
  have hexpects : LogReader.Expects { pending := bothSegments.map Prod.fst }
      [twoEventLog, removedSegment, removedSegment, removedSegment]
      (stepsOf [("/log/1.json", twoEvents)]) (.opening "/log/2.json" oneEvent ::
        (stepsOf bothSegments).drop 5) [⟨100, "a", Bytes.ofAscii "1"⟩, ⟨200, "b", Bytes.ofAscii "2"⟩] :=
    ⟨hsteps ▸ faces_start bothSegments, allows_of_forall hallows, hevents⟩
  obtain ⟨reader, notices, left, hreader, hahead, h⟩ := ofRoot_accepted listSegments_twoEventLog hexpects
  have hanswers := answers_broken [↑removedSegment] [↑removedSegment] hahead h hfails rfl
  refine ⟨reader, notices, hreader, hevents, hanswers, ?_⟩
  rw [hevents, show reader.answers [removedSegment, removedSegment, removedSegment] = _ from hanswers]
  exact not_lossless_dropLast (by decide) _ _ _

end LogReader

end EventReplay
