import EventReplay.Proofs.LogPassing

/-!
# The steps in which a log is read

A segment is opened, its lines are read, and its end is found (`stepsOf`). Each of these steps can fail,
and each round of a reader makes the step before it if the disk allows that (`LogReader.round_step`). So a
reader reads on to the first event that it accepts, or to a step that it cannot make
(`LogReader.readFrom_readsOn`).
-/

set_option autoImplicit false

namespace EventReplay

/-- A step in which a log is read. -/
inductive LogStep where
  /-- Opens a segment. -/
  | opening (path : String) (content : Bytes)
  /-- Reads a line of a segment, behind a number of others. -/
  | line (path : String) (content : Bytes) (number : Nat) (text : Bytes)
  /-- Finds the end of a segment, behind all of its lines. -/
  | closing (path : String) (content : Bytes) (number : Nat)
deriving DecidableEq, Repr

namespace LogStep

/-- The segment that a step is made in. -/
def path : LogStep → String
  | opening path _ | line path _ _ _ | closing path _ _ => path

/-- The line that is read in a step, if it reads one. -/
def lines : LogStep → List Bytes
  | opening .. | closing .. => []
  | line _ _ _ text => [text]

end LogStep

/-- The steps that read some lines of a segment, the first of them behind a number of others, and find its
end. -/
def lineSteps (path : String) (content : Bytes) (number : Nat) : List Bytes → List LogStep
  | [] => [.closing path content number]
  | text :: lines => .line path content number text :: lineSteps path content (number + 1) lines

/-- The steps that read segments, given by their paths and contents. -/
def stepsOf : List (String × Bytes) → List LogStep
  | [] => []
  | (path, content) :: segments =>
    .opening path content :: (lineSteps path content 0 (Bytes.lines content) ++ stepsOf segments)

/-- The lines that are read in some steps. -/
def linesRead (steps : List LogStep) : List Bytes := steps.flatMap LogStep.lines

theorem linesRead_append (steps more : List LogStep) :
    linesRead (steps ++ more) = linesRead steps ++ linesRead more :=
  List.flatMap_append ..

theorem linesRead_lineSteps (path : String) (content : Bytes) (number : Nat) (lines : List Bytes) :
    linesRead (lineSteps path content number lines) = lines := by
  induction lines generalizing number with
  | nil => rfl
  | cons text lines ih => exact congrArg (text :: ·) (ih (number + 1))

theorem linesRead_stepsOf (segments : List (String × Bytes)) :
    linesRead (stepsOf segments) = segments.flatMap fun segment => Bytes.lines segment.2 := by
  induction segments with
  | nil => rfl
  | cons segment segments ih =>
    obtain ⟨path, content⟩ := segment
    calc linesRead (stepsOf ((path, content) :: segments))
        = linesRead (lineSteps path content 0 (Bytes.lines content) ++ stepsOf segments) := rfl
      _ = Bytes.lines content ++ segments.flatMap fun segment => Bytes.lines segment.2 := by
        rw [linesRead_append, linesRead_lineSteps, ih]

/-- A step can be made with a disk. A segment that has been opened can be read on when its file has been
removed, but as long as there is a file at its path, that holds what it held before. -/
def Disk.Allows (disk : Disk) : LogStep → Prop
  | .opening path content => disk.openFile path = .ok content
  | .line path content number _ | .closing path content number =>
    disk.readFault path number = none ∧ ∀ found, disk.files.read path = .ok found → found = content

/-- Files that nothing stands in the way of allow the steps that read their contents. -/
theorem FileTree.allows_of_mem_stepsOf {files : FileTree} {segments : List (String × Bytes)}
    (hfiles : ∀ segment ∈ segments, files.read segment.1 = .ok segment.2) :
    ∀ step ∈ stepsOf segments, Disk.Allows files step := by
  have hlines : ∀ {path content}, files.read path = .ok content → ∀ number lines,
      ∀ step ∈ lineSteps path content number lines, Disk.Allows files step := by
    intro path content hread number lines
    have hsame : ∀ found, files.read path = .ok found → found = content := fun found hfound =>
      Except.ok.inj (hfound.symm.trans hread)
    induction lines generalizing number with
    | nil => exact List.forall_mem_singleton.mpr ⟨rfl, hsame⟩
    | cons text lines ih => exact List.forall_mem_cons.mpr ⟨⟨rfl, hsame⟩, ih (number + 1)⟩
  induction segments with
  | nil => exact List.forall_mem_nil _
  | cons segment segments ih =>
    obtain ⟨hread, hfiles⟩ := List.forall_mem_cons.mp hfiles
    exact List.forall_mem_cons.mpr
      ⟨hread, List.forall_mem_append.mpr ⟨hlines hread 0 _, ih hfiles⟩⟩

namespace LogReader

/-- The steps that read the open segment on, which had this content when it was opened. -/
def unreadSteps (reader : LogReader) (content : Bytes) : List LogStep :=
  match reader.current with
  | none => []
  | some segment => lineSteps segment.path content segment.line (Bytes.lines segment.unread)

/-- A reader has these steps before it. -/
structure Faces (reader : LogReader) (steps : List LogStep) : Prop where
  sound : reader.broken = none
  steps_eq : ∃ content segments, reader.pending = segments.map Prod.fst ∧
    (∀ segment ∈ reader.current, segment.seen = content.length) ∧
    steps = reader.unreadSteps content ++ stepsOf segments

/-- A reader has made a step, perhaps to an event, and other steps are left before it. -/
structure Makes (reader reader' : LogReader) (step : LogStep) (left : List LogStep)
    (event : Option Event) : Prop where
  passes : reader.Passes reader' step.lines event.toList
  faces : reader'.Faces left
  ahead : reader'.ahead = reader.ahead

variable {disk : Disk} {reader reader' : LogReader} {step : LogStep} {steps left rest : List LogStep}
  {answer : Option Event}

/-- A new reader has the steps of its segments before it. -/
theorem faces_start (segments : List (String × Bytes)) :
    LogReader.Faces { pending := segments.map Prod.fst } (stepsOf segments) :=
  ⟨rfl, [], segments, rfl, by simp, rfl⟩

theorem unreadSteps_of_current {segment : OpenSegment} (hcurrent : reader.current = some segment)
    (content : Bytes) : reader.unreadSteps content =
      lineSteps segment.path content segment.line (Bytes.lines segment.unread) := by
  rw [unreadSteps, hcurrent]

/-- What is read ahead makes no difference to what lies before a reader. -/
theorem Faces.look (h : reader.Faces steps) (ahead : Option Event) :
    { reader with ahead }.Faces steps :=
  ⟨h.sound, h.steps_eq⟩

/-- A line that has been read is passed, and nothing else changes. -/
theorem takeLine_passes (reader : LogReader) (segment : OpenSegment) (line : Bytes) :
    ∃ event reader' notices, takeLine reader segment line = .on event reader' notices ∧
      reader.Passes reader' [line] event.toList ∧ reader'.broken = reader.broken ∧
      reader'.ahead = reader.ahead := by
  fun_cases takeLine reader segment line with
  | case1 hblank => exact ⟨none, reader, [], rfl, .blank hblank, rfl, rfl⟩
  | case2 hblank fault hline =>
    exact ⟨none, reader.skipMalformed, _, rfl, .skipMalformed hblank hline, rfl, rfl⟩
  | case3 hblank event hline last hold =>
    exact ⟨none, reader.skipOld, _, rfl, .skipOld hblank hline hold, rfl, rfl⟩
  | case4 hblank event hline hkept =>
    exact ⟨some event, reader.keep event, [], rfl, .keep hblank hline hkept, rfl, rfl⟩

/-- With no segment open, the next step opens one. -/
theorem openNext_makes (hfaces : reader.Faces (step :: steps)) (hcurrent : reader.current = none)
    (hallows : disk.Allows step) :
    ∃ reader', openNext disk reader = .on none reader' [] ∧ reader.Makes reader' step steps none := by
  obtain ⟨content, segments, hpending, -, hsteps⟩ := hfaces.steps_eq
  rw [unreadSteps, hcurrent, List.nil_append] at hsteps
  cases segments with
  | nil => cases hsteps
  | cons segment segments =>
    obtain ⟨path, content⟩ := segment
    obtain ⟨rfl, rfl⟩ := List.cons.inj hsteps
    have hopen : disk.openFile path = .ok content := hallows
    rw [openNext, hpending]
    simp only [List.map_cons, hopen]
    refine ⟨_, rfl, (Passes.enter hpending).trans (.moveTo _), ⟨hfaces.sound, content, segments, rfl, ?_, rfl⟩,
      rfl⟩
    rintro _ ⟨rfl⟩
    rfl

/-- With a segment open, the next step reads one of its lines or finds its end. -/
theorem readLine_makes {segment : OpenSegment} (hfaces : reader.Faces (step :: steps))
    (hcurrent : reader.current = some segment) (hallows : disk.Allows step) :
    ∃ event reader' notices, readLine disk reader segment = .on event reader' notices ∧
      reader.Makes reader' step steps event := by
  obtain ⟨content, segments, hpending, hseen, hsteps⟩ := hfaces.steps_eq
  rw [unreadSteps_of_current hcurrent] at hsteps
  have hcontent : segment.seen = content.length := hseen segment hcurrent
  cases hunread : segment.unread with
  | nil =>
    rw [hunread] at hsteps
    obtain ⟨rfl, rfl⟩ := List.cons.inj hsteps
    rw [readLine, hallows.1]
    simp only [hunread, if_true]
    exact ⟨none, reader.leave, [], rfl, .leave,
      ⟨hfaces.sound, content, segments, hpending, by simp [leave], rfl⟩, rfl⟩
  | cons b rest =>
    rw [hunread, Bytes.lines_cons] at hsteps
    obtain ⟨rfl, rfl⟩ := List.cons.inj hsteps
    obtain ⟨event, reader', notices, heq, hpasses, hsound, hahead⟩ :=
      takeLine_passes (reader.moveTo segment.next) segment.next (Bytes.splitLine segment.unread).1
    obtain ⟨hpending', hcurrent'⟩ := takeLine_place heq
    have hnext : segment.next.unread = (Bytes.splitLine (b :: rest)).2 := by
      rw [OpenSegment.next, hunread]
    rw [readLine, hallows.1]
    simp only [hunread, List.cons_ne_nil, if_false]
    rw [hunread] at heq hpasses
    refine ⟨event, reader', notices, heq, (Passes.moveTo _).trans hpasses,
      ⟨hsound.trans hfaces.sound, content, segments, hpending'.trans hpending, ?_, ?_⟩, hahead⟩
    · rw [hcurrent']
      rintro _ ⟨rfl⟩
      exact hcontent
    · rw [unreadSteps, hcurrent', ← hnext]
      rfl

/-- A round makes the step before the reader. -/
theorem round_step (hfaces : reader.Faces (step :: steps)) (hallows : disk.Allows step) :
    ∃ event reader' notices, round disk reader = .on event reader' notices ∧
      reader.Makes reader' step steps event := by
  rw [round, hfaces.sound]
  cases hcurrent : reader.current with
  | none =>
    obtain ⟨reader', heq, hmakes⟩ := openNext_makes hfaces hcurrent hallows
    exact ⟨none, reader', [], heq, hmakes⟩
  | some segment => exact readLine_makes hfaces hcurrent hallows

theorem lineSteps_ne_nil (path : String) (content : Bytes) (number : Nat) (lines : List Bytes) :
    lineSteps path content number lines ≠ [] := by
  cases lines <;> exact List.cons_ne_nil _ _

/-- With no step before it, a reader has no segment open and none left. -/
theorem Faces.closed_of_nil (h : reader.Faces []) : reader.current = none ∧ reader.pending = [] := by
  obtain ⟨content, segments, hpending, -, hsteps⟩ := h.steps_eq
  obtain ⟨hunread, hsegments⟩ := List.append_eq_nil_iff.mp hsteps.symm
  constructor
  · cases hcurrent : reader.current with
    | none => rfl
    | some segment =>
      rw [unreadSteps_of_current hcurrent] at hunread
      exact absurd hunread (lineSteps_ne_nil _ _ _ _)
  · cases segments with
    | nil => exact hpending
    | cons segment segments => cases hsegments

/-- With no step before it, a reader has come to its end. -/
theorem round_ended (hfaces : reader.Faces []) : round disk reader = .ended := by
  obtain ⟨hcurrent, hpending⟩ := hfaces.closed_of_nil
  rw [round, hfaces.sound, hcurrent]
  simp only [openNext, hpending]

/-! ## Reading on -/

/-- The steps that a reader makes on the way to the next event can be made. -/
def GetsOn (disk : Disk) (reader : LogReader) (steps : List LogStep) : Prop :=
  ∀ before step after, steps = before ++ step :: after →
    reader.accepted (linesRead before) = [] → disk.Allows step

/-- A reader has read on, to an event or to the rest of the steps, and some steps are left before that. -/
structure ReadsOn (reader reader' : LogReader) (steps left rest : List LogStep)
    (answer : Option Event) : Prop where
  passes : ∃ made, steps = made ++ left ∧ reader.Passes reader' (linesRead made) answer.toList
  faces : reader'.Faces (left ++ rest)
  ahead : reader'.ahead = reader.ahead
  ended : answer = none → left = []

/-- A reader reads on to an event, or comes to the rest of the steps. -/
theorem readFrom_readsOn (notices : List Notice) (hfaces : reader.Faces (steps ++ rest))
    (hgets : GetsOn disk reader steps) :
    ∃ answer reader' notices' left, ReadsOn reader reader' steps left rest answer ∧
      readFrom disk reader notices =
        if answer.isSome then ⟨.ok answer, reader', notices'⟩ else readFrom disk reader' notices' := by
  induction steps generalizing reader notices with
  | nil => exact ⟨none, reader, notices, [], ⟨⟨[], rfl, .refl _⟩, hfaces, rfl, fun _ => rfl⟩, rfl⟩
  | cons step steps ih =>
    have hnext : reader.Faces (step :: (steps ++ rest)) := hfaces
    obtain ⟨event, reader₁, more, hround, hmakes⟩ := round_step hnext (hgets [] step steps rfl rfl)
    cases event with
    | some event =>
      have hmade : linesRead [step] = step.lines := List.flatMap_singleton ..
      exact ⟨some event, reader₁, notices ++ more, steps,
        ⟨⟨[step], rfl, hmade ▸ hmakes.passes⟩, hmakes.faces, hmakes.ahead, by simp⟩,
        readFrom_event hround notices⟩
    | none =>
      have hgets₁ : GetsOn disk reader₁ steps := by
        intro before step' after hsplit hnone
        refine hgets (step :: before) step' after (by rw [hsplit]; rfl) ?_
        exact (hmakes.passes.accepted_append (linesRead before)).trans hnone
      obtain ⟨answer, reader', notices', left, hreads, heq⟩ :=
        ih (notices ++ more) hmakes.faces hgets₁
      obtain ⟨made, hsteps, hpasses⟩ := hreads.passes
      exact ⟨answer, reader', notices', left,
        ⟨⟨step :: made, by rw [hsteps]; rfl, hmakes.passes.trans hpasses⟩, hreads.faces,
          hreads.ahead.trans hmakes.ahead, hreads.ended⟩, (readFrom_on hround notices).trans heq⟩

/-- With no steps but those that can be made, a reader reads on to an event or to the end. -/
theorem readOn_eq_ok (hfaces : reader.Faces steps) (hallows : ∀ step ∈ steps, disk.Allows step) :
    ∃ answer reader' notices left, readOn disk reader = ⟨.ok answer, reader', notices⟩ ∧
      ReadsOn reader reader' steps left [] answer := by
  have hgets : GetsOn disk reader steps := fun before step after hsplit _ =>
    hallows step (by rw [hsplit]; exact List.mem_append_right _ List.mem_cons_self)
  rw [← List.append_nil steps] at hfaces
  obtain ⟨answer, reader', notices, left, hreads, heq⟩ := readFrom_readsOn [] hfaces hgets
  refine ⟨answer, reader', notices, left, ?_, hreads⟩
  cases answer with
  | some event => exact heq
  | none =>
    obtain rfl := hreads.ended rfl
    exact heq.trans (readFrom_ended (round_ended hreads.faces) notices)

end LogReader

end EventReplay
