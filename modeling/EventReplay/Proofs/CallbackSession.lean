import Mathlib.Data.List.Perm.Basic
import Mathlib.Tactic.Common
import EventReplay.Completion.Callbacks

/-!
# Callbacks on many threads

One completion, the thread that tells its outcome and runs the rounds of callbacks, and any number of
other threads that register callbacks, all of them stopping and going on between any two of their
steps. A step takes the lock of the completion at most once (`Completion.register`,
`Completion.nextRound`), or starts or ends a callback. Callbacks register further callbacks when they
run.

What is the same however the threads take turns is kept in `Session.Kept`: each callback has started or
is still to start, and the steps that are left are bounded.
-/

set_option autoImplicit false

namespace EventReplay

variable {ι : Type}

/-! ## Callbacks and what comes of them -/

namespace Callback

/-- The callbacks that a callback registers when it runs. -/
def nested : Callback ι → List (Callback ι)
  | call _ nested => nested
  | wait _ => []

mutual

/-- A callback and all that come of it. -/
def all : Callback ι → List (Callback ι)
  | call id nested => call id nested :: allOf nested
  | wait id => [wait id]

/-- Callbacks and all that come of them. -/
def allOf : List (Callback ι) → List (Callback ι)
  | [] => []
  | c :: cs => c.all ++ allOf cs

end

theorem all_eq (c : Callback ι) : c.all = c :: allOf c.nested := by
  cases c <;> simp [all, nested, allOf]

theorem allOf_append (cs ds : List (Callback ι)) : allOf (cs ++ ds) = allOf cs ++ allOf ds := by
  induction cs with
  | nil => simp [allOf]
  | cons c cs ih => simp [allOf, ih]

theorem weights_append (cs ds : List (Callback ι)) : weights (cs ++ ds) = weights cs + weights ds := by
  induction cs with
  | nil => simp [weights]
  | cons c cs ih => simp [weights, ih, Nat.add_assoc]

theorem weight_eq (c : Callback ι) : c.weight = 1 + weights c.nested := by
  cases c <;> simp [weight, nested, weights]

end Callback

/-! ## Threads -/

/-- What a thread is about to do. -/
inductive CallbackTask (ι : Type) where
  /-- To register a callback. -/
  | register (c : Callback ι)
  /-- To start a callback with an outcome: of a round, or at once. -/
  | run (c : Callback ι) (outcome : Outcome) (atOnce : Bool)
  /-- To come back from a callback. -/
  | finish (c : Callback ι) (atOnce : Bool)
  /-- To end a round. -/
  | endRound (outcome : Outcome)

/-- What can be seen of a step. -/
inductive CallbackMark (ι : Type) where
  /-- A callback is queued. -/
  | queued (c : Callback ι)
  /-- A callback is registered after the last round. -/
  | passed (c : Callback ι)
  /-- A callback starts with an outcome, of a round or at once, and looks at its completion. -/
  | started (c : Callback ι) (outcome : Outcome) (atOnce : Bool) (resolved : Bool)
      (seen : Option Outcome)
  | ended (c : Callback ι) (atOnce : Bool)
  | roundEnded

/-- A thread takes a step. -/
def CallbackTask.step (completion : Completion (Callback ι)) :
    List (CallbackTask ι) → Completion (Callback ι) × List (CallbackTask ι) × List (CallbackMark ι)
  | [] => (completion, [], [])
  | .register c :: tasks =>
    match completion.register c with
    | (completion, none) => (completion, tasks, [.queued c])
    | (completion, some outcome) => (completion, .run c outcome true :: tasks, [.passed c])
  | .run c outcome atOnce :: tasks =>
    (completion, c.nested.map .register ++ .finish c atOnce :: tasks,
      [.started c outcome atOnce completion.isResolved completion.outcome?])
  | .finish c atOnce :: tasks => (completion, tasks, [.ended c atOnce])
  | .endRound outcome :: tasks =>
    match completion.nextRound with
    | ([], completion) => (completion, tasks, [.roundEnded])
    | (round, completion) =>
      (completion, round.map (.run · outcome false) ++ .endRound outcome :: tasks, [.roundEnded])

/-- One completion and the threads around it. -/
structure Session (ι : Type) where
  completion : Completion (Callback ι) := .fresh
  /-- Whether the outcome can still be told. -/
  tellable : Bool := true
  /-- The thread that tells the outcome. -/
  teller : List (CallbackTask ι) := []
  /-- The threads that register callbacks. -/
  others : List (List (CallbackTask ι)) := []
  marks : List (CallbackMark ι) := []

/-- What happens next. -/
inductive SessionAction (ι : Type) where
  /-- A thread comes to register a callback. -/
  | onComplete (c : Callback ι)
  /-- The outcome is told. -/
  | resolve (outcome : Outcome)
  /-- The one who could tell the outcome goes away. -/
  | drop
  /-- The thread that tells the outcome takes a step. -/
  | stepTeller
  /-- Another thread takes a step. -/
  | stepOther (n : Nat)

namespace Session

/-- One of some threads takes a step. -/
def stepAt (completion : Completion (Callback ι)) : Nat → List (List (CallbackTask ι)) →
    Completion (Callback ι) × List (List (CallbackTask ι)) × List (CallbackMark ι)
  | _, [] => (completion, [], [])
  | 0, tasks :: threads =>
    let (completion, tasks, marks) := CallbackTask.step completion tasks
    (completion, tasks :: threads, marks)
  | n + 1, tasks :: threads =>
    let (completion, threads, marks) := stepAt completion n threads
    (completion, tasks :: threads, marks)

/-- The outcome is told, if it still can be. -/
def tell (s : Session ι) (outcome : Outcome) : Session ι :=
  if s.tellable then
    match s.completion.tell outcome with
    | none => { s with tellable := false }
    | some (round, completion) =>
      { s with
        completion, tellable := false
        teller := round.map (.run · outcome false) ++ [.endRound outcome] }
  else s

/-- What happens next happens. -/
def act (s : Session ι) : SessionAction ι → Session ι
  | .onComplete c => { s with others := s.others ++ [[.register c]] }
  | .resolve outcome => s.tell outcome
  | .drop => s.tell (.failed .abandoned)
  | .stepTeller =>
    let (completion, teller, marks) := CallbackTask.step s.completion s.teller
    { s with completion, teller, marks := s.marks ++ marks }
  | .stepOther n =>
    let (completion, others, marks) := stepAt s.completion n s.others
    { s with completion, others, marks := s.marks ++ marks }

/-- A completion whose outcome has not been told, after everything in a schedule has happened. -/
def run (schedule : List (SessionAction ι)) : Session ι := schedule.foldl act {}

/-- Whether no thread has anything left to do. -/
def atRest (s : Session ι) : Bool := s.teller.isEmpty && s.others.all List.isEmpty

end Session

/-- The callbacks that threads come to register in a schedule. -/
def SessionAction.roots (schedule : List (SessionAction ι)) : List (Callback ι) :=
  schedule.filterMap fun
    | .onComplete c => some c
    | _ => none

/-- The outcomes that are told in a schedule; who goes away without a word abandons. -/
def SessionAction.reports (schedule : List (SessionAction ι)) : List Outcome :=
  schedule.filterMap fun
    | .resolve outcome => some outcome
    | .drop => some (.failed .abandoned)
    | _ => none

theorem SessionAction.roots_concat (schedule : List (SessionAction ι)) (action : SessionAction ι) :
    roots (schedule ++ [action]) = roots schedule ++ match action with
      | .onComplete c => [c]
      | _ => [] := by
  rw [roots, List.filterMap_append]
  cases action <;> rfl

theorem SessionAction.reports_concat (schedule : List (SessionAction ι)) (action : SessionAction ι) :
    reports (schedule ++ [action]) = reports schedule ++ match action with
      | .resolve outcome => [outcome]
      | .drop => [.failed .abandoned]
      | _ => [] := by
  rw [reports, List.filterMap_append]
  cases action <;> rfl

/-! ## What the marks tell -/

namespace CallbackMark

/-- The callbacks that were queued, in order. -/
def queuedOf (marks : List (CallbackMark ι)) : List (Callback ι) :=
  marks.filterMap fun
    | queued c => some c
    | _ => none

/-- The callbacks that started, of rounds or at once, in order. -/
def startedOf (atOnce : Bool) (marks : List (CallbackMark ι)) : List (Callback ι) :=
  marks.filterMap fun
    | started c _ b _ _ => if b = atOnce then some c else none
    | _ => none

/-- The callbacks that ended, of rounds or at once, in order. -/
def endedOf (atOnce : Bool) (marks : List (CallbackMark ι)) : List (Callback ι) :=
  marks.filterMap fun
    | ended c b => if b = atOnce then some c else none
    | _ => none

/-- The callbacks that started, in order. -/
def allStarted (marks : List (CallbackMark ι)) : List (Callback ι) :=
  marks.filterMap fun
    | started c .. => some c
    | _ => none

/-- The callbacks that ended, in order. -/
def allEnded (marks : List (CallbackMark ι)) : List (Callback ι) :=
  marks.filterMap fun
    | ended c _ => some c
    | _ => none

variable (l m : List (CallbackMark ι))

@[simp] theorem queuedOf_append : queuedOf (l ++ m) = queuedOf l ++ queuedOf m :=
  List.filterMap_append

@[simp] theorem startedOf_append (b : Bool) : startedOf b (l ++ m) = startedOf b l ++ startedOf b m :=
  List.filterMap_append

@[simp] theorem endedOf_append (b : Bool) : endedOf b (l ++ m) = endedOf b l ++ endedOf b m :=
  List.filterMap_append

@[simp] theorem queuedOf_singleton (mark : CallbackMark ι) :
    queuedOf [mark] = match mark with
      | queued c => [c]
      | _ => [] := by
  cases mark <;> rfl

@[simp] theorem startedOf_singleton (b : Bool) (mark : CallbackMark ι) :
    startedOf b [mark] = match mark with
      | started c _ b' _ _ => if b' = b then [c] else []
      | _ => [] := by
  cases mark with
  | started c outcome b' => cases b' <;> cases b <;> rfl
  | _ => rfl

@[simp] theorem endedOf_singleton (b : Bool) (mark : CallbackMark ι) :
    endedOf b [mark] = match mark with
      | ended c b' => if b' = b then [c] else []
      | _ => [] := by
  cases mark with
  | ended c b' => cases b' <;> cases b <;> rfl
  | _ => rfl

@[simp] theorem allStarted_append : allStarted (l ++ m) = allStarted l ++ allStarted m :=
  List.filterMap_append

@[simp] theorem allEnded_append : allEnded (l ++ m) = allEnded l ++ allEnded m :=
  List.filterMap_append

end CallbackMark

/-! ## What a step keeps -/

namespace CallbackTask

/-- The callbacks that come of what a thread is about to do. -/
def toStart : CallbackTask ι → List (Callback ι)
  | register c | run c .. => c.all
  | finish .. | endRound _ => []

/-- The callback that a thread is about to come back from. -/
def running : CallbackTask ι → List (Callback ι)
  | finish c _ => [c]
  | _ => []

/-- A bound on the steps that come of what a thread is about to do. -/
def work : CallbackTask ι → Nat
  | register c => 4 * c.weight
  | run c .. => 4 * c.weight - 2
  | finish .. | endRound _ => 1

/-- A bound on the steps that come of the callbacks that a completion keeps. -/
def workKept : List (Callback ι) → Nat
  | [] => 0
  | c :: cs => (4 * c.weight - 1) + workKept cs

/-- A bound on the steps that come of what a thread is about to do. -/
def workAll : List (CallbackTask ι) → Nat
  | [] => 0
  | task :: tasks => task.work + workAll tasks

open CallbackMark

theorem toStart_run (cs : List (Callback ι)) (outcome : Outcome) (atOnce : Bool) :
    (cs.map (run · outcome atOnce)).flatMap toStart = Callback.allOf cs := by
  induction cs with
  | nil => simp [Callback.allOf]
  | cons c cs ih => simp [Callback.allOf, toStart, ih]

theorem toStart_register (cs : List (Callback ι)) :
    (cs.map register).flatMap toStart = Callback.allOf cs := by
  induction cs with
  | nil => simp [Callback.allOf]
  | cons c cs ih => simp [Callback.allOf, toStart, ih]

theorem running_run (cs : List (Callback ι)) (outcome : Outcome) (atOnce : Bool) :
    (cs.map (run · outcome atOnce)).flatMap running = [] := by
  simp [running]

theorem running_register (cs : List (Callback ι)) : (cs.map register).flatMap running = [] := by
  simp [running]

/-- What is about to start has started or is still about to start. -/
theorem step_started (completion : Completion (Callback ι)) (tasks : List (CallbackTask ι)) :
    (Callback.allOf completion.kept ++ tasks.flatMap toStart).Perm
      (allStarted (step completion tasks).2.2 ++
        (Callback.allOf (step completion tasks).1.kept ++
          (step completion tasks).2.1.flatMap toStart)) := by
  cases tasks with
  | nil => simp [step, allStarted]
  | cons task tasks =>
      cases task with
      | register c =>
          cases completion with
          | pending waiting =>
              simp [step, Completion.register, Completion.kept, toStart, allStarted,
                Callback.allOf_append, Callback.allOf]
          | draining outcome late =>
              simp [step, Completion.register, Completion.kept, toStart, allStarted,
                Callback.allOf_append, Callback.allOf]
          | resolved outcome =>
              simp [step, Completion.register, Completion.kept, toStart, allStarted]
      -- it starts, and what it registers is still to start
      | run c outcome atOnce =>
          simp only [step, List.flatMap_append, List.flatMap_cons, toStart, toStart_register,
            List.nil_append]
          rw [Callback.all_eq]
          exact List.perm_middle
      | finish c atOnce => simp [step, toStart, allStarted]
      | endRound outcome =>
          cases completion with
          | pending waiting => simp [step, Completion.nextRound, toStart, allStarted]
          | draining outcome' late =>
              cases late with
              | nil => simp [step, Completion.nextRound, Completion.kept, toStart, allStarted]
              -- what the completion has kept becomes the next round
              | cons c late =>
                  simp only [step, Completion.nextRound, Completion.kept, List.flatMap_append,
                    toStart_run, List.flatMap_cons, toStart, List.nil_append, Callback.allOf]
                  exact .refl _
          | resolved outcome' => simp [step, Completion.nextRound, toStart, allStarted]

/-- What has started has ended or is still running. -/
theorem step_ended (completion : Completion (Callback ι)) (tasks : List (CallbackTask ι)) :
    (allStarted (step completion tasks).2.2 ++ tasks.flatMap running).Perm
      (allEnded (step completion tasks).2.2 ++ (step completion tasks).2.1.flatMap running) := by
  cases tasks with
  | nil => simp [step, allStarted, allEnded]
  | cons task tasks =>
      cases task with
      | register c =>
          cases completion <;>
            simp [step, Completion.register, running, allStarted, allEnded]
      | run c outcome atOnce =>
          simp only [step, List.flatMap_append, List.flatMap_cons, running_register, running]
          exact .refl _
      | finish c atOnce => exact .refl _
      | endRound outcome =>
          cases completion with
          | draining outcome' late =>
              cases late with
              | nil => exact .refl _
              | cons c late =>
                  simp only [step, Completion.nextRound, List.flatMap_append, running_run]
                  exact .refl _
          | _ => exact .refl _

theorem outcome?_step (completion : Completion (Callback ι)) (tasks : List (CallbackTask ι)) :
    (step completion tasks).1.outcome? = completion.outcome? := by
  rcases tasks with _ | ⟨_ | _ | _ | _, tasks⟩
  case cons.register => cases completion <;> rfl
  case cons.endRound =>
    rcases completion with _ | ⟨_, _ | _⟩ | _ <;> rfl
  all_goals rfl

theorem workKept_append (cs cs' : List (Callback ι)) :
    workKept (cs ++ cs') = workKept cs + workKept cs' := by
  induction cs with
  | nil => simp [workKept]
  | cons c cs ih => rw [List.cons_append, workKept, ih, workKept, Nat.add_assoc]

theorem workAll_append (tasks tasks' : List (CallbackTask ι)) :
    workAll (tasks ++ tasks') = workAll tasks + workAll tasks' := by
  induction tasks with
  | nil => simp [workAll]
  | cons task tasks ih => rw [List.cons_append, workAll, ih, workAll, Nat.add_assoc]

theorem workAll_register (cs : List (Callback ι)) :
    workAll (cs.map register) = 4 * Callback.weights cs := by
  induction cs with
  | nil => rfl
  | cons c cs ih =>
      simp only [List.map_cons, workAll, Callback.weights, work, ih]
      omega

/-- The callbacks of a round cost one step each less than before. -/
theorem workAll_run (cs : List (Callback ι)) (outcome : Outcome) :
    workAll (cs.map (run · outcome false)) + cs.length = workKept cs := by
  induction cs with
  | nil => rfl
  | cons c cs ih =>
      have hweight := c.weight_eq
      simp only [List.map_cons, workAll, workKept, List.length_cons, work] at ih ⊢
      omega

/-- Every step is paid for. -/
theorem step_work (completion : Completion (Callback ι)) (tasks : List (CallbackTask ι)) :
    (step completion tasks).2.2.length + (workKept (step completion tasks).1.kept +
      workAll (step completion tasks).2.1) ≤ workKept completion.kept + workAll tasks := by
  cases tasks with
  | nil => simp [step]
  | cons task tasks =>
      cases task with
      | register c =>
          have hweight := c.weight_eq
          cases completion with
          | resolved outcome =>
              simp [step, Completion.register, workAll, work, Completion.kept]
              omega
          | _ =>
              simp [step, Completion.register, workAll, work, Completion.kept, workKept_append, workKept]
              omega
      -- the callbacks that it registers have been paid for with it
      | run c outcome atOnce =>
          have hweight := c.weight_eq
          simp only [step, workAll_append, workAll_register]
          simp [workAll, work]
          omega
      | finish c atOnce =>
          simp [step, workAll, work]
          omega
      | endRound outcome =>
          cases completion with
          | draining outcome' late =>
              cases late with
              | nil =>
                  simp [step, Completion.nextRound, workAll, work, Completion.kept]
                  omega
              -- callbacks of a round cost less than callbacks kept, and that pays for the step
              | cons c late =>
                  have hrun := workAll_run (c :: late) outcome
                  simp only [step, Completion.nextRound, workAll_append, Completion.kept]
                  simp [workAll, work, workKept] at hrun ⊢
                  omega
          | _ =>
              simp [step, Completion.nextRound, workAll, work, Completion.kept]
              omega

/-- A thread that has something to do leaves one mark. -/
theorem length_marks_step (completion : Completion (Callback ι)) (task : CallbackTask ι)
    (tasks : List (CallbackTask ι)) : (step completion (task :: tasks)).2.2.length = 1 := by
  rcases task with _ | _ | _ | _
  case register => cases completion <;> rfl
  case endRound => rcases completion with _ | ⟨_, _ | _⟩ | _ <;> rfl
  all_goals rfl

end CallbackTask

namespace Session

open CallbackMark CallbackTask

/-- What all threads are about to do. -/
def tasks (s : Session ι) : List (CallbackTask ι) := s.teller ++ s.others.flatten

/-- A thread among others takes a step, or there is no such thread. -/
theorem stepAt_cases (completion : Completion (Callback ι)) (n : Nat)
    (threads : List (List (CallbackTask ι))) :
    stepAt completion n threads = (completion, threads, []) ∨
    ∃ before thread after, threads = before ++ thread :: after ∧
      stepAt completion n threads =
        ((CallbackTask.step completion thread).1,
          before ++ (CallbackTask.step completion thread).2.1 :: after,
          (CallbackTask.step completion thread).2.2) := by
  induction threads generalizing n with
  | nil => cases n <;> exact .inl rfl
  | cons thread threads ih =>
      cases n with
      | zero => exact .inr ⟨[], thread, threads, rfl, rfl⟩
      | succ n =>
          rcases ih n with h | ⟨before, thread', after, hthreads, h⟩
          · exact .inl (by simp only [stepAt, h])
          · exact .inr ⟨thread :: before, thread', after, by rw [hthreads]; rfl,
              by simp only [stepAt, h]; rfl⟩

/-- What is the same however threads take turns: every callback has started or is still to start, what
has started has ended or is still running, the outcome is the one that was told, and steps are paid
for. -/
structure Kept (s : Session ι) (roots : List (Callback ι)) (told : Option Outcome) : Prop where
  once : (Callback.allOf roots).Perm
    (allStarted s.marks ++ (Callback.allOf s.completion.kept ++ s.tasks.flatMap toStart))
  ended : (allStarted s.marks).Perm (allEnded s.marks ++ s.tasks.flatMap running)
  outcome : s.completion.outcome? = told
  tellable : s.tellable = told.isNone
  work : s.marks.length + (workKept s.completion.kept + workAll s.tasks) ≤
    4 * Callback.weights roots + told.toList.length

variable {s s' : Session ι} {roots : List (Callback ι)} {told : Option Outcome}

/-- A step of one thread changes nothing of this. -/
theorem Kept.step (h : Kept s roots told) {before thread after : List (CallbackTask ι)}
    (htasks : s.tasks = before ++ thread ++ after)
    (htasks' : s'.tasks = before ++ (CallbackTask.step s.completion thread).2.1 ++ after)
    (hcompletion : s'.completion = (CallbackTask.step s.completion thread).1)
    (hmarks : s'.marks = s.marks ++ (CallbackTask.step s.completion thread).2.2)
    (htellable : s'.tellable = s.tellable) : Kept s' roots told := by
  have hstarted := step_started s.completion thread
  have hended := step_ended s.completion thread
  have hwork := step_work s.completion thread
  have houtcome_step := outcome?_step s.completion thread
  obtain ⟨honce, hend, houtcome, htell, hpaid⟩ := h
  rw [htasks] at honce hend hpaid
  generalize CallbackTask.step s.completion thread = next at *
  obtain ⟨completion, thread', marks⟩ := next
  simp only at hstarted hended hwork houtcome_step htasks' hcompletion hmarks
  -- what the other threads are about to do is on both sides, so that it is enough to count
  refine ⟨?_, ?_, ?_, htellable.trans htell, ?_⟩
  · classical
    rw [List.perm_iff_count] at honce hstarted ⊢
    intro c
    have hc := honce c
    have hc' := hstarted c
    rw [hmarks, hcompletion, htasks']
    simp only [allStarted_append, List.flatMap_append, List.count_append] at hc hc' ⊢
    omega
  · classical
    rw [List.perm_iff_count] at hend
    rw [List.perm_iff_count] at hended ⊢
    intro c
    have hc := hend c
    have hc' := hended c
    rw [hmarks, htasks']
    simp only [allStarted_append, allEnded_append, List.flatMap_append, List.count_append] at hc hc' ⊢
    omega
  · rw [hcompletion, ← houtcome]
    exact houtcome_step
  · rw [hmarks, hcompletion, htasks']
    simp only [workAll_append, List.length_append] at hpaid ⊢
    omega

theorem Kept.stepTeller (h : Kept s roots told) : Kept (s.act .stepTeller) roots told := by
  have htasks : s.tasks = [] ++ s.teller ++ s.others.flatten := rfl
  exact h.step htasks rfl rfl rfl rfl

theorem Kept.stepOther (h : Kept s roots told) (n : Nat) : Kept (s.act (.stepOther n)) roots told := by
  rcases stepAt_cases s.completion n s.others with hstep | ⟨before, thread, after, hothers, hstep⟩
  · simpa only [act, hstep, List.append_nil] using h
  · have htasks : s.tasks = (s.teller ++ before.flatten) ++ thread ++ after.flatten := by
      simp [tasks, hothers]
    refine h.step htasks ?_ ?_ ?_ rfl
    · simp [tasks, act, hstep]
    · simp only [act, hstep]
    · simp only [act, hstep]

theorem Kept.onComplete (h : Kept s roots told) (c : Callback ι) :
    Kept (s.act (.onComplete c)) (roots ++ [c]) told := by
  have htasks : (s.act (.onComplete c)).tasks = s.tasks ++ [.register c] := by
    simp [tasks, act]
  have hweights : Callback.weights (roots ++ [c]) = Callback.weights roots + c.weight := by
    simp [Callback.weights_append, Callback.weights]
  refine ⟨?_, ?_, h.outcome, h.tellable, ?_⟩
  · rw [htasks, Callback.allOf_append, List.flatMap_append]
    have honce := h.once.append_right (Callback.allOf [c])
    simpa [act, toStart, Callback.allOf] using honce
  · rw [htasks, List.flatMap_append]
    simpa [act, running] using h.ended
  · have hpaid := h.work
    rw [htasks, workAll_append, hweights]
    show s.marks.length + (workKept s.completion.kept + _) ≤ _
    simp only [workAll, CallbackTask.work] at hpaid ⊢
    omega

/-- The outcome is told, and what has waited makes up the first round. -/
theorem Kept.firstRound {waiting : List (Callback ι)} (h : Kept s roots none)
    (hcompletion : s.completion = .pending waiting) (hteller : s.teller = []) (outcome : Outcome) :
    Kept { s with
      completion := .draining outcome [], tellable := false
      teller := waiting.map (.run · outcome false) ++ [.endRound outcome] } roots (some outcome) := by
  have htasks : s.tasks = s.others.flatten := by simp [tasks, hteller]
  obtain ⟨honce, hended, -, -, hpaid⟩ := h
  rw [hcompletion, htasks] at honce hpaid
  rw [htasks] at hended
  refine ⟨?_, ?_, rfl, rfl, ?_⟩
  · simpa [tasks, toStart_run, toStart, Completion.kept, Callback.allOf] using honce
  · simpa only [tasks, List.flatMap_append, running_run, List.flatMap_cons, running, List.flatMap_nil,
      List.nil_append] using hended
  -- one step more is to come, the end of the round, and the telling pays for it
  · have hrun := workAll_run waiting outcome
    simp only [tasks, workAll_append, Completion.kept] at hpaid ⊢
    simp [workAll, workKept, CallbackTask.work] at hrun hpaid ⊢
    omega

/-- The outcome is told at most once. -/
theorem Kept.tell (h : Kept s roots told) (hteller : told = none → s.teller = [])
    (outcome : Outcome) : Kept (s.tell outcome) roots (told.or (some outcome)) := by
  cases told with
  | some o =>
      have htellable : s.tellable = false := h.tellable
      simpa [Session.tell, htellable] using h
  | none =>
      have htellable : s.tellable = true := h.tellable
      have houtcome := h.outcome
      cases hcompletion : s.completion with
      | pending waiting =>
          simp only [Session.tell, htellable, hcompletion, Completion.tell, if_true]
          exact h.firstRound hcompletion (hteller rfl) outcome
      | draining o late => simp [hcompletion, Completion.outcome?] at houtcome
      | resolved o => simp [hcompletion, Completion.outcome?] at houtcome

end Session

end EventReplay
