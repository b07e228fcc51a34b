import EventReplay.Proofs.CallbackOrder

/-!
# Callbacks on one thread

Where everything happens on one thread, each callback is registered and each outcome is told with all
that comes of it before anything else (`Observed`). That is one of the ways in which threads can take
turns: `exists_schedule` gives the schedule.
-/

set_option autoImplicit false

namespace EventReplay

variable {ι : Type}

/-- Rounds go down: what a round leaves behind is less than the round. -/
theorem Callback.weights_flatMap_nested (round : List (Callback ι)) :
    weights (round.flatMap nested) + round.length = weights round := by
  induction round with
  | nil => rfl
  | cons c round ih =>
      have hweight := c.weight_eq
      calc weights ((c :: round).flatMap nested) + (c :: round).length
          = weights c.nested + weights (round.flatMap nested) + (round.length + 1) := by
            rw [List.flatMap_cons, weights_append, List.length_cons]
        _ = c.weight + weights round := by omega
        _ = weights (c :: round) := rfl

/-- What is observed of a mark. -/
def CallbackMark.event? : CallbackMark ι → Option (CallbackEvent ι)
  | started (.call id _) outcome _ resolved seen => some (.started id outcome resolved seen)
  | ended (.call id _) _ => some (.ended id)
  | _ => none

/-- A thread takes steps and leaves marks, until some tasks are left. -/
inductive CallbackTask.Steps : Completion (Callback ι) → List (CallbackTask ι) →
    List (CallbackMark ι) → Completion (Callback ι) → List (CallbackTask ι) → Prop
  | done {completion : Completion (Callback ι)} {tasks : List (CallbackTask ι)} :
      Steps completion tasks [] completion tasks
  | more {completion completion' completion'' : Completion (Callback ι)} {task : CallbackTask ι}
      {tasks tasks' tasks'' : List (CallbackTask ι)} {marks marks' : List (CallbackMark ι)}
      (step : CallbackTask.step completion (task :: tasks) = (completion', tasks', marks))
      (rest : Steps completion' tasks' marks' completion'' tasks'') :
      Steps completion (task :: tasks) (marks ++ marks') completion'' tasks''

theorem CallbackTask.Steps.trans {completion completion' completion'' : Completion (Callback ι)}
    {tasks tasks' tasks'' : List (CallbackTask ι)} {marks marks' : List (CallbackMark ι)}
    (h : Steps completion tasks marks completion' tasks')
    (h' : Steps completion' tasks' marks' completion'' tasks'') :
    Steps completion tasks (marks ++ marks') completion'' tasks'' := by
  induction h with
  | done => exact h'
  | more step _ ih =>
      rw [List.append_assoc]
      exact .more step (ih h')

namespace Observed

open CallbackMark CallbackTask

/-! ## What one thread does -/

/-- A thread takes steps that are observed. -/
def Observes (o : Observed ι) (tasks : List (CallbackTask ι)) (o' : Observed ι)
    (tasks' : List (CallbackTask ι)) : Prop :=
  ∃ marks, Steps o.completion tasks marks o'.completion tasks' ∧
    o'.events = o.events ++ marks.filterMap event? ∧ o'.tellable = o.tellable

theorem Observes.refl (o : Observed ι) (tasks : List (CallbackTask ι)) : Observes o tasks o tasks :=
  ⟨[], .done, by simp, rfl⟩

theorem Observes.trans {o o' o'' : Observed ι} {tasks tasks' tasks'' : List (CallbackTask ι)}
    (h : Observes o tasks o' tasks') (h' : Observes o' tasks' o'' tasks'') :
    Observes o tasks o'' tasks'' := by
  obtain ⟨marks, hsteps, hevents, htellable⟩ := h
  obtain ⟨marks', hsteps', hevents', htellable'⟩ := h'
  exact ⟨marks ++ marks', hsteps.trans hsteps', by simp [hevents, hevents'],
    htellable'.trans htellable⟩

/-- One step. -/
theorem Observes.of_step {o o' : Observed ι} {task : CallbackTask ι}
    {tasks tasks' : List (CallbackTask ι)} {marks : List (CallbackMark ι)}
    (h : CallbackTask.step o.completion (task :: tasks) = (o'.completion, tasks', marks))
    (hevents : o'.events = o.events ++ marks.filterMap event?)
    (htellable : o'.tellable = o.tellable := by rfl) : Observes o (task :: tasks) o' tasks' :=
  ⟨marks ++ [], .more h .done, by simpa using hevents, htellable⟩

variable [DecidableEq ι]

mutual

/-- A callback runs with all that it registers. -/
theorem observes_run (outcome : Outcome) (atOnce : Bool) (tasks : List (CallbackTask ι))
    (o : Observed ι) :
    ∀ c : Callback ι, Observes o (.run c outcome atOnce :: tasks) (run outcome o c) tasks
  -- one that only waits for the outcome leaves no event
  | .wait id => by
      have hstart : Observes o (.run (.wait id) outcome atOnce :: tasks) o
          (.finish (.wait id) atOnce :: tasks) := .of_step rfl (by simp [event?])
      refine hstart.trans (.of_step rfl ?_)
      simp [run, event?]
  | .call id nested => by
      have hstart : Observes o (.run (.call id nested) outcome atOnce :: tasks)
          (o.happen (.started id outcome o.completion.isResolved o.completion.outcome?))
          (nested.map .register ++ .finish (.call id nested) atOnce :: tasks) :=
        .of_step rfl (by simp [happen, event?])
      refine hstart.trans ((observes_registerAll _ _ nested).trans (.of_step rfl ?_))
      simp [run, happen, event?]

/-- Callbacks are registered; where all rounds are over they run at once. -/
theorem observes_registerAll (tasks : List (CallbackTask ι)) (o : Observed ι) :
    ∀ cs : List (Callback ι), Observes o (cs.map .register ++ tasks) (registerAll o cs) tasks
  | [] => by
      rw [registerAll]
      exact .refl o tasks
  | c :: cs => by
      rw [registerAll]
      cases hregister : o.completion.register c with
      | mk completion outcome =>
          cases outcome with
          | none =>
              have hstep : Observes o (.register c :: (cs.map .register ++ tasks))
                  { o with completion } (cs.map .register ++ tasks) :=
                .of_step (by simp only [CallbackTask.step, hregister]; rfl) (by simp [event?])
              exact hstep.trans (observes_registerAll tasks _ cs)
          | some outcome =>
              have hstep : Observes o (.register c :: (cs.map .register ++ tasks))
                  { o with completion } (.run c outcome true :: (cs.map .register ++ tasks)) :=
                .of_step (by simp only [CallbackTask.step, hregister]; rfl) (by simp [event?])
              exact hstep.trans ((observes_run outcome true _ _ c).trans
                (observes_registerAll tasks _ cs))

end

/-! ## Rounds -/

theorem registerAll_draining {o : Observed ι} {outcome : Outcome} {late : List (Callback ι)}
    (h : o.completion = .draining outcome late) (cs : List (Callback ι)) :
    (registerAll o cs).completion = .draining outcome (late ++ cs) := by
  induction cs generalizing o late with
  | nil => simpa [registerAll] using h
  | cons c cs ih =>
      have hregister : o.completion.register c = (.draining outcome (late ++ [c]), none) := by
        rw [h, Completion.register]
      simp only [registerAll, hregister]
      rw [ih rfl, List.append_assoc]
      rfl

theorem run_draining {o : Observed ι} {outcome outcome' : Outcome} {late : List (Callback ι)}
    (h : o.completion = .draining outcome late) (c : Callback ι) :
    (run outcome' o c).completion = .draining outcome (late ++ c.nested) := by
  cases c with
  | call id nested =>
      rw [run]
      exact registerAll_draining (show (o.happen _).completion = _ from h) nested
  | wait id => simpa [run, Callback.nested] using h

theorem foldl_run_draining (outcome' : Outcome) {o : Observed ι} {outcome : Outcome}
    {late : List (Callback ι)} (h : o.completion = .draining outcome late)
    (round : List (Callback ι)) : (round.foldl (run outcome') o).completion =
      .draining outcome (late ++ round.flatMap Callback.nested) := by
  induction round generalizing o late with
  | nil => simpa using h
  | cons c round ih =>
      rw [List.foldl_cons, ih (run_draining h c), List.append_assoc, List.flatMap_cons]

theorem observes_round (outcome : Outcome) (tasks : List (CallbackTask ι)) (o : Observed ι)
    (round : List (Callback ι)) :
    Observes o (round.map (.run · outcome false) ++ tasks) (round.foldl (run outcome) o) tasks := by
  induction round generalizing o with
  | nil => exact .refl o tasks
  | cons c round ih => exact (observes_run outcome false _ o c).trans (ih _)

/-- There are rounds enough for the last one to be empty. -/
theorem observes_runRounds (rounds : Nat) (outcome : Outcome) (round : List (Callback ι))
    (o : Observed ι) (hcompletion : o.completion = .draining outcome [])
    (hrounds : Callback.weights round < rounds) :
    Observes o (round.map (.run · outcome false) ++ [.endRound outcome])
      (runRounds rounds outcome round o) [] := by
  induction rounds generalizing round o with
  | zero => exact absurd hrounds (Nat.not_lt_zero _)
  | succ rounds ih =>
      have hround := observes_round outcome [.endRound outcome] o round
      have hkept := foldl_run_draining outcome hcompletion round
      have hweights := Callback.weights_flatMap_nested round
      apply hround.trans
      rw [runRounds]
      -- what the callbacks of the round have registered is all that the completion keeps
      generalize round.foldl (run outcome) o = o' at hkept ⊢
      rw [List.nil_append] at hkept
      cases hlate : round.flatMap Callback.nested with
      | nil =>
          rw [hlate] at hkept
          simp only [hkept, Completion.nextRound]
          exact .of_step (by simp only [CallbackTask.step, hkept, Completion.nextRound]; rfl)
            (by simp [event?])
      | cons c late =>
          rw [hlate] at hkept hweights
          simp only [hkept, Completion.nextRound]
          have hlength : 0 < round.length := by
            apply List.length_pos_iff.mpr
            intro hnil
            simp [hnil] at hlate
          have hstep : Observes o' [.endRound outcome]
              { o' with completion := .draining outcome [] }
              ((c :: late).map (.run · outcome false) ++ [.endRound outcome]) :=
            .of_step (by simp only [CallbackTask.step, hkept, Completion.nextRound]; rfl)
              (by simp [event?])
          exact hstep.trans (ih (c :: late) _ rfl (by omega))

end Observed

/-! ## The schedule -/

/-- Does what happens on one thread, with all that comes of it. -/
def Observed.act [DecidableEq ι] (o : Observed ι) : SessionAction ι → Observed ι
  | .onComplete c => o.onComplete c
  | .resolve outcome => o.tell outcome
  | .drop => o.tell (.failed .abandoned)
  | .stepTeller | .stepOther _ => o

namespace Session

open CallbackMark CallbackTask

/-- A session at rest in which the same can be observed. -/
structure Shows (s : Session ι) (o : Observed ι) : Prop where
  completion : s.completion = o.completion
  tellable : s.tellable = o.tellable
  events : s.marks.filterMap event? = o.events
  teller : s.teller = []
  others : ∀ thread ∈ s.others, thread = []

theorem stepAt_length (completion : Completion (Callback ι)) (threads : List (List (CallbackTask ι)))
    (thread : List (CallbackTask ι)) :
    stepAt completion threads.length (threads ++ [thread]) =
      ((CallbackTask.step completion thread).1,
        threads ++ [(CallbackTask.step completion thread).2.1],
        (CallbackTask.step completion thread).2.2) := by
  induction threads with
  | nil => rfl
  | cons thread' threads ih => simp only [List.length_cons, List.cons_append, stepAt, ih]

/-- The last thread goes on until it has nothing left to do. -/
theorem exists_steps_other {s : Session ι} {threads : List (List (CallbackTask ι))}
    {tasks tasks' : List (CallbackTask ι)} {marks : List (CallbackMark ι)}
    {completion : Completion (Callback ι)} (hothers : s.others = threads ++ [tasks])
    (h : Steps s.completion tasks marks completion tasks') :
    ∃ n, (List.replicate n (.stepOther threads.length)).foldl act s =
      { s with completion, others := threads ++ [tasks'], marks := s.marks ++ marks } := by
  -- the induction is on the steps, and the session goes along with them
  generalize hfrom : s.completion = start at h
  induction h generalizing s with
  | done =>
      subst hfrom
      exact ⟨0, by simp [← hothers]⟩
  | @more _ completion' _ _ _ tasks' _ marks _ step _ ih =>
      have hact : s.act (.stepOther threads.length) = { s with
          completion := completion', others := threads ++ [tasks'], marks := s.marks ++ marks } := by
        simp only [act, hothers, stepAt_length, hfrom, step]
      obtain ⟨n, hn⟩ := @ih (s.act (.stepOther threads.length)) (by rw [hact]) (by rw [hact])
      refine ⟨n + 1, ?_⟩
      rw [List.replicate_succ, List.foldl_cons, hn, hact]
      simp

/-- The thread that tells the outcome goes on until it has nothing left to do. -/
theorem exists_steps_teller {s : Session ι} {tasks' : List (CallbackTask ι)}
    {marks : List (CallbackMark ι)} {completion : Completion (Callback ι)}
    (h : Steps s.completion s.teller marks completion tasks') :
    ∃ n, (List.replicate n .stepTeller).foldl act s =
      { s with completion, teller := tasks', marks := s.marks ++ marks } := by
  generalize hfrom : s.completion = start at h
  generalize htasks : s.teller = tasks at h
  induction h generalizing s with
  | done =>
      subst hfrom htasks
      exact ⟨0, by simp⟩
  | @more _ completion' _ _ _ tasks' _ marks _ step _ ih =>
      have hact : s.act .stepTeller = { s with
          completion := completion', teller := tasks', marks := s.marks ++ marks } := by
        simp only [act, htasks, hfrom, step]
      obtain ⟨n, hn⟩ := @ih (s.act .stepTeller) (by rw [hact]) (by rw [hact])
      refine ⟨n + 1, ?_⟩
      rw [List.replicate_succ, List.foldl_cons, hn, hact]
      simp

variable [DecidableEq ι] {s : Session ι} {o : Observed ι}

/-- A callback is registered, with all that comes of it. -/
theorem Shows.onComplete (h : Shows s o) (c : Callback ι) :
    ∃ n, Shows ((List.replicate n (.stepOther s.others.length)).foldl Session.act
      (s.act (.onComplete c))) (o.onComplete c) := by
  obtain ⟨marks, hsteps, hevents, htellable⟩ := Observed.observes_registerAll [] o [c]
  rw [← h.completion] at hsteps
  have hothers : (s.act (.onComplete c)).others = s.others ++ [[.register c]] := rfl
  obtain ⟨n, hn⟩ := exists_steps_other hothers hsteps
  refine ⟨n, ?_⟩
  rw [hn]
  refine ⟨rfl, h.tellable.trans htellable.symm, ?_, h.teller, ?_⟩
  · rw [List.filterMap_append]
    exact (congrArg (· ++ marks.filterMap event?) h.events).trans hevents.symm
  · intro thread hthread
    rcases List.mem_append.mp hthread with hthread | hthread
    · exact h.others thread hthread
    · exact List.mem_singleton.mp hthread

/-- The outcome is told, with all that comes of it. -/
theorem Shows.tell (h : Shows s o) (outcome : Outcome) :
    ∃ n, Shows ((List.replicate n .stepTeller).foldl Session.act (s.tell outcome))
      (o.tell outcome) := by
  obtain ⟨hcompletion, htellable, hevents, hteller, hothers⟩ := h
  cases hcan : o.tellable with
  | false =>
      refine ⟨0, ?_⟩
      simp only [Session.tell, Observed.tell, htellable, hcan]
      exact ⟨hcompletion, htellable, hevents, hteller, hothers⟩
  | true =>
    cases htell : o.completion.tell outcome with
    | none =>
        refine ⟨0, ?_⟩
        simp only [Session.tell, Observed.tell, htellable, hcan, hcompletion, htell, if_true]
        exact ⟨rfl, rfl, hevents, hteller, hothers⟩
    | some first =>
        obtain ⟨round, completion⟩ := first
        -- what has waited is the first round
        have hdraining : completion = .draining outcome [] := by
          cases hpending : o.completion <;> simp_all [Completion.tell]
        obtain ⟨marks, hsteps, hevents', htellable'⟩ := Observed.observes_runRounds
          (Callback.weights round + 1) outcome round { o with completion, tellable := false }
          hdraining (Nat.lt_succ_self _)
        have hs : s.tell outcome = { s with
            completion, tellable := false
            teller := round.map (.run · outcome false) ++ [.endRound outcome] } := by
          simp only [Session.tell, htellable, hcan, hcompletion, htell, if_true]
        have ho : o.tell outcome = Observed.runRounds (Callback.weights round + 1) outcome round
            { o with completion, tellable := false } := by
          simp only [Observed.tell, hcan, htell, if_true]
        obtain ⟨n, hn⟩ := exists_steps_teller (s := s.tell outcome) (by rw [hs]; exact hsteps)
        refine ⟨n, ?_⟩
        rw [hn, hs, ho]
        refine ⟨rfl, htellable'.symm, ?_, rfl, hothers⟩
        rw [List.filterMap_append]
        exact (congrArg (· ++ marks.filterMap event?) hevents).trans hevents'.symm

end Session

/-- Whether threads that are there already go on. -/
def SessionAction.isStep : SessionAction ι → Bool
  | .stepTeller | .stepOther _ => true
  | _ => false

open SessionAction in
/-- Steps register nothing and tell nothing. -/
theorem append_steps (schedule : List (SessionAction ι)) {step : SessionAction ι}
    (h : step.isStep = true) (n : Nat) :
    roots (schedule ++ List.replicate n step) = roots schedule ∧
    reports (schedule ++ List.replicate n step) = reports schedule := by
  cases step with
  | stepTeller | stepOther => simp [roots, reports, List.filterMap_replicate_of_none]
  | onComplete | resolve | drop => simp [isStep] at h

open SessionAction in
/-- What happens on one thread is what some schedule of steps does. -/
theorem exists_schedule [DecidableEq ι] (script : List (SessionAction ι)) :
    ∃ schedule, roots schedule = roots script ∧ reports schedule = reports script ∧
      (Session.run schedule).Shows (script.foldl Observed.act .fresh) := by
  induction script using List.reverseRecOn with
  | nil => exact ⟨[], rfl, rfl, rfl, rfl, rfl, rfl, by simp [Session.run]⟩
  | append_singleton script action ih =>
      obtain ⟨schedule, hroots, hreports, hshows⟩ := ih
      have hrun (action step : SessionAction ι) (n : Nat) :
          Session.run (schedule ++ [action] ++ List.replicate n step) =
            (List.replicate n step).foldl Session.act ((Session.run schedule).act action) := by
        rw [Session.run, List.foldl_append, List.foldl_concat, Session.run]
      rw [List.foldl_concat, roots_concat, reports_concat, ← hroots, ← hreports]
      cases action with
      | onComplete c =>
          obtain ⟨n, hn⟩ := hshows.onComplete c
          refine ⟨_, ?_, ?_, (hrun _ _ n).symm ▸ hn⟩
          · rw [(append_steps _ rfl n).1, roots_concat]
          · rw [(append_steps _ rfl n).2, reports_concat]
      | resolve outcome =>
          obtain ⟨n, hn⟩ := hshows.tell outcome
          refine ⟨_, ?_, ?_, (hrun (.resolve outcome) _ n).symm ▸ hn⟩
          · rw [(append_steps _ rfl n).1, roots_concat]
          · rw [(append_steps _ rfl n).2, reports_concat]
      | drop =>
          obtain ⟨n, hn⟩ := hshows.tell (.failed .abandoned)
          refine ⟨_, ?_, ?_, (hrun .drop _ n).symm ▸ hn⟩
          · rw [(append_steps _ rfl n).1, roots_concat]
          · rw [(append_steps _ rfl n).2, reports_concat]
      | stepTeller => exact ⟨schedule, by simp, by simp, hshows⟩
      | stepOther n => exact ⟨schedule, by simp, by simp, hshows⟩

end EventReplay
