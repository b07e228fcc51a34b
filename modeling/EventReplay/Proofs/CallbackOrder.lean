import Mathlib.Data.List.Induction
import EventReplay.Proofs.CallbackSession

/-!
# The order of callbacks

The callbacks that are queued on a completion start in the order in which they are queued, round after
round (`Session.Phase`), each with the outcome that was told and none before it (`Session.Told`). This
holds for any number of threads, however they take turns.
-/

set_option autoImplicit false

namespace EventReplay

variable {ι : Type}

namespace Session

open CallbackMark CallbackTask

variable {s s' : Session ι} {roots : List (Callback ι)} {told : Option Outcome}

/-! ## The order in which callbacks start -/

/-- Until the last round is over, other threads only queue callbacks. -/
def Registers (tasks : List (CallbackTask ι)) : Prop := ∀ task ∈ tasks, ∃ c, task = .register c

/-- After the last round, callbacks run at once on the thread that registers them. -/
def RunsAtOnce (outcome : Outcome) (tasks : List (CallbackTask ι)) : Prop :=
  ∀ task ∈ tasks, (∃ c, task = .register c) ∨ (∃ c, task = .run c outcome true) ∨
    ∃ c, task = .finish c true

/-- What a queue of callbacks has come to. In a round, the teller has callbacks left that the one it
runs registers (`toRegister`), the one it runs (`current`), and the rest of the round. -/
inductive Phase (s : Session ι) : Prop where
  | waiting (queue : List (Callback ι))
      (completion : s.completion = .pending queue)
      (teller : s.teller = [])
      (others : ∀ thread ∈ s.others, Registers thread)
      (queued : queuedOf s.marks = queue)
      (started : startedOf false s.marks = [])
      (ended : endedOf false s.marks = [])
  | draining (outcome : Outcome) (toRegister current round late : List (Callback ι))
      (completion : s.completion = .draining outcome late)
      (teller : s.teller = toRegister.map .register ++ (current.map (.finish · false) ++
        (round.map (.run · outcome false) ++ [.endRound outcome])))
      (others : ∀ thread ∈ s.others, Registers thread)
      (queued : queuedOf s.marks = startedOf false s.marks ++ (round ++ late))
      (started : startedOf false s.marks = endedOf false s.marks ++ current)
  | resolved (outcome : Outcome)
      (completion : s.completion = .resolved outcome)
      (teller : s.teller = [])
      (others : ∀ thread ∈ s.others, RunsAtOnce outcome thread)
      (queued : queuedOf s.marks = startedOf false s.marks)
      (started : startedOf false s.marks = endedOf false s.marks)

/-- A callback starts with the outcome that was told and sees it; at once only where everything that
is ever queued has ended before. -/
def AsTold (s : Session ι) (before : List (CallbackMark ι)) : CallbackMark ι → Prop
  | .started _ outcome atOnce resolved seen =>
      s.completion.outcome? = some outcome ∧ resolved = true ∧ seen = some outcome ∧
        (atOnce = true → s.completion = .resolved outcome ∧ endedOf false before = queuedOf s.marks)
  | _ => True

/-- A step leaves at most one mark and takes nothing back. -/
structure Follows (s s' : Session ι) : Prop where
  marks : s'.marks = s.marks ∨ ∃ mark, s'.marks = s.marks ++ [mark] ∧ AsTold s s.marks mark
  outcome : ∀ outcome, s.completion.outcome? = some outcome → s'.completion.outcome? = some outcome
  resolved : ∀ outcome, s.completion = .resolved outcome →
    s'.completion = .resolved outcome ∧ queuedOf s'.marks = queuedOf s.marks

theorem Follows.refl (s : Session ι) : Follows s s :=
  ⟨.inl rfl, fun _ h => h, fun _ h => ⟨h, rfl⟩⟩

/-- After the last round a step queues nothing. -/
theorem step_resolved (outcome : Outcome) (tasks : List (CallbackTask ι)) :
    (CallbackTask.step (.resolved outcome) tasks).1 = .resolved outcome ∧
    queuedOf (CallbackTask.step (.resolved outcome) tasks).2.2 = [] := by
  rcases tasks with _ | ⟨_ | _ | _ | _, tasks⟩ <;> exact ⟨rfl, rfl⟩

theorem Follows.of_step {tasks : List (CallbackTask ι)}
    (hcompletion : s'.completion = (CallbackTask.step s.completion tasks).1)
    (hmarks : s'.marks = s.marks ++ (CallbackTask.step s.completion tasks).2.2)
    (htold : ∀ mark ∈ (CallbackTask.step s.completion tasks).2.2, AsTold s s.marks mark) :
    Follows s s' := by
  refine ⟨?_, ?_, ?_⟩
  · cases tasks with
    | nil => exact .inl (by simpa [CallbackTask.step] using hmarks)
    | cons task tasks =>
        obtain ⟨mark, hmark⟩ :=
          List.length_eq_one_iff.mp (length_marks_step s.completion task tasks)
        rw [hmark] at hmarks htold
        exact .inr ⟨mark, hmarks, htold mark (.head _)⟩
  · intro outcome houtcome
    rw [hcompletion, outcome?_step, houtcome]
  · intro outcome hresolved
    obtain ⟨hkept, hqueued⟩ := step_resolved outcome tasks
    rw [hresolved] at hcompletion hmarks
    rw [hmarks, queuedOf_append, hqueued, List.append_nil]
    exact ⟨hcompletion.trans hkept, rfl⟩

/-- A step of another thread, which has something to do or not. -/
theorem stepOther_cases (s : Session ι) (n : Nat) :
    s.act (.stepOther n) = s ∨
    ∃ before task thread after, s.others = before ++ (task :: thread) :: after ∧
      s.act (.stepOther n) = { s with
        completion := (CallbackTask.step s.completion (task :: thread)).1
        others := before ++ (CallbackTask.step s.completion (task :: thread)).2.1 :: after
        marks := s.marks ++ (CallbackTask.step s.completion (task :: thread)).2.2 } := by
  rcases stepAt_cases s.completion n s.others with hstep | ⟨before, thread, after, hothers, hstep⟩
  · exact .inl (by simp only [act, hstep, List.append_nil])
  · cases thread with
    | nil => exact .inl (by simp only [act, hstep, CallbackTask.step, List.append_nil, ← hothers])
    | cons task thread =>
        exact .inr ⟨before, task, thread, after, hothers, by simp only [act, hstep]⟩

/-- Replaces one thread by what is left of it. -/
theorem forall_others {P Q : List (CallbackTask ι) → Prop} {before after : List (List (CallbackTask ι))}
    {thread thread' : List (CallbackTask ι)} (h : ∀ t ∈ before ++ thread :: after, P t)
    (hrest : ∀ t, P t → Q t) (hthread : P thread → Q thread') :
    ∀ t ∈ before ++ thread' :: after, Q t := by
  intro t ht
  rcases List.mem_append.mp ht with ht | ht
  · exact hrest t (h t (List.mem_append_left _ ht))
  · rcases List.mem_cons.mp ht with rfl | ht
    · exact hthread (h thread (by simp))
    · exact hrest t (h t (by simp [ht]))

theorem Registers.tail {task : CallbackTask ι} {tasks : List (CallbackTask ι)}
    (h : Registers (task :: tasks)) : Registers tasks :=
  fun task htask => h task (List.mem_cons_of_mem _ htask)

theorem Registers.runsAtOnce {tasks : List (CallbackTask ι)} (h : Registers tasks)
    (outcome : Outcome) : RunsAtOnce outcome tasks := by
  intro task htask
  exact .inl (h task htask)

theorem Phase.asTold_other (h : Phase s) {task : CallbackTask ι} {thread : List (CallbackTask ι)}
    (hthread : task :: thread ∈ s.others) :
    ∀ mark ∈ (CallbackTask.step s.completion (task :: thread)).2.2, AsTold s s.marks mark := by
  cases h with
  | waiting queue hcompletion hteller hregisters =>
      obtain ⟨c, rfl⟩ := hregisters _ hthread task (.head _)
      simp [hcompletion, CallbackTask.step, Completion.register, AsTold]
  | draining outcome toRegister current round late hcompletion hteller hregisters =>
      obtain ⟨c, rfl⟩ := hregisters _ hthread task (.head _)
      simp [hcompletion, CallbackTask.step, Completion.register, AsTold]
  | resolved outcome hcompletion hteller hruns hqueued hstarted =>
      rcases hruns _ hthread task (.head _) with ⟨c, rfl⟩ | ⟨c, rfl⟩ | ⟨c, rfl⟩
      · simp [hcompletion, CallbackTask.step, Completion.register, AsTold]
      · intro mark hmark
        rw [hcompletion] at hmark
        obtain rfl := List.mem_singleton.mp hmark
        exact ⟨by rw [hcompletion]; rfl, rfl, rfl, fun _ => ⟨hcompletion, (hqueued.trans hstarted).symm⟩⟩
      · simp [CallbackTask.step, AsTold]

theorem Phase.stepOther (h : Phase s) (n : Nat) :
    Phase (s.act (.stepOther n)) ∧ Follows s (s.act (.stepOther n)) := by
  rcases stepOther_cases s n with hact | ⟨before, task, thread, after, hothers, hact⟩
  · rw [hact]
    exact ⟨h, .refl s⟩
  rw [hact]
  refine ⟨?_, .of_step rfl rfl (h.asTold_other (by rw [hothers]; simp))⟩
  cases h with
  | waiting queue hcompletion hteller hregisters hqueued hstarted hended =>
      rw [hothers] at hregisters
      obtain ⟨c, rfl⟩ := hregisters (task :: thread) (by simp) task (.head _)
      rw [hcompletion]
      refine .waiting (queue ++ [c]) rfl hteller ?_ ?_ ?_ ?_
      · exact forall_others hregisters (fun _ h => h) Registers.tail
      · simp [CallbackTask.step, Completion.register, hqueued]
      · simp [CallbackTask.step, Completion.register, hstarted]
      · simp [CallbackTask.step, Completion.register, hended]
  | draining outcome toRegister current round late hcompletion hteller hregisters hqueued hstarted =>
      rw [hothers] at hregisters
      obtain ⟨c, rfl⟩ := hregisters (task :: thread) (by simp) task (.head _)
      rw [hcompletion]
      refine .draining outcome toRegister current round (late ++ [c]) rfl hteller ?_ ?_ ?_
      · exact forall_others hregisters (fun _ h => h) Registers.tail
      · simp [CallbackTask.step, Completion.register, hqueued]
      · simpa [CallbackTask.step, Completion.register] using hstarted
  | resolved outcome hcompletion hteller hruns hqueued hstarted =>
      rw [hothers] at hruns
      have htail : RunsAtOnce outcome (task :: thread) → RunsAtOnce outcome thread :=
        fun h task htask => h task (List.mem_cons_of_mem _ htask)
      rw [hcompletion]
      rcases hruns (task :: thread) (by simp) task (.head _) with ⟨c, rfl⟩ | ⟨c, rfl⟩ | ⟨c, rfl⟩
      -- the callback is to run
      · refine .resolved outcome rfl hteller ?_ ?_ ?_
        · refine forall_others hruns (fun _ h => h) fun h task htask => ?_
          rcases List.mem_cons.mp htask with rfl | htask
          · exact .inr (.inl ⟨c, rfl⟩)
          · exact htail h task htask
        · simpa [CallbackTask.step, Completion.register] using hqueued
        · simpa [CallbackTask.step, Completion.register] using hstarted
      -- it runs, and those that it registers come before its end
      · refine .resolved outcome rfl hteller ?_ ?_ ?_
        · refine forall_others hruns (fun _ h => h) fun h task htask => ?_
          rcases List.mem_append.mp htask with htask | htask
          · obtain ⟨c, -, rfl⟩ := List.mem_map.mp htask
            exact .inl ⟨c, rfl⟩
          · rcases List.mem_cons.mp htask with rfl | htask
            · exact .inr (.inr ⟨c, rfl⟩)
            · exact htail h task htask
        · simpa [CallbackTask.step] using hqueued
        · simpa [CallbackTask.step] using hstarted
      · refine .resolved outcome rfl hteller ?_ ?_ ?_
        · exact forall_others hruns (fun _ h => h) htail
        · simpa [CallbackTask.step] using hqueued
        · simpa [CallbackTask.step] using hstarted

theorem Phase.asTold_teller (h : Phase s) :
    ∀ mark ∈ (CallbackTask.step s.completion s.teller).2.2, AsTold s s.marks mark := by
  cases h with
  | waiting queue hcompletion hteller => simp [hteller, CallbackTask.step]
  | resolved outcome hcompletion hteller => simp [hteller, CallbackTask.step]
  | draining outcome toRegister current round late hcompletion hteller =>
      rw [hteller]
      intro mark hmark
      rw [hcompletion] at hmark
      cases toRegister with
      | cons c toRegister =>
          obtain rfl := List.mem_singleton.mp hmark
          trivial
      | nil =>
        cases current with
        | cons c current =>
            obtain rfl := List.mem_singleton.mp hmark
            trivial
        | nil =>
          cases round with
          | cons c round =>
              obtain rfl := List.mem_singleton.mp hmark
              exact ⟨by rw [hcompletion]; rfl, rfl, rfl, fun h => absurd h (by decide)⟩
          | nil =>
            cases late <;>
              · obtain rfl := List.mem_singleton.mp hmark
                trivial

theorem Phase.stepTeller (h : Phase s) :
    Phase (s.act .stepTeller) ∧ Follows s (s.act .stepTeller) := by
  refine ⟨?_, .of_step rfl rfl h.asTold_teller⟩
  have hidle (hteller : s.teller = []) : s.act .stepTeller = s := by
    have hstep : CallbackTask.step s.completion s.teller = (s.completion, s.teller, []) := by
      rw [hteller]
      rfl
    simp only [act, hstep, List.append_nil]
  cases h with
  | waiting queue hcompletion hteller hregisters hqueued hstarted hended =>
      rw [hidle hteller]
      exact .waiting queue hcompletion hteller hregisters hqueued hstarted hended
  | resolved outcome hcompletion hteller hruns hqueued hstarted =>
      rw [hidle hteller]
      exact .resolved outcome hcompletion hteller hruns hqueued hstarted
  | draining outcome toRegister current round late hcompletion hteller hregisters hqueued hstarted =>
      simp only [act, hteller, hcompletion]
      cases toRegister with
      | cons c toRegister =>
          refine .draining outcome toRegister current round (late ++ [c]) rfl rfl hregisters ?_ ?_
          · simp [CallbackTask.step, Completion.register, hqueued]
          · simpa [CallbackTask.step, Completion.register] using hstarted
      | nil =>
        cases current with
        | cons c current =>
            refine .draining outcome [] current round late rfl rfl hregisters ?_ ?_
            · simpa [CallbackTask.step] using hqueued
            · simpa [CallbackTask.step] using hstarted
        | nil =>
          cases round with
          | cons c round =>
              refine .draining outcome c.nested [c] round late rfl rfl hregisters ?_ ?_
              · simpa [CallbackTask.step] using hqueued
              · simpa [CallbackTask.step] using hstarted
          | nil =>
            cases late with
            | cons c late =>
                refine .draining outcome [] [] (c :: late) [] rfl rfl hregisters ?_ ?_
                · simpa [CallbackTask.step, Completion.nextRound] using hqueued
                · simpa [CallbackTask.step, Completion.nextRound] using hstarted
            | nil =>
                refine .resolved outcome rfl rfl
                  (fun thread hthread => (hregisters thread hthread).runsAtOnce outcome) ?_ ?_
                · simpa [CallbackTask.step, Completion.nextRound] using hqueued
                · simpa [CallbackTask.step, Completion.nextRound] using hstarted

theorem Phase.onComplete (h : Phase s) (c : Callback ι) :
    Phase (s.act (.onComplete c)) ∧ Follows s (s.act (.onComplete c)) := by
  refine ⟨?_, .inl rfl, fun _ h => h, fun _ h => ⟨h, rfl⟩⟩
  have hnew : Registers [CallbackTask.register c] := by
    intro task htask
    exact ⟨c, List.mem_singleton.mp htask⟩
  have hmem {P : List (CallbackTask ι) → Prop} (h : ∀ thread ∈ s.others, P thread)
      (hc : P [.register c]) : ∀ thread ∈ s.others ++ [[.register c]], P thread := by
    intro thread hthread
    rcases List.mem_append.mp hthread with hthread | hthread
    · exact h thread hthread
    · rwa [List.mem_singleton.mp hthread]
  cases h with
  | waiting queue hcompletion hteller hregisters hqueued hstarted hended =>
      exact .waiting queue hcompletion hteller (hmem hregisters hnew) hqueued hstarted hended
  | draining outcome toRegister current round late hcompletion hteller hregisters hqueued hstarted =>
      exact .draining outcome toRegister current round late hcompletion hteller
        (hmem hregisters hnew) hqueued hstarted
  | resolved outcome hcompletion hteller hruns hqueued hstarted =>
      exact .resolved outcome hcompletion hteller (hmem hruns (hnew.runsAtOnce outcome)) hqueued
        hstarted

theorem Phase.tell (h : Phase s) (outcome : Outcome) :
    Phase (s.tell outcome) ∧ Follows s (s.tell outcome) := by
  unfold Session.tell
  cases s.tellable
  · exact ⟨h, .refl s⟩
  cases h with
  | waiting queue hcompletion hteller hregisters hqueued hstarted hended =>
      simp only [hcompletion, Completion.tell, if_true]
      refine ⟨.draining outcome [] [] queue [] rfl rfl hregisters ?_ ?_, .inl rfl, ?_, ?_⟩
      · simp [hqueued, hstarted]
      · simp [hstarted, hended]
      · simp [hcompletion, Completion.outcome?]
      · simp [hcompletion]
  -- an outcome that has been told stays
  | draining outcome' toRegister current round late hcompletion hteller hregisters hqueued hstarted =>
      have htell : s.completion.tell outcome = none := by rw [hcompletion]; rfl
      simp only [htell, if_true]
      exact ⟨.draining outcome' toRegister current round late hcompletion hteller hregisters hqueued
        hstarted, .inl rfl, fun _ h => h, fun _ h => ⟨h, rfl⟩⟩
  | resolved outcome' hcompletion hteller hruns hqueued hstarted =>
      have htell : s.completion.tell outcome = none := by rw [hcompletion]; rfl
      simp only [htell, if_true]
      exact ⟨.resolved outcome' hcompletion hteller hruns hqueued hstarted, .inl rfl, fun _ h => h,
        fun _ h => ⟨h, rfl⟩⟩

theorem Phase.act (h : Phase s) (action : SessionAction ι) :
    Phase (s.act action) ∧ Follows s (s.act action) := by
  cases action with
  | onComplete c => exact h.onComplete c
  | resolve outcome => exact h.tell outcome
  | drop => exact h.tell (.failed .abandoned)
  | stepTeller => exact h.stepTeller
  | stepOther n => exact h.stepOther n

theorem AsTold.follow {before : List (CallbackMark ι)} {mark : CallbackMark ι}
    (h : AsTold s before mark) (hs : Follows s s') : AsTold s' before mark := by
  cases mark with
  | started c outcome atOnce resolved seen =>
      obtain ⟨houtcome, hresolved, hseen, honce⟩ := h
      refine ⟨hs.outcome outcome houtcome, hresolved, hseen, fun hatOnce => ?_⟩
      obtain ⟨hcompletion, hended⟩ := honce hatOnce
      obtain ⟨hcompletion', hqueued⟩ := hs.resolved outcome hcompletion
      exact ⟨hcompletion', hqueued ▸ hended⟩
  | _ => trivial

/-- Every callback started as it was told. -/
def Told (s : Session ι) : Prop :=
  ∀ before mark after, s.marks = before ++ mark :: after → AsTold s before mark

theorem Told.follow (h : Told s) (hs : Follows s s') : Told s' := by
  intro before mark after hmarks
  rcases hs.marks with hsame | ⟨mark', hmark, htold⟩
  · exact (h before mark after (hsame ▸ hmarks)).follow hs
  · rw [hmark] at hmarks
    rcases List.eq_nil_or_concat after with rfl | ⟨after, last, rfl⟩
    -- the mark that has just been left
    · obtain ⟨rfl, hlast⟩ := List.append_inj' hmarks rfl
      obtain rfl := List.singleton_inj.mp hlast
      exact htold.follow hs
    · have hinit : s.marks ++ [mark'] = (before ++ mark :: after) ++ [last] := by
        simpa using hmarks
      exact (h before mark after (List.append_inj' hinit rfl).1).follow hs

/-! ## Whole schedules -/

theorem run_concat (schedule : List (SessionAction ι)) (action : SessionAction ι) :
    run (schedule ++ [action]) = (run schedule).act action := by
  simp [run]

theorem Phase.teller_eq_nil (h : Phase s) (houtcome : s.completion.outcome? = none) :
    s.teller = [] := by
  cases h with
  | waiting queue _ hteller => exact hteller
  | draining outcome _ _ _ _ hcompletion => simp [hcompletion, Completion.outcome?] at houtcome
  | resolved outcome _ hteller => exact hteller

theorem phase_run (schedule : List (SessionAction ι)) :
    Phase (run schedule) ∧ Told (run schedule) := by
  induction schedule using List.reverseRecOn with
  | nil =>
      refine ⟨.waiting [] rfl rfl (by simp [run]) rfl rfl rfl, fun before mark after hmarks => ?_⟩
      simp [run] at hmarks
  | append_singleton schedule action ih =>
      rw [run_concat]
      obtain ⟨hphase, hfollows⟩ := ih.1.act action
      exact ⟨hphase, ih.2.follow hfollows⟩

theorem kept_run (schedule : List (SessionAction ι)) :
    Kept (run schedule) (SessionAction.roots schedule) (SessionAction.reports schedule).head? := by
  induction schedule using List.reverseRecOn with
  | nil => exact ⟨.refl _, .refl _, rfl, rfl, Nat.le_refl _⟩
  | append_singleton schedule action ih =>
      -- nobody runs callbacks before there is an outcome
      have hteller : (SessionAction.reports schedule).head? = none → (run schedule).teller = [] :=
        fun h => (phase_run schedule).1.teller_eq_nil (ih.outcome.trans h)
      rw [run_concat, SessionAction.roots_concat, SessionAction.reports_concat, List.head?_append]
      cases action with
      | onComplete c => simpa only [List.head?_nil, Option.or_none] using ih.onComplete c
      | resolve outcome =>
          rw [List.append_nil]
          exact ih.tell hteller outcome
      | drop =>
          rw [List.append_nil]
          exact ih.tell hteller (.failed .abandoned)
      | stepTeller =>
          simpa only [List.append_nil, List.head?_nil, Option.or_none] using ih.stepTeller
      | stepOther n =>
          simpa only [List.append_nil, List.head?_nil, Option.or_none] using ih.stepOther n

theorem Kept.of_atRest (h : Kept s roots told) (hphase : Phase s) (hrest : s.atRest)
    (htold : told.isSome) :
    (allStarted s.marks).Perm (Callback.allOf roots) ∧
      (allEnded s.marks).Perm (Callback.allOf roots) ∧
      startedOf false s.marks = queuedOf s.marks := by
  simp only [atRest, Bool.and_eq_true, List.isEmpty_iff, List.all_eq_true] at hrest
  obtain ⟨hteller, hothers⟩ := hrest
  have htasks : s.tasks = [] := by
    simpa [tasks, hteller] using hothers
  have hended := h.ended
  have honce := h.once
  rw [htasks] at hended honce
  have houtcome := h.outcome
  cases hphase with
  | waiting queue hcompletion =>
      simp [hcompletion, Completion.outcome?, ← houtcome] at htold
  | draining outcome _ _ _ _ hcompletion hteller' =>
      simp [hteller'] at hteller
  | resolved outcome hcompletion _ _ hqueued =>
      have hstarted : (Callback.allOf roots).Perm (allStarted s.marks) := by
        simpa [hcompletion, Completion.kept, Callback.allOf] using honce
      have hended' : (allStarted s.marks).Perm (allEnded s.marks) := by simpa using hended
      exact ⟨hstarted.symm, (hstarted.trans hended').symm, hqueued.symm⟩

theorem Phase.startedOf_isPrefix (h : Phase s) : startedOf false s.marks <+: queuedOf s.marks := by
  cases h with
  | waiting queue _ _ _ _ hstarted => simp [hstarted]
  | draining outcome toRegister current round late _ _ _ hqueued => simp [hqueued]
  | resolved outcome _ _ _ hqueued => simp [hqueued]

/-- What a thread does that has something to do can be seen. -/
theorem length_marks_stepOther (s : Session ι) (n : Nat) (task : CallbackTask ι)
    (thread : List (CallbackTask ι)) (hn : s.others[n]? = some (task :: thread)) :
    (s.act (.stepOther n)).marks.length = s.marks.length + 1 := by
  have hstep : ∀ (n : Nat) (threads : List (List (CallbackTask ι))),
      threads[n]? = some (task :: thread) → (stepAt s.completion n threads).2.2.length = 1 := by
    intro n threads hn
    induction threads generalizing n with
    | nil => simp at hn
    | cons thread' threads ih =>
        cases n with
        | zero =>
            obtain rfl : thread' = task :: thread := by simpa using hn
            exact length_marks_step s.completion task thread
        | succ n => exact ih n (by simpa using hn)
  simp only [act, List.length_append, hstep n s.others hn]

end Session

open CallbackMark in
/-- Callbacks run once each, in the order of their registration. -/
theorem callbacks_run_once_in_order (schedule : List (SessionAction ι)) :
    let s := Session.run schedule
    let roots := SessionAction.roots schedule
    let reported := (SessionAction.reports schedule).head?
    -- the first outcome that is told is the outcome from then on
    (s.completion.outcome? = reported ∧ s.completion.isResolved = reported.isSome) ∧
    -- no callback starts twice, and each starts with the outcome and finds it there
    (allStarted s.marks).Subperm (Callback.allOf roots) ∧
    (∀ c outcome atOnce resolved seen, .started c outcome atOnce resolved seen ∈ s.marks →
      reported = some outcome ∧ resolved = true ∧ seen = some outcome) ∧
    -- with an outcome, every callback has started and ended once all threads have come to rest
    (s.atRest → reported.isSome →
      (allStarted s.marks).Perm (Callback.allOf roots) ∧
      (allEnded s.marks).Perm (Callback.allOf roots) ∧
      startedOf false s.marks = queuedOf s.marks) ∧
    -- those that are queued start in the order in which they are queued
    startedOf false s.marks <+: queuedOf s.marks ∧
    -- the others start when all of those have ended
    (∀ before c outcome resolved seen after,
      s.marks = before ++ .started c outcome true resolved seen :: after →
        endedOf false before = queuedOf s.marks) ∧
    -- all threads come to rest: each step is seen, and there are only so many to see
    (s.marks.length ≤ 4 * Callback.weights roots + 1 ∧
      (s.teller ≠ [] → (s.act .stepTeller).marks.length = s.marks.length + 1) ∧
      ∀ n task thread, s.others[n]? = some (task :: thread) →
        (s.act (.stepOther n)).marks.length = s.marks.length + 1) := by
  intro s roots reported
  have hkept : Session.Kept s roots reported := Session.kept_run schedule
  obtain ⟨hphase, htold⟩ : Session.Phase s ∧ Session.Told s := Session.phase_run schedule
  refine ⟨⟨hkept.outcome, ?_⟩, ?_, ?_, hkept.of_atRest hphase, hphase.startedOf_isPrefix, ?_, ?_, ?_,
    Session.length_marks_stepOther s⟩
  · rw [← hkept.outcome]
    cases s.completion <;> rfl
  · exact (List.sublist_append_left _ _).subperm.trans hkept.once.symm.subperm
  · intro c outcome atOnce resolved seen hmark
    obtain ⟨before, after, hmarks⟩ := List.append_of_mem hmark
    obtain ⟨houtcome, hresolved, hseen, -⟩ := htold before _ after hmarks
    exact ⟨hkept.outcome.symm.trans houtcome, hresolved, hseen⟩
  · intro before c outcome resolved seen after hmarks
    exact ((htold before _ after hmarks).2.2.2 rfl).2
  · have hwork := hkept.work
    have hreported : reported.toList.length ≤ 1 := by cases reported <;> simp
    omega
  · intro hteller
    obtain ⟨task, teller, htasks⟩ := List.exists_cons_of_ne_nil hteller
    simp only [Session.act, htasks, List.length_append, CallbackTask.length_marks_step]

end EventReplay
