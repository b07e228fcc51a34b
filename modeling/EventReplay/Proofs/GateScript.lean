import EventReplay.Proofs.GateCourse

/-!
# A gate on one thread

Where tasks take turns, and each call, each permit that goes back and each completion that is told goes
on as far as it can before anything else happens (`GateTasks`), the gate is in one of the states that it
can be in on many threads: `exists_gate_schedule` gives the schedule.
-/

set_option autoImplicit false

namespace EventReplay

variable {ι η : Type}

/-! ## Turns -/

/-- What happens next to the tasks at a gate. -/
inductive GateTurn (ι η : Type) where
  | start (name : ι) (wish : GateWish η)
  | cancel (name : ι)
  | release (name : ι)
  | releaseOn (name : ι) (handle : η)
  | tell (handle : η) (outcome : Outcome)
  | close

/-- The names of the tasks that start, in order. -/
def GateTurn.names (turns : List (GateTurn ι η)) : List ι :=
  turns.filterMap fun
    | start name _ => some name
    | _ => none

namespace GateTasks

variable [DecidableEq ι] [DecidableEq η]

/-- What happens next happens. -/
def act (g : GateTasks ι η) : GateTurn ι η → GateTasks ι η
  | .start name wish => g.start name wish
  | .cancel name => g.cancel name
  | .release name => g.release name
  | .releaseOn name handle => g.releaseOn name handle
  | .tell handle outcome => g.tell handle outcome
  | .close => g.close

/-- Takes a turn after others, and asks every task; adds the answers to those before. -/
def turn (played : List (ι × Bool) × GateTasks ι η) (next : GateTurn ι η) :
    List (ι × Bool) × GateTasks ι η :=
  let (answers, g) := (played.2.act next).pollAll
  (played.1 ++ answers, g)

/-- The answers of the tasks at a fresh gate in some turns, and the tasks afterwards. -/
def play (capacity : Nat) (turns : List (GateTurn ι η)) : List (ι × Bool) × GateTasks ι η :=
  turns.foldl turn ([], { gate := .ofCapacity capacity })

/-- Asks a task, after others have given some answers. -/
def ask (played : List (ι × Bool) × GateTasks ι η) (task : GateTask ι η) :
    List (ι × Bool) × GateTasks ι η :=
  (played.1 ++ (played.2.poll task).1.toList.map (task.name, ·), (played.2.poll task).2)

omit [DecidableEq ι] in
theorem pollAll_eq (g : GateTasks ι η) : g.pollAll = g.tasks.foldl ask ([], g) := by
  unfold pollAll
  congr 1
  funext played task
  obtain ⟨answers, g⟩ := played
  rcases hpoll : g.poll task with ⟨_ | answer, g'⟩ <;> simp [ask, hpoll]

omit [DecidableEq ι] in
theorem releaseWhenTold_tasks (g : GateTasks ι η) (handle : η) :
    (g.releaseWhenTold handle).tasks = g.tasks ∧
      (g.releaseWhenTold handle).nextTicket = g.nextTicket := by
  unfold releaseWhenTold
  split <;> exact ⟨rfl, rfl⟩

omit [DecidableEq ι] in
/-- A task that is asked stays, or it leaves and the others stay. -/
theorem mem_poll {g : GateTasks ι η} {task other : GateTask ι η} (hother : other ∈ g.tasks)
    (hne : other.ticket ≠ task.ticket) : other ∈ (g.poll task).2.tasks := by
  have hstays : other ∈ g.tasks.filter fun other => other.ticket ≠ task.ticket :=
    List.mem_filter.mpr ⟨hother, by simpa using hne⟩
  unfold poll
  split
  · exact hstays
  · split
    · split
      · exact hstays
      · show other ∈ (releaseWhenTold _ _).tasks
        rw [(releaseWhenTold_tasks _ _).1]
        exact hstays
      · exact hstays
    · exact hother

omit [DecidableEq ι] in
theorem tell_tasks (g : GateTasks ι η) (handle : η) (outcome : Outcome) :
    (g.tell handle outcome).tasks = g.tasks ∧ (g.tell handle outcome).nextTicket = g.nextTicket := by
  unfold tell
  split <;> exact ⟨rfl, rfl⟩

omit [DecidableEq ι] in
theorem completion_setCompletion (g : GateTasks ι η) (handle : η) (c : Completion Unit) (handle' : η) :
    (g.setCompletion handle c).completion handle' =
      if handle' = handle then c else g.completion handle' := by
  rw [completion, setCompletion, lookup_set]
  split <;> rfl

end GateTasks

/-! ## Callbacks without names -/

namespace Completion

variable {κ : Type}

/-- A completion that tells no two callbacks apart. -/
def blank : Completion κ → Completion Unit
  | pending waiting => pending (waiting.map fun _ => ())
  | draining outcome late => draining outcome (late.map fun _ => ())
  | resolved outcome => resolved outcome

theorem register_blank (c : Completion κ) (k : κ) :
    c.blank.register () = ((c.register k).1.blank, (c.register k).2) := by
  cases c <;> simp [blank, register]

theorem tell_blank (c : Completion κ) (outcome : Outcome) :
    c.blank.tell outcome =
      (c.tell outcome).map fun told => (told.1.map fun _ => (), told.2.blank) := by
  cases c <;> rfl

end Completion

/-! ## Names -/

/-- The tickets stand for the names of tasks. -/
def Named (names : List ι) (tickets : List Nat) (tasks : List ι) : Prop :=
  tickets.map (names[·]?) = tasks.map some

namespace Named

variable {names : List ι} {tickets : List Nat} {tasks : List ι}

theorem concat (h : Named names tickets tasks) {ticket : Nat} {name : ι}
    (hname : names[ticket]? = some name) : Named names (tickets ++ [ticket]) (tasks ++ [name]) := by
  simp only [Named, List.map_append, List.map_cons, List.map_nil, hname]
  exact congrArg (· ++ [some name]) h

/-- Tickets stand for the same names when more tasks start. -/
theorem more (h : Named names tickets tasks) (name : ι) : Named (names ++ [name]) tickets tasks := by
  rw [Named, ← h]
  refine List.map_congr_left fun ticket hticket => ?_
  have hmem : names[ticket]? ∈ tasks.map some := h ▸ List.mem_map_of_mem hticket
  obtain ⟨task, -, htask⟩ := List.mem_map.mp hmem
  rw [List.getElem?_append_left (List.getElem?_eq_some_iff.mp htask.symm).1]

/-- The first task of a name leaves with its ticket. -/
theorem exists_erase [DecidableEq ι] (h : Named names tickets tasks) {name : ι} (hname : name ∈ tasks) :
    ∃ ticket ∈ tickets, names[ticket]? = some name ∧
      Named names (tickets.erase ticket) (tasks.erase name) := by
  induction tickets generalizing tasks with
  | nil =>
      have hnone : tasks = [] := List.map_eq_nil_iff.mp (Eq.symm h)
      exact absurd hname (by simp [hnone])
  | cons first tickets ih =>
      cases tasks with
      | nil => exact absurd hname List.not_mem_nil
      | cons task tasks =>
          obtain ⟨hfirst, hrest⟩ := List.cons.inj h
          by_cases heq : task = name
          · subst heq
            refine ⟨first, List.mem_cons_self .., hfirst, ?_⟩
            rw [List.erase_cons_head, List.erase_cons_head]
            exact hrest
          · obtain ⟨ticket, hmem, hticket, herase⟩ := ih hrest ((List.mem_cons.mp hname).resolve_left
              (Ne.symm heq))
            have hne : first ≠ ticket := by
              rintro rfl
              exact heq (Option.some.inj (hfirst.symm.trans hticket))
            refine ⟨ticket, List.mem_cons_of_mem _ hmem, hticket, ?_⟩
            rw [List.erase_cons_tail (by simpa using hne), List.erase_cons_tail (by simpa using heq)]
            exact congrArg₂ List.cons hfirst herase

end Named

/-! ## What one thread does -/

variable [DecidableEq η]

/-- A thread takes steps and leaves marks, until it has other things left to do. -/
inductive GateWork.Steps : GateTable η → List (GateWork η) → List (GateMark η) → GateTable η →
    List (GateWork η) → Prop
  | done {t : GateTable η} {work : List (GateWork η)} : Steps t work [] t work
  | more {t t' t'' : GateTable η} {first : GateWork η} {new work work' : List (GateWork η)}
      {marks marks' : List (GateMark η)} (step : first.perform t = (t', new, marks))
      (rest : Steps t' (new ++ work) marks' t'' work') :
      Steps t (first :: work) (marks ++ marks') t'' work'

namespace GateWork

variable {t t' t'' : GateTable η} {work work' work'' : List (GateWork η)} {marks marks' : List (GateMark η)}

theorem Steps.trans (h : Steps t work marks t' work') (h' : Steps t' work' marks' t'' work'') :
    Steps t work (marks ++ marks') t'' work'' := by
  induction h with
  | done => exact h'
  | more step _ ih =>
      rw [List.append_assoc]
      exact .more step (ih h')

/-- A permit goes back. -/
theorem steps_countDown (t : GateTable η) (ticket : Nat) (work : List (GateWork η)) :
    Steps t (.countDown ticket :: work) [.became ticket .returned] { t with gate := t.gate.release }
      work :=
  .more rfl (.more rfl .done)

/-- The permits of a round go back. -/
theorem steps_round (t : GateTable η) (round : List Nat) (work : List (GateWork η)) :
    Steps t (round.map .countDown ++ work) (round.map (.became · .returned))
      { t with gate := round.foldl (fun gate _ => gate.release) t.gate } work := by
  induction round generalizing t with
  | nil => exact .done
  | cons ticket round ih => exact (steps_countDown t ticket _).trans (ih _)

section Call

variable {t : GateTable η} {ticket : Nat}

/-- A call learns that the gate is closed. -/
theorem steps_refuse (hclosed : t.gate.closed = true) (wish : GateWish η) :
    Steps t [.call ticket wish] [.became ticket .refused] { t with gate := t.gate.withdraw ticket } [] := by
  have hstep : (call ticket wish).perform t =
      ({ t with gate := t.gate.withdraw ticket }, [], [.became ticket .refused]) := by
    simp only [perform, hclosed, if_true]
  exact .more hstep .done

/-- A call is granted a permit to keep. -/
theorem steps_reserve (hopen : t.gate.closed = false) (hready : t.gate.isReady ticket = true) :
    Steps t [.call ticket .reserve] [.became ticket .granted]
      { t with gate := t.gate.grant ticket, permits := t.permits ++ [ticket] } [] := by
  have hstep : (call ticket .reserve).perform t =
      ({ t with gate := t.gate.take ticket }, [.countUp ticket none], [.became ticket .granted]) := by
    simp only [perform, hopen, hready, if_true, Bool.false_eq_true, if_false]
    rfl
  exact .more hstep (.more rfl (.more rfl .done))

/-- A call is granted a permit that goes back on a completion. -/
theorem steps_acquire (hopen : t.gate.closed = false) (hready : t.gate.isReady ticket = true) (handle : η) :
    Steps t [.call ticket (.acquire handle)] [.became ticket .granted]
      { t with gate := t.gate.grant ticket } [.register ticket handle] := by
  have hstep : (call ticket (.acquire handle)).perform t =
      ({ t with gate := t.gate.take ticket }, [.countUp ticket (some handle)],
        [.became ticket .granted]) := by
    simp only [perform, hopen, hready, if_true, Bool.false_eq_true, if_false]
    rfl
  exact .more hstep (.more rfl (.more rfl .done))

/-- A call drains the gate. -/
theorem steps_drain (hopen : t.gate.closed = false) (hready : t.gate.isReady ticket = true) :
    Steps t [.call ticket .drain] [.became ticket .drained, .became ticket .refilled]
      { t with gate := (t.gate.take ticket).putBack t.gate.capacity } [] := by
  have hstep : (call ticket .drain).perform t =
      ({ t with gate := t.gate.take ticket }, [.refill ticket], [.became ticket .drained]) := by
    simp only [perform, hopen, hready, if_true, Bool.false_eq_true, if_false]
  exact .more hstep (.more rfl .done)

end Call

/-- After an empty round all rounds are over. -/
theorem steps_endRound {t : GateTable η} {handle : η} {outcome : Outcome}
    (h : t.completion handle = .draining outcome []) :
    Steps t [.endRound handle] [] (t.setCompletion handle (.resolved outcome)) [] := by
  have hstep : (endRound handle).perform t = (t.setCompletion handle (.resolved outcome), [], []) := by
    simp only [perform, h, Completion.nextRound]
  exact .more hstep .done

end GateWork

/-- The answers that the marks tell of: that a call is granted a permit or has drained the gate, or that
the gate is closed. -/
def GateMark.answersOf (marks : List (GateMark η)) : List (Nat × Bool) :=
  marks.filterMap fun
    | .became ticket .granted | .became ticket .drained => some (ticket, true)
    | .became ticket .refused => some (ticket, false)
    | _ => none

omit [DecidableEq η] in
theorem GateMark.answersOf_append (l m : List (GateMark η)) :
    answersOf (l ++ m) = answersOf l ++ answersOf m := List.filterMap_append

/-- What threads share is what tasks share: their permits have names, and completions do not tell permits
apart. -/
structure GateTable.Shows (t : GateTable η) (names : List ι) (g : GateTasks ι η) : Prop where
  gate : t.gate = g.gate
  permits : Named names t.permits g.permits
  completion : ∀ handle, g.completion handle = (t.completion handle).blank

namespace GateTable.Shows

open GateMark GateWork

variable {t t' : GateTable η} {names : List ι} {g : GateTasks ι η}

theorem setCompletion (h : t.Shows names g) (handle : η) (c : Completion Nat) :
    (t.setCompletion handle c).Shows names (g.setCompletion handle c.blank) := by
  refine ⟨h.gate, h.permits, fun handle' => ?_⟩
  rw [GateTasks.completion_setCompletion, GateTable.completion_setCompletion]
  split
  · rfl
  · exact h.completion handle'

/-- A permit goes back when a completion is told, or at once. -/
theorem exists_register (h : t.Shows names g) (ticket : Nat) (handle : η) :
    ∃ marks t', Steps t [.register ticket handle] marks t' [] ∧ answersOf marks = [] ∧
      t'.nextTicket = t.nextTicket ∧ t'.Shows names (g.releaseWhenTold handle) := by
  have hblank : (g.completion handle).register () =
      (((t.completion handle).register ticket).1.blank, ((t.completion handle).register ticket).2) := by
    rw [h.completion, Completion.register_blank]
  cases hregister : (t.completion handle).register ticket with
  | mk c told =>
      rw [hregister] at hblank
      have hset := h.setCompletion handle c
      cases told with
      | none =>
          have hstep : (GateWork.register ticket handle).perform t = (t.setCompletion handle c, [], []) := by
            simp only [perform, hregister]
          refine ⟨[], _, .more hstep .done, rfl, rfl, ?_⟩
          simpa only [GateTasks.releaseWhenTold, hblank] using hset
      | some outcome =>
          have hstep : (GateWork.register ticket handle).perform t =
              (t.setCompletion handle c, [.countDown ticket], []) := by
            simp only [perform, hregister]
          refine ⟨_, _, .more hstep (steps_countDown _ ticket []), rfl, rfl, ?_⟩
          simp only [GateTasks.releaseWhenTold, hblank]
          exact ⟨congrArg Gate.release h.gate, hset.permits, hset.completion⟩

/-- A completion is told, and its permits go back. -/
theorem exists_tell (h : t.Shows names g) {handle : η} {outcome : Outcome} {round : List Nat}
    {c : Completion Nat} (htell : (t.completion handle).tell outcome = some (round, c)) :
    ∃ marks t', Steps (t.setCompletion handle c) (round.map .countDown ++ [.endRound handle]) marks t' [] ∧
      answersOf marks = [] ∧ t'.nextTicket = t.nextTicket ∧ t'.Shows names (g.tell handle outcome) := by
  have hblank : (g.completion handle).tell outcome = some (round.map fun _ => (), c.blank) := by
    rw [h.completion, Completion.tell_blank, htell]
    rfl
  -- nothing is registered while the permits of the first round go back
  obtain rfl : c = .draining outcome [] := by
    cases hc : t.completion handle <;> simp_all [Completion.tell]
  have hset := t.completion_setCompletion handle (.draining outcome [])
  have hround := steps_round (t.setCompletion handle (.draining outcome [])) round [.endRound handle]
  have hlast : Steps { t.setCompletion handle (.draining outcome []) with
      gate := round.foldl (fun gate _ => gate.release) t.gate } [.endRound handle] [] _ [] :=
    steps_endRound ((hset handle).trans (if_pos rfl))
  refine ⟨_, _, hround.trans hlast, by simp [answersOf], rfl, ?_⟩
  simp only [GateTasks.tell, hblank]
  refine ⟨?_, h.permits, fun handle' => ?_⟩
  · show round.foldl _ t.gate = (round.map fun _ => ()).foldl _ g.gate
    rw [List.foldl_map, h.gate]
  · have hset' := hset handle'
    rw [GateTable.completion_setCompletion]
    show (g.setCompletion handle (.resolved outcome)).completion handle' = _
    rw [GateTasks.completion_setCompletion]
    split
    · rfl
    · rename_i hne
      rw [if_neg hne] at hset'
      exact (h.completion handle').trans (congrArg Completion.blank hset'.symm)

end GateTable.Shows

/-! ## What all threads do -/

namespace GateSession

open GateMark GateWork

variable {s : GateSession η} {t t' : GateTable η} {marks : List (GateMark η)} {n : Nat}
  {work work' : List (GateWork η)}

/-- A thread goes on while the others wait. -/
theorem exists_steps (hthread : s.threads[n]? = some work) (h : Steps s.table work marks t' work') :
    ∃ k, (List.replicate k (.step n)).foldl act s =
      ⟨t', s.threads.set n work', s.marks ++ marks⟩ := by
  -- the induction is on the steps, and the session goes along with them
  generalize hfrom : s.table = t at h
  induction h generalizing s with
  | @done t work =>
      subst hfrom
      obtain ⟨hlt, hget⟩ := List.getElem?_eq_some_iff.mp hthread
      refine ⟨0, ?_⟩
      rw [← hget, List.set_getElem_self, List.append_nil]
      rfl
  | @more _ t' t'' first new work work' marks marks' step _ ih =>
      have hact : s.act (.step n) = ⟨t', s.threads.set n (new ++ work), s.marks ++ marks⟩ := by
        simp only [act, hthread, hfrom, step]
      have hlt : n < s.threads.length := (List.getElem?_eq_some_iff.mp hthread).1
      obtain ⟨k, hk⟩ := @ih (s.act (.step n)) (by rw [hact]; simp [hlt]) (by rw [hact])
      refine ⟨k + 1, ?_⟩
      rw [List.replicate_succ, List.foldl_cons, hk, hact]
      simp

theorem run_append (capacity : Nat) (schedule more : List (GateAction η)) :
    run capacity (schedule ++ more) = more.foldl act (run capacity schedule) := by
  rw [run, List.foldl_append, run]

variable {names : List ι} {g g' : GateTasks ι η} {answers : List (ι × Bool)}

/-- A session at rest in which the same can be observed as of tasks that have given some answers. -/
structure Shows (s : GateSession η) (names : List ι) (answers : List (ι × Bool)) (g : GateTasks ι η) :
    Prop where
  table : s.table.Shows names g
  rest : s.atRest = true
  calls : s.calls = g.tasks.map fun task => (task.ticket, task.wish)
  named : ∀ task ∈ g.tasks, names[task.ticket]? = some task.name
  next : s.table.nextTicket = names.length
  next' : g.nextTicket = names.length
  answered : Named names ((answersOf s.marks).map Prod.fst) (answers.map Prod.fst)
  granted : (answersOf s.marks).map Prod.snd = answers.map Prod.snd

/-- A new thread goes on until it has nothing left to do. -/
theorem Shows.settle (h : s.Shows names answers g) (hsteps : Steps t work marks t' [])
    (hanswers : answersOf marks = []) (hnext : t'.nextTicket = s.table.nextTicket)
    (ht : t'.Shows names g') (htasks : g'.tasks = g.tasks ∧ g'.nextTicket = g.nextTicket) :
    ∃ k, ((List.replicate k (.step s.threads.length)).foldl act
      ⟨t, s.threads ++ [work], s.marks⟩).Shows names answers g' := by
  have hthread : (s.threads ++ [work])[s.threads.length]? = some work := by simp
  obtain ⟨k, hk⟩ := exists_steps (s := ⟨t, s.threads ++ [work], s.marks⟩) hthread hsteps
  have hwork : GateSession.work ⟨t', (s.threads ++ [work]).set s.threads.length [], s.marks ++ marks⟩ =
      s.work := by
    simp [GateSession.work]
  have hall : answersOf (s.marks ++ marks) = answersOf s.marks := by
    rw [answersOf_append, hanswers, List.append_nil]
  refine ⟨k, ?_⟩
  rw [hk]
  refine ⟨ht, ?_, ?_, htasks.1 ▸ h.named, hnext.trans h.next, htasks.2.trans h.next', ?_, ?_⟩
  · rw [atRest, hwork]
    exact h.rest
  · rw [GateSession.calls, hwork, htasks.1]
    exact h.calls
  · rw [hall]
    exact h.answered
  · rw [hall]
    exact h.granted

/-! ## What comes of a turn -/

/-- A task starts. -/
theorem Shows.start (h : s.Shows names answers g) (name : ι) (wish : GateWish η) :
    (s.act (.start wish)).Shows (names ++ [name]) answers (g.start name wish) := by
  have hticket : g.nextTicket = s.table.nextTicket := h.next'.trans h.next.symm
  have hold {ticket : Nat} {task : ι} (hname : names[ticket]? = some task) :
      (names ++ [name])[ticket]? = some task := by
    rw [List.getElem?_append_left (List.getElem?_eq_some_iff.mp hname).1, hname]
  have hmarks : answersOf (s.act (.start wish)).marks = answersOf s.marks := by
    simp [act, answersOf]
  have hwork : (s.act (.start wish)).work = s.work ++ [.call s.table.nextTicket wish] := by
    simp [act, work]
  refine ⟨⟨?_, h.table.permits.more name, h.table.completion⟩, ?_, ?_, ?_, ?_, ?_, ?_, ?_⟩
  · show s.table.gate.ask s.table.nextTicket _ = _
    rw [h.table.gate, ← hticket]
    cases wish <;> rfl
  · rw [atRest, hwork, List.all_append, show s.work.all isCall = true from h.rest]
    rfl
  · rw [GateSession.calls, hwork, List.flatMap_append, ← hticket]
    show s.calls ++ [_] = (g.tasks ++ [_]).map _
    rw [h.calls, List.map_append]
    rfl
  · intro task htask
    rcases List.mem_append.mp htask with htask | htask
    · exact hold (h.named task htask)
    · rw [List.mem_singleton.mp htask]
      show (names ++ [name])[g.nextTicket]? = some name
      rw [h.next', List.getElem?_concat_length]
  · show s.table.nextTicket + 1 = _
    rw [h.next, List.length_append, List.length_singleton]
  · show g.nextTicket + 1 = _
    rw [h.next', List.length_append, List.length_singleton]
  · rw [hmarks]
    exact h.answered.more name
  · rw [hmarks]
    exact h.granted

theorem Shows.close (h : s.Shows names answers g) : (s.act .close).Shows names answers g.close := by
  have hmarks : answersOf (s.act .close).marks = answersOf s.marks := by
    simp [act, answersOf]
  refine ⟨⟨congrArg Gate.close h.table.gate, h.table.permits, h.table.completion⟩, h.rest, h.calls, h.named,
    h.next, h.next', ?_, ?_⟩
  · rw [hmarks]
    exact h.answered
  · rw [hmarks]
    exact h.granted

/-- A task parts with a permit, and a thread goes on with it. -/
theorem Shows.part (h : s.Shows names answers g) {ticket : Nat} {action : GateAction η} {first : GateWork η}
    (hact : s.act action = s.part ticket first) (hticket : ticket ∈ s.table.permits)
    (hsteps : Steps { s.table with permits := s.table.permits.erase ticket } [first] marks t' [])
    (hanswers : answersOf marks = []) (hnext : t'.nextTicket = s.table.nextTicket)
    (ht : t'.Shows names g') (htasks : g'.tasks = g.tasks ∧ g'.nextTicket = g.nextTicket) :
    ∃ actions : List (GateAction η), (actions.foldl act s).Shows names answers g' := by
  rw [GateSession.part, if_pos hticket] at hact
  obtain ⟨k, hk⟩ := h.settle hsteps hanswers hnext ht htasks
  refine ⟨action :: List.replicate k (.step s.threads.length), ?_⟩
  rw [List.foldl_cons, hact]
  exact hk

/-- A task gives a permit back. -/
theorem Shows.release [DecidableEq ι] (h : s.Shows names answers g) (name : ι) :
    ∃ actions : List (GateAction η), (actions.foldl act s).Shows names answers (g.release name) := by
  unfold GateTasks.release
  split
  · rename_i hname
    obtain ⟨ticket, hticket, -, herase⟩ := h.table.permits.exists_erase hname
    have hact : s.act (.drop ticket) = s.part ticket (.countDown ticket) := rfl
    exact h.part hact hticket (steps_countDown _ ticket []) rfl rfl
      ⟨congrArg Gate.release h.table.gate, herase, h.table.completion⟩ ⟨rfl, rfl⟩
  · exact ⟨[], h⟩

/-- A task lets a permit go back when a completion is told. -/
theorem Shows.releaseOn [DecidableEq ι] (h : s.Shows names answers g) (name : ι) (handle : η) :
    ∃ actions : List (GateAction η), (actions.foldl act s).Shows names answers (g.releaseOn name handle) := by
  unfold GateTasks.releaseOn
  split
  · rename_i hname
    obtain ⟨ticket, hticket, -, herase⟩ := h.table.permits.exists_erase hname
    have htable : GateTable.Shows { s.table with permits := s.table.permits.erase ticket } names
        { g with permits := g.permits.erase name } := ⟨h.table.gate, herase, h.table.completion⟩
    obtain ⟨marks, t', hsteps, hanswers, hnext, ht⟩ := htable.exists_register ticket handle
    have hact : s.act (.releaseOn ticket handle) = s.part ticket (.register ticket handle) := rfl
    exact h.part hact hticket hsteps hanswers hnext ht
      (GateTasks.releaseWhenTold_tasks _ handle)
  · exact ⟨[], h⟩

/-- A completion is told. -/
theorem Shows.tell (h : s.Shows names answers g) (handle : η) (outcome : Outcome) :
    ∃ actions : List (GateAction η), (actions.foldl act s).Shows names answers (g.tell handle outcome) := by
  cases htell : (s.table.completion handle).tell outcome with
  | none =>
      have hsame : g.tell handle outcome = g := by
        rw [GateTasks.tell, h.table.completion, Completion.tell_blank, htell]
        rfl
      exact ⟨[], hsame.symm ▸ h⟩
  | some first =>
      obtain ⟨round, c⟩ := first
      obtain ⟨marks, t', hsteps, hanswers, hnext, ht⟩ := h.table.exists_tell htell
      have hact : s.act (.tell handle outcome) = { s with
          table := s.table.setCompletion handle c
          threads := s.threads ++ [round.map .countDown ++ [.endRound handle]] } := by
        simp only [act, htell]
      obtain ⟨k, hk⟩ := h.settle hsteps hanswers hnext ht (g.tell_tasks handle outcome)
      refine ⟨.tell handle outcome :: List.replicate k (.step s.threads.length), ?_⟩
      rw [List.foldl_cons, hact]
      exact hk

/-! ## Calls that are answered or given up -/

omit [DecidableEq η] in
/-- A thread of its own waits for each call. -/
theorem Apart.exists_thread (h : s.Apart) {ticket : Nat} {wish : GateWish η}
    (hcall : (ticket, wish) ∈ s.calls) : ∃ n : Nat, s.threads[n]? = some [.call ticket wish] := by
  obtain ⟨work, hwork, hawaits⟩ := List.mem_flatMap.mp hcall
  obtain ⟨thread, hthread, hmem⟩ := List.mem_flatten.mp hwork
  obtain ⟨n, hn⟩ := List.getElem?_of_mem hthread
  cases work with
  | call ticket' wish' =>
      obtain ⟨rfl, rfl⟩ : ticket = ticket' ∧ wish = wish' := by simpa [awaits] using hawaits
      exact ⟨n, hn.trans (congrArg some (h thread hthread ticket wish hmem))⟩
  | _ => simp [awaits] at hawaits

section Leave

variable {task : GateTask ι η}

theorem Shows.mem_calls (h : s.Shows names answers g) (htask : task ∈ g.tasks) :
    (task.ticket, task.wish) ∈ s.calls := by
  rw [h.calls]
  exact List.mem_map.mpr ⟨task, htask, rfl⟩

/-- A call leaves with its thread, and perhaps an answer. -/
theorem Shows.leave (h : s.Shows names answers g) (hlined : s.Lined) (htask : task ∈ g.tasks)
    (hthread : s.threads[n]? = some [.call task.ticket task.wish]) (answer : Option Bool)
    (hanswers : answersOf marks = answer.toList.map (task.ticket, ·))
    (hnext : t'.nextTicket = s.table.nextTicket) (ht : t'.Shows names g')
    (htasks : g'.tasks = g.tasks.filter fun other => other.ticket ≠ task.ticket)
    (hnext' : g'.nextTicket = g.nextTicket) :
    GateSession.Shows ⟨t', s.threads.set n [], s.marks ++ marks⟩ names
      (answers ++ answer.toList.map (task.name, ·)) g' := by
  obtain ⟨before, after, hwork, hset⟩ := flatten_set hthread
  have hwork' : GateSession.work ⟨t', s.threads.set n [], s.marks ++ marks⟩ = before ++ after := by
    simpa [GateSession.work] using hset []
  have hcalls : s.calls = before.flatMap awaits ++ [(task.ticket, task.wish)] ++ after.flatMap awaits :=
    calls_of_work hwork
  refine ⟨ht, ?_, ?_, ?_, hnext.trans h.next, hnext'.trans h.next', ?_, ?_⟩
  · have hrest := h.rest
    rw [atRest, show s.work = _ from hwork, List.all_append, List.all_append, Bool.and_eq_true,
      Bool.and_eq_true] at hrest
    rw [atRest, hwork', List.all_append, hrest.1.1, hrest.2]
    rfl
  · have hsorted := hlined.sorted
    rw [hcalls] at hsorted
    rw [GateSession.calls, hwork', List.flatMap_append, ← filter_awaits hsorted, ← hcalls, h.calls, htasks,
      List.filter_map]
    rfl
  · intro other hother
    rw [htasks] at hother
    exact h.named other (List.mem_filter.mp hother).1
  · rw [answersOf_append, hanswers]
    cases answer with
    | none => simpa using h.answered
    | some answer => simpa using h.answered.concat (h.named task htask)
  · rw [answersOf_append, hanswers, List.map_append, List.map_append, h.granted]
    simp

/-- A task gives up. -/
theorem Shows.giveUp (h : s.Shows names answers g) (hlined : s.Lined) (hapart : s.Apart)
    (htask : task ∈ g.tasks) :
    ∃ actions : List (GateAction η), (actions.foldl act s).Shows names answers
      { g with
        gate := g.gate.withdraw task.ticket
        tasks := g.tasks.filter fun other => other.ticket ≠ task.ticket } := by
  obtain ⟨n, hthread⟩ := hapart.exists_thread (h.mem_calls htask)
  have hact : s.act (.cancel n) = ⟨{ s.table with gate := s.table.gate.withdraw task.ticket },
      s.threads.set n [], s.marks ++ [.became task.ticket .cancelled]⟩ := by
    simp only [act, hthread]
  have htable : GateTable.Shows { s.table with gate := s.table.gate.withdraw task.ticket } names
      { g with
        gate := g.gate.withdraw task.ticket
        tasks := g.tasks.filter fun other => other.ticket ≠ task.ticket } :=
    ⟨congrArg (·.withdraw task.ticket) h.table.gate, h.table.permits, h.table.completion⟩
  have hmarks : answersOf [(.became task.ticket .cancelled : GateMark η)] = [] := rfl
  have hleave := h.leave hlined htask hthread none hmarks (by rfl) htable (by rfl) (by rfl)
  refine ⟨[.cancel n], ?_⟩
  rw [List.foldl_cons, List.foldl_nil, hact]
  simpa using hleave

/-- The thread of a task goes on until it has nothing left to do; the task is answered. -/
theorem Shows.answer (h : s.Shows names answers g) (hlined : s.Lined) (hapart : s.Apart)
    (htask : task ∈ g.tasks) (answer : Bool)
    (hsteps : Steps s.table [.call task.ticket task.wish] marks t' [])
    (hanswers : answersOf marks = [(task.ticket, answer)])
    (hnext : t'.nextTicket = s.table.nextTicket) (ht : t'.Shows names g')
    (htasks : g'.tasks = g.tasks.filter fun other => other.ticket ≠ task.ticket)
    (hnext' : g'.nextTicket = g.nextTicket) :
    ∃ actions : List (GateAction η),
      (actions.foldl act s).Shows names (answers ++ [(task.name, answer)]) g' := by
  obtain ⟨n, hthread⟩ := hapart.exists_thread (h.mem_calls htask)
  obtain ⟨k, hk⟩ := exists_steps hthread hsteps
  exact ⟨_, hk ▸ h.leave hlined htask hthread (some answer) hanswers hnext ht htasks hnext'⟩

/-- A task is asked. -/
theorem Shows.poll (h : s.Shows names answers g) (hlined : s.Lined) (hapart : s.Apart)
    (htask : task ∈ g.tasks) :
    ∃ actions : List (GateAction η), (actions.foldl act s).Shows names
      (answers ++ (g.poll task).1.toList.map (task.name, ·)) (g.poll task).2 := by
  have hgate := h.table.gate
  cases hclosed : g.gate.closed with
  | true =>
      simp only [GateTasks.poll, hclosed, if_true]
      refine h.answer hlined hapart htask false (steps_refuse (hgate ▸ hclosed) task.wish) rfl rfl ?_ rfl rfl
      exact ⟨congrArg (·.withdraw task.ticket) hgate, h.table.permits, h.table.completion⟩
  | false =>
    cases hready : g.gate.isReady task.ticket with
    | false =>
        refine ⟨[], ?_⟩
        simpa [GateTasks.poll, hclosed, hready] using h
    | true =>
        have hopen : s.table.gate.closed = false := hgate ▸ hclosed
        have hready' : s.table.gate.isReady task.ticket = true := hgate ▸ hready
        simp only [GateTasks.poll, hclosed, hready, if_true, Bool.false_eq_true, if_false]
        cases hwish : task.wish with
        | reserve =>
            have hsteps := steps_reserve hopen hready'
            rw [← hwish] at hsteps
            refine h.answer hlined hapart htask true hsteps rfl rfl ?_ rfl rfl
            exact ⟨congrArg (·.grant task.ticket) hgate, h.table.permits.concat (h.named task htask),
              h.table.completion⟩
        | acquire handle =>
            have htable : GateTable.Shows { s.table with gate := s.table.gate.grant task.ticket } names
                { g with
                  tasks := g.tasks.filter fun other => other.ticket ≠ task.ticket
                  gate := g.gate.grant task.ticket } :=
              ⟨congrArg (·.grant task.ticket) hgate, h.table.permits, h.table.completion⟩
            obtain ⟨marks, t', hsteps, hanswers, hnext, ht⟩ := htable.exists_register task.ticket handle
            have hall := (steps_acquire hopen hready' handle).trans hsteps
            rw [← hwish] at hall
            obtain ⟨htasks, hnext'⟩ := GateTasks.releaseWhenTold_tasks _ handle
            refine h.answer hlined hapart htask true hall ?_ hnext ht htasks hnext'
            rw [answersOf_append, hanswers]
            rfl
        | drain =>
            have hsteps := steps_drain hopen hready'
            rw [← hwish] at hsteps
            refine h.answer hlined hapart htask true hsteps rfl rfl ?_ rfl rfl
            refine ⟨?_, h.table.permits, h.table.completion⟩
            have hrequest : (task.ticket, s.table.gate.capacity) ∈ s.table.gate.requests := by
              simpa only [hwish, GateWish.needs] using hlined.mem_requests hopen (h.mem_calls htask)
            show (s.table.gate.take task.ticket).putBack s.table.gate.capacity = _
            rw [← hlined.orderly.withdraw_ready hlined.inOrder.distinct hready' hrequest, hgate]

end Leave

/-! ## The schedule -/

/-- Some schedule comes to a state in which the same can be observed. -/
def Plays (capacity : Nat) (names : List ι) (answers : List (ι × Bool)) (g : GateTasks ι η) : Prop :=
  ∃ schedule : List (GateAction η), (run capacity schedule).Shows names answers g

variable {capacity : Nat} {names' : List ι} {answers' : List (ι × Bool)}

/-- A schedule goes on. -/
theorem Plays.goOn (h : Plays capacity names answers g)
    (hmore : ∀ s : GateSession η, s.Shows names answers g → s.Lined → s.Apart →
      ∃ actions : List (GateAction η), (actions.foldl act s).Shows names' answers' g') :
    Plays capacity names' answers' g' := by
  obtain ⟨schedule, hshows⟩ := h
  obtain ⟨actions, hactions⟩ := hmore _ hshows (lined_run capacity schedule) (apart_run capacity schedule)
  exact ⟨schedule ++ actions, (run_append capacity schedule actions).symm ▸ hactions⟩

/-- Some tasks give up, one after another. -/
theorem Plays.giveUp (h : Plays capacity names answers g) {tasks : List (GateTask ι η)}
    (hmem : ∀ task ∈ tasks, task ∈ g.tasks) (hnodup : (tasks.map GateTask.ticket).Nodup) :
    Plays capacity names answers { g with
      gate := tasks.foldl (fun gate task => gate.withdraw task.ticket) g.gate
      tasks := g.tasks.filter fun other => other.ticket ∉ tasks.map GateTask.ticket } := by
  induction tasks generalizing g with
  | nil => simpa using h
  | cons task tasks ih =>
      obtain ⟨hnew, hnodup⟩ := List.nodup_cons.mp hnodup
      obtain ⟨htask, htasks⟩ := List.forall_mem_cons.mp hmem
      have hfirst := h.goOn fun s hshows hlined hapart => hshows.giveUp hlined hapart htask
      have hothers : ∀ other ∈ tasks, other ∈ g.tasks.filter fun other => other.ticket ≠ task.ticket := by
        intro other hother
        have hne : other.ticket ≠ task.ticket := fun heq => hnew (heq ▸ List.mem_map_of_mem hother)
        exact List.mem_filter.mpr ⟨htasks other hother, by simpa using hne⟩
      have hfilter : (g.tasks.filter fun other => other.ticket ≠ task.ticket).filter
          (fun other => other.ticket ∉ tasks.map GateTask.ticket) =
          g.tasks.filter fun other => other.ticket ∉ (task :: tasks).map GateTask.ticket := by
        rw [List.filter_filter]
        refine List.filter_congr fun other _ => ?_
        simp only [List.map_cons, List.mem_cons, not_or, Bool.decide_and, Bool.and_comm, ne_eq]
      rw [← hfilter]
      exact ih hfirst hothers hnodup

/-- Each task has a ticket of its own. -/
theorem Plays.nodup (h : Plays capacity names answers g) : (g.tasks.map GateTask.ticket).Nodup := by
  obtain ⟨schedule, hshows⟩ := h
  have hsorted := (lined_run capacity schedule).sorted
  rw [hshows.calls, List.map_map] at hsorted
  exact hsorted.imp Nat.ne_of_lt

/-- The tasks of a name give up. -/
theorem Plays.cancel [DecidableEq ι] (h : Plays capacity names answers g) (name : ι) :
    Plays capacity names answers (g.cancel name) := by
  have hmem : ∀ task ∈ g.tasks.filter fun task => task.name = name, task ∈ g.tasks :=
    fun task htask => (List.mem_filter.mp htask).1
  have hgave := h.giveUp hmem (h.nodup.sublist (List.filter_sublist.map _))
  have hfilter : (g.tasks.filter fun other =>
      other.ticket ∉ (g.tasks.filter fun task => task.name = name).map GateTask.ticket) =
      g.tasks.filter fun other => other.name ≠ name := by
    obtain ⟨schedule, hshows⟩ := h
    refine List.filter_congr fun other hother => ?_
    rw [decide_eq_decide, not_iff_not, List.mem_map]
    constructor
    -- tasks of one ticket have one name
    · rintro ⟨task, htask, hticket⟩
      obtain ⟨htask, hname⟩ := List.mem_filter.mp htask
      have hsame := hshows.named task htask
      rw [hticket, hshows.named other hother, Option.some.injEq] at hsame
      exact hsame.trans (by simpa using hname)
    · exact fun hname => ⟨other, List.mem_filter.mpr ⟨hother, by simpa using hname⟩, rfl⟩
  rw [hfilter] at hgave
  exact hgave

/-- Some tasks are asked, one after another. -/
theorem Plays.ask (h : Plays capacity names answers g) {tasks : List (GateTask ι η)}
    (hmem : ∀ task ∈ tasks, task ∈ g.tasks) (hnodup : (tasks.map GateTask.ticket).Nodup) :
    Plays capacity names (tasks.foldl GateTasks.ask (answers, g)).1
      (tasks.foldl GateTasks.ask (answers, g)).2 := by
  induction tasks generalizing answers g with
  | nil => exact h
  | cons task tasks ih =>
      obtain ⟨hnew, hnodup⟩ := List.nodup_cons.mp hnodup
      obtain ⟨htask, htasks⟩ := List.forall_mem_cons.mp hmem
      have hfirst := h.goOn fun s hshows hlined hapart => hshows.poll hlined hapart htask
      refine ih hfirst (fun other hother => ?_) hnodup
      exact GateTasks.mem_poll (htasks other hother) fun heq => hnew (heq ▸ List.mem_map_of_mem hother)

/-- Every task is asked, the oldest first. -/
theorem Plays.pollAll (h : Plays capacity names answers g) :
    Plays capacity names (answers ++ g.pollAll.1) g.pollAll.2 := by
  have hfold : ∀ (tasks : List (GateTask ι η)) (before : List (ι × Bool)) (g : GateTasks ι η),
      tasks.foldl GateTasks.ask (answers ++ before, g) =
        (answers ++ (tasks.foldl GateTasks.ask (before, g)).1,
          (tasks.foldl GateTasks.ask (before, g)).2) := by
    intro tasks
    induction tasks with
    | nil => exact fun before g => rfl
    | cons task tasks ih =>
        intro before g
        simp only [List.foldl_cons, GateTasks.ask, List.append_assoc]
        exact ih _ _
  have hasked := h.ask (fun task htask => htask) h.nodup
  have hall := hfold g.tasks [] g
  rw [List.append_nil] at hall
  rwa [hall, ← GateTasks.pollAll_eq] at hasked

/-- What comes of a turn. -/
theorem Plays.turn [DecidableEq ι] {played : List (ι × Bool) × GateTasks ι η}
    (h : Plays capacity names played.1 played.2) (next : GateTurn ι η) :
    Plays capacity (names ++ GateTurn.names [next]) (GateTasks.turn played next).1
      (GateTasks.turn played next).2 := by
  suffices hact : Plays capacity (names ++ GateTurn.names [next]) played.1 (played.2.act next) from
    hact.pollAll
  -- only a task that starts adds a name
  have hsame (hnone : GateTurn.names [next] = [])
      (hact : Plays capacity names played.1 (played.2.act next)) :
      Plays capacity (names ++ GateTurn.names [next]) played.1 (played.2.act next) := by
    rwa [hnone, List.append_nil]
  cases next with
  | start name wish => exact h.goOn fun s hshows _ _ => ⟨[.start wish], hshows.start name wish⟩
  | cancel name => exact hsame rfl (h.cancel name)
  | release name => exact hsame rfl (h.goOn fun s hshows _ _ => hshows.release name)
  | releaseOn name handle => exact hsame rfl (h.goOn fun s hshows _ _ => hshows.releaseOn name handle)
  | tell handle outcome => exact hsame rfl (h.goOn fun s hshows _ _ => hshows.tell handle outcome)
  | close => exact hsame rfl (h.goOn fun s hshows _ _ => ⟨[.close], hshows.close⟩)

theorem plays_fresh (capacity : Nat) :
    Plays capacity [] [] ({ gate := .ofCapacity capacity } : GateTasks ι η) :=
  ⟨[], ⟨rfl, rfl, fun _ => rfl⟩, rfl, rfl, by simp, rfl, rfl, rfl, rfl⟩

end GateSession

open GateSession in
/-- What happens at a gate on one thread is what some schedule of steps on many threads does. -/
theorem exists_gate_schedule [DecidableEq ι] (capacity : Nat) (turns : List (GateTurn ι η)) :
    ∃ schedule : List (GateAction η),
      (run capacity schedule).Shows (GateTurn.names turns) (GateTasks.play capacity turns).1
        (GateTasks.play capacity turns).2 := by
  suffices h : Plays capacity (GateTurn.names turns) (GateTasks.play capacity turns).1
      (GateTasks.play capacity turns).2 from h
  induction turns using List.reverseRecOn with
  | nil => exact plays_fresh capacity
  | append_singleton turns next ih =>
      rw [GateTasks.play, List.foldl_concat, GateTurn.names, List.filterMap_append]
      exact ih.turn next

end EventReplay
